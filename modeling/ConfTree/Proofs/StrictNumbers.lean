import ConfTree.Proofs.ProbedReading

namespace ConfTree

namespace SessionReading

open Reading Probing

variable {α β : Type}

def declarationBy (number : Constants → Reading Value) : SessionReading Bool := do
  match ← ofReading fun constants => declarationBy? (topValueBy (number constants) constants) with
  | some (name, value) =>
      bind name value
      pure true
  | none => pure false

def itemBy (number : Constants → Reading Value) (last : Value) : SessionReading Value := do
  if ← declarationBy number then
    pure last
  else
    ofReading fun constants => topValueBy (number constants) constants

def itemsBy (number : Constants → Reading Value) : Nat → Value → SessionReading Value
  | 0, last => pure last
  | bound + 1, last => do
      ofReading fun _ => skip
      if ← ofReading fun _ => atEnd then
        pure last
      else
        let value ← itemBy number last
        itemsBy number bound value

/-- Reads a document from the cursor up to the end of the text, with a reader of numbers that is
told the constants declared so far. -/
def documentBy (number : Constants → Reading Value) : SessionReading Value := do
  let session ← get
  itemsBy number (session.cursor.rest.length + 1) .null

theorem items_eq (settings : Settings) (bound : Nat) (last : Value) :
    items settings bound last = itemsBy (fun _ => number settings.fractionRequired) bound last := by
  have hvalue : value settings = fun constants =>
      topValueBy (number settings.fractionRequired) constants :=
    funext (value_eq settings)
  have hdeclaration : declaration? settings = fun constants =>
      declarationBy? (topValueBy (number settings.fractionRequired) constants) :=
    funext (declaration?_eq_by settings)
  have hitem : ∀ last, item settings last =
      itemBy (fun _ => number settings.fractionRequired) last := by
    intro last
    rewrite [item, itemBy, declaration, declarationBy, hvalue, hdeclaration]
    rfl
  induction bound generalizing last with
  | zero => rfl
  | succ bound ih =>
      rw [items_succ, hitem, itemsBy]
      simp only [ih]

theorem document_eq (settings : Settings) :
    document settings = documentBy fun _ => number settings.fractionRequired := by
  simp only [document, documentBy, items_eq]

/-- A reader of numbers that fails at one cursor with certain constants, and requires no fractions
anywhere else. -/
structure FailsAt (reader : Constants → Reading Value) (table : Constants) (entry : Cursor)
    (error : ReadError) (left : Cursor) : Prop where
  fails : reader table entry = .error error left
  agrees : ∀ constants cursor, (constants, cursor) ≠ (table, entry) →
    reader constants cursor = number false cursor

theorem exists_failsAt (table : Constants) (entry : Cursor) (error : ReadError) (left : Cursor) :
    ∃ reader, FailsAt reader table entry error left := by
  classical
  refine ⟨fun constants cursor =>
    if (constants, cursor) = (table, entry) then .error error left else number false cursor,
    if_pos rfl, fun constants cursor hne => if_neg hne⟩

def numberProbing : Probing (Constants → Reading Value) Session where
  Place := Constants × Cursor
  lax := fun _ => number false
  strict := fun _ => number true
  Ahead := fun session place => ∃ count, place.2 = session.cursor.advance count
  FailsAt := fun reader place error left =>
    FailsAt reader place.1 place.2 error left.cursor ∧ left.constants = place.1
  Refused := fun place error left => StandsBare place.2 left.cursor ∧
    error = .located .fractionRequired left.cursor.position ∧ left.constants = place.1

abbrev IsFaithful (reading : (Constants → Reading Value) → SessionReading α) : Prop :=
  numberProbing.IsFaithful reading

theorem IsUniform.exists_advance {reading : SessionReading α} (h : IsUniform reading)
    {session after : Session} {value : α} (hread : reading session = .ok value after) :
    ∃ count, after.cursor = session.cursor.advance count := by
  obtain ⟨count, -, constants, verdict, hsettles⟩ := h session.cursor.rest session.constants
  have hreached := (hsettles session.cursor rfl).symm.trans hread
  cases verdict with
  | ok found => exact ⟨count, by rw [← (EStateM.Result.ok.inj hreached).2]⟩
  | error failure => simp [reached] at hreached

theorem IsUniform.isFaithful {reading : SessionReading α} (h : IsUniform reading) :
    IsFaithful fun _ => reading where
  ahead := by
    rintro session value after hread place ⟨further, hplace⟩
    obtain ⟨count, hcursor⟩ := h.exists_advance hread
    exact ⟨count + further, by rw [hplace, hcursor, Cursor.advance_advance]⟩
  probed := fun _ _ => .inl rfl
  follows := fun _ => .inl rfl

theorem FailsAt.at_constants {reader : Constants → Reading Value} {table : Constants}
    {entry left : Cursor} {error : ReadError} (h : FailsAt reader table entry error left) :
    Reading.FailsAt (reader table) entry error left :=
  ⟨h.fails, fun _ hne => h.agrees _ _ fun heq => hne (Prod.mk.inj heq).2⟩

theorem isFaithful_ofReading {reading : Reading Value → Constants → Reading α}
    (h : ∀ constants, Reading.IsFaithful fun reader => reading reader constants) :
    IsFaithful fun reader => ofReading fun constants => reading (reader constants) constants where
  ahead := by
    intro session value after hread place hplace
    exact (h session.constants).ahead (exists_of_ofReading_eq_ok hread).1 place.2 hplace
  probed := by
    rintro reader ⟨table, entry⟩ error ⟨left, constants⟩ ⟨hfails, htable⟩ ⟨cursor, here⟩
    obtain rfl : constants = table := htable
    by_cases hhere : here = constants
    · subst hhere
      rcases (h here).probed hfails.at_constants cursor with hsame | hstop
      · exact .inl (ofReading_congr hsame)
      · exact .inr (ofReading_of_error hstop)
    · have hreader : reader here = number false :=
        funext fun cursor => hfails.agrees _ _ fun heq => hhere (Prod.mk.inj heq).1
      exact .inl (ofReading_congr (congrArg (reading · here cursor) hreader))
  follows := by
    rintro ⟨cursor, here⟩
    rcases (h here).follows cursor with
      hsame | ⟨entry, error, after, hahead, ⟨hbare, rfl⟩, hstop, henters⟩
    · exact .inl (ofReading_congr hsame)
    · refine .inr ⟨(here, entry), _, ⟨after, here⟩, hahead, ⟨hbare, rfl, rfl⟩,
        ofReading_of_error hstop, ?_⟩
      rintro reader error ⟨left, constants⟩ ⟨hfails, rfl⟩
      exact ofReading_of_error (henters hfails.at_constants)

theorem isFaithful_declarationBy : IsFaithful declarationBy := by
  have hread : IsFaithful fun reader => ofReading fun constants =>
      declarationBy? (topValueBy (reader constants) constants) :=
    isFaithful_ofReading isFaithful_declarationBy?
  refine hread.bind fun found => ?_
  cases found with
  | none => exact isFaithful_pure _
  | some binding => exact ((isUniform_bind _ _).bind fun _ => isUniform_pure _).isFaithful

theorem isFaithful_itemBy (last : Value) : IsFaithful fun reader => itemBy reader last := by
  refine isFaithful_declarationBy.bind fun declared => ?_
  cases declared with
  | true => exact isFaithful_pure last
  | false =>
      exact isFaithful_ofReading fun constants =>
        isFaithful_valueByWithin constants (nestingLimit + 1)

theorem isFaithful_itemsBy (bound : Nat) (last : Value) :
    IsFaithful fun reader => itemsBy reader bound last := by
  induction bound generalizing last with
  | zero => exact isFaithful_pure last
  | succ bound ih =>
      refine (isUniform_ofReading fun _ => isUniform_skip).isFaithful.bind fun _ =>
        (isUniform_ofReading fun _ => isUniform_atEnd).isFaithful.bind fun ended => ?_
      cases ended with
      | true => exact isFaithful_pure last
      | false => exact (isFaithful_itemBy last).bind ih

theorem readDocument_eq (settings : Settings) (constants : Constants) (text : Text) :
    readDocument settings constants text =
      itemsBy (fun _ => number settings.fractionRequired) (text.length + 1) .null
        (.start text constants) := by
  rw [readDocument, document_eq]
  rfl

/-- Reading a document without required fractions comes to a number at a cursor with certain
constants: any failure that the reader of numbers meets just there is the failure of the run, with
these constants. -/
def ComesToNumber (constants : Constants) (text : Text) (table : Constants)
    (entry : Cursor) : Prop :=
  ∀ error left, ∃ reader, FailsAt reader table entry error left ∧
    documentBy reader (.start text constants) = .error error ⟨left, table⟩

end SessionReading

namespace Reading

theorem formBy_bar (number member : Reading Value) (constants : Constants) :
    formBy number constants member '|' = expression constants := rfl

theorem valueWithin_of_bar (settings other : Settings) (table : Constants) (depth : Nat)
    {cursor here : Cursor} (hskip : skip cursor = .ok () here)
    (hbar : here.rest.head? = some '|') :
    valueWithin settings table depth cursor = valueWithin other table depth cursor := by
  cases depth with
  | zero => rfl
  | succ depth =>
      rw [valueWithin_eq, valueWithin_eq, valueByWithin, valueByWithin, valueBy, valueBy,
        bind_of_ok hskip, bind_of_ok hskip, valueHereBy_of_head? hbar, valueHereBy_of_head? hbar,
        formBy_bar, formBy_bar]

end Reading

namespace Document

open Reading SessionReading

/-- Requiring fractions only adds one refusal.  Either both runs end alike, or the strict run is
refused right behind a number without a fraction, to which the other run has come with the same
constants.  So whatever is read strictly is read alike without required fractions, and constant
expressions are always read alike. -/
theorem strict_readDocument_eq_or (constants : Constants) (text : Text) :
    (readDocument { fractionRequired := true } constants text =
        readDocument { fractionRequired := false } constants text ∨
      ∃ (before : Text) (entry after : Cursor) (table : Constants),
        (Cursor.start text).Moves before entry ∧ StandsBare entry after ∧
        readDocument { fractionRequired := true } constants text =
          .error (.located .fractionRequired after.position) ⟨after, table⟩ ∧
        ComesToNumber constants text table entry) ∧
    (∀ value after, readDocument { fractionRequired := true } constants text = .ok value after →
      readDocument { fractionRequired := false } constants text = .ok value after) ∧
    ∀ table depth cursor here, skip cursor = .ok () here → here.rest.head? = some '|' →
      valueWithin { fractionRequired := true } table depth cursor =
        valueWithin { fractionRequired := false } table depth cursor := by
  have hfollows := (isFaithful_itemsBy (text.length + 1) .null).follows (.start text constants)
  simp only [SessionReading.numberProbing] at hfollows
  rw [← readDocument_eq { fractionRequired := true },
    ← readDocument_eq { fractionRequired := false }] at hfollows
  refine ⟨?_, fun value after hread => ?_, fun table depth cursor here =>
    valueWithin_of_bar _ _ table depth⟩
  · rcases hfollows with hsame |
      ⟨⟨table, entry⟩, _, left, ⟨count, hentry⟩, ⟨hbare, rfl, rfl⟩, hstop, henters⟩
    · exact .inl hsame
    · have hmoves : (Cursor.start text).Moves _ entry := hentry ▸ Cursor.moves_take _ count
      refine .inr ⟨_, entry, left.cursor, left.constants, hmoves, hbare, hstop,
        fun error stop => ?_⟩
      obtain ⟨reader, hfails⟩ := exists_failsAt left.constants entry error stop
      exact ⟨reader, hfails, henters ⟨hfails, rfl⟩⟩
  · rcases hfollows with hsame | ⟨_, _, _, -, -, hstop, -⟩
    · rw [← hsame, hread]
    · rw [hstop] at hread
      simp at hread

theorem strict_readDocument_eq_or_lists :
    (∃ value after,
      readDocument { fractionRequired := true } [] "[|@\"a\"|]".toList = .ok value after ∧
      readDocument { fractionRequired := false } [] "[|@\"a\"|]".toList = .ok value after) ∧
    (∃ here, skip (.start " |2|".toList) = .ok () here ∧ here.rest.head? = some '|' ∧
      valueWithin { fractionRequired := true } [] 1 (.start " |2|".toList) =
        valueWithin { fractionRequired := false } [] 1 (.start " |2|".toList)) ∧
    ∃ table entry, ComesToNumber [] "[@\"a\"; -12".toList table entry := by
  have hread : readDocument { fractionRequired := true } [] "[|@\"a\"|]".toList =
      .ok (.list [.text ['a']]) ⟨⟨[], 8, ⟨1, 9⟩⟩, []⟩ := rfl
  have hskip : skip (.start " |2|".toList) = .ok () ⟨"|2|".toList, 1, ⟨1, 2⟩⟩ := rfl
  have hstrict : readDocument { fractionRequired := true } [] "[@\"a\"; -12".toList =
      .error (.located .fractionRequired ⟨1, 11⟩) ⟨⟨[], 10, ⟨1, 11⟩⟩, []⟩ := rfl
  have hlax : readDocument { fractionRequired := false } [] "[@\"a\"; -12".toList =
      .error (.located .expectedListSeparator ⟨1, 11⟩) ⟨⟨[], 10, ⟨1, 11⟩⟩, []⟩ := rfl
  have hdiffer : readDocument { fractionRequired := true } [] "[@\"a\"; -12".toList ≠
      readDocument { fractionRequired := false } [] "[@\"a\"; -12".toList := by
    rw [hstrict, hlax]
    simp
  refine ⟨⟨_, _, hread, (strict_readDocument_eq_or [] _).2.1 _ _ hread⟩,
    ⟨_, hskip, rfl, (strict_readDocument_eq_or [] []).2.2 [] 1 _ _ hskip rfl⟩, ?_⟩
  obtain ⟨_, entry, _, table, -, -, -, hcomes⟩ :=
    (strict_readDocument_eq_or [] "[@\"a\"; -12".toList).1.resolve_left hdiffer
  exact ⟨table, entry, hcomes⟩

end Document

end ConfTree
