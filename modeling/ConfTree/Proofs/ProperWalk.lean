import ConfTree.Proofs.CursorPlace
import ConfTree.Proofs.DocumentProgress

namespace ConfTree

def Item.IsDeclaration : Item → Prop
  | .declaration _ _ _ _ => True
  | .value _ => False

namespace Document

variable {settings : Settings} {before reached : Meaning} {ending : Gap}

theorem last_of_meaningFrom {items : List (Gap × Item)} (hconstants : before.constants.AreProper)
    (hvalid : IsValid settings ⟨items, ending⟩) (h : meaningFrom before items = .ok reached) :
    (reached.last = before.last ∧ ∀ item ∈ items, item.2.IsDeclaration) ∨
      (reached.last.IsProper ∧ ∃ item ∈ items, ¬item.2.IsDeclaration) := by
  induction items generalizing before with
  | nil =>
      obtain rfl : before = reached := Except.ok.inj h
      exact .inl ⟨rfl, by simp⟩
  | cons item items ih =>
      rcases item with ⟨gap, item⟩
      obtain ⟨-, hitem, hvalid⟩ := isValid_cons_iff.mp hvalid
      cases hadd : before.add item with
      | error cause =>
          rw [meaningFrom_cons_of_error hadd] at h
          simp at h
      | ok next =>
          rw [meaningFrom_cons_of_ok hadd] at h
          have hfurther := ih (Meaning.areProper_add hconstants hitem hadd) hvalid h
          cases item with
          | declaration name beforeMarker beforeValue term =>
              obtain ⟨value, -, hnext⟩ := Term.exists_value_of_bind_eq_ok hadd
              obtain rfl := Except.ok.inj hnext
              rcases hfurther with ⟨hlast, hall⟩ | ⟨hproper, other, hother, hvalue⟩
              · exact .inl ⟨hlast, List.forall_mem_cons.mpr ⟨trivial, hall⟩⟩
              · exact .inr ⟨hproper, other, List.mem_cons_of_mem _ hother, hvalue⟩
          | value term =>
              obtain ⟨value, hvalue, hnext⟩ := Term.exists_value_of_bind_eq_ok hadd
              obtain rfl := Except.ok.inj hnext
              refine .inr ⟨?_, (gap, .value term), List.mem_cons_self, id⟩
              rcases hfurther with ⟨hlast, -⟩ | ⟨hproper, -⟩
              · rw [hlast]
                exact Term.isProper_value hconstants hitem hvalue
              · exact hproper

theorem last_eq_null_iff {items : List (Gap × Item)} (hconstants : before.constants.AreProper)
    (hvalid : IsValid settings ⟨items, ending⟩) (hbefore : before.last = .null)
    (h : meaningFrom before items = .ok reached) :
    reached.last = .null ↔ ∀ item ∈ items, item.2.IsDeclaration := by
  rcases last_of_meaningFrom hconstants hvalid h with
    ⟨hlast, hall⟩ | ⟨hproper, item, hitem, hvalue⟩
  · exact iff_of_true (hlast.trans hbefore) hall
  · exact iff_of_false hproper.ne_null fun hall => hvalue (hall item hitem)

end Document

namespace Reading

variable {settings : Settings} {constants : Constants} {cursor after : Cursor} {value : Value}

theorem Spells.isProper {limit : Nat} {text rest : Text} (hconstants : constants.AreProper)
    (h : Spells settings constants limit text rest value) : value.IsProper := by
  rcases h with ⟨gap, term, -, hterm, -, -, hmeaning, -⟩
  exact Term.isProper_value hconstants hterm hmeaning

theorem isProper_of_spells {reading : Reading Value} {limit : Nat} (hconstants : constants.AreProper)
    (hreading : Ensures reading (Spells settings constants limit))
    (h : reading cursor = .ok value after) : value.IsProper := by
  obtain ⟨text, -, hspells⟩ := hreading cursor after value h
  exact hspells.isProper hconstants

theorem isProper_of_quotedText (h : quotedText cursor = .ok value after) : value.IsProper := by
  obtain ⟨_, -, _, content, -, -, -, rfl⟩ := ensures_quotedText cursor after value h
  trivial

theorem isProper_of_number {fractionRequired : Bool}
    (h : number fractionRequired cursor = .ok value after) : value.IsProper := by
  obtain ⟨_, -, literal, -, -, -, rfl, -⟩ := ensures_number fractionRequired cursor after value h
  trivial

theorem isProper_of_expression (hconstants : constants.AreProper)
    (h : expression constants cursor = .ok value after) : value.IsProper := by
  obtain ⟨_, -, gap, body, -, -, -, hmeaning⟩ := ensures_expression constants cursor after value h
  exact Term.isProper_expressionValue hconstants hmeaning

end Reading

namespace SessionReading

open Reading Document

variable {α β : Type} {settings : Settings} {property : α → Prop}

/-- A reading keeps constants proper, and its results have a property. -/
def Keeps (property : α → Prop) (reading : SessionReading α) : Prop :=
  ∀ session : Session, session.constants.AreProper →
    match reading session with
    | .ok value after => after.constants.AreProper ∧ property value
    | .error _ left => left.constants.AreProper

theorem keeps_ofReading {reading : Constants → Reading α}
    (h : ∀ constants : Constants, constants.AreProper → ∀ cursor value after,
      reading constants cursor = .ok value after → property value) :
    Keeps property (ofReading reading) := by
  intro session hsession
  cases hread : ofReading reading session with
  | ok value after =>
      obtain ⟨hread, hconstants⟩ := exists_of_ofReading_eq_ok hread
      exact ⟨hconstants ▸ hsession, h _ hsession _ _ _ hread⟩
  | error error left =>
      change left.constants.AreProper
      rwa [(exists_of_ofReading_eq_error hread).2]

theorem keeps_ofReading_any (reading : Constants → Reading α) :
    Keeps (fun _ => True) (ofReading reading) :=
  keeps_ofReading fun _ _ _ _ _ _ => trivial

theorem Keeps.map {reading : SessionReading α} {other : β → Prop} (f : α → β)
    (h : Keeps property reading) (himp : ∀ value, property value → other (f value)) :
    Keeps other (f <$> reading) := by
  intro session hsession
  have hkeeps := h session hsession
  rw [map_eq_pure_bind]
  cases hread : reading session with
  | ok value after =>
      rw [hread] at hkeeps
      rw [bind_of_ok hread]
      exact ⟨hkeeps.1, himp value hkeeps.2⟩
  | error error left =>
      rw [hread] at hkeeps
      rw [bind_of_error hread]
      exact hkeeps

theorem keeps_declaration (settings : Settings) : Keeps (fun _ => True) (declaration settings) := by
  intro session hsession
  cases hread : declaration settings session with
  | ok declared after =>
      refine ⟨?_, trivial⟩
      rcases exists_of_declaration hread with ⟨-, name, value, hvalue, hbound⟩ | ⟨-, rfl⟩
      · rw [hbound]
        exact hsession.bind name (isProper_of_declaration? hsession hvalue)
      · exact hsession
  | error error left =>
      change left.constants.AreProper
      rwa [(exists_of_declaration_eq_error hread).2]

theorem keeps_document (settings : Settings) :
    Keeps (fun value => value = .null ∨ value.IsProper) (document settings) := by
  intro session hsession
  obtain ⟨_, rest, reached, -, hleads, hstop⟩ := exists_getsThrough_document settings session
  have hreached : reached.constants.AreProper := hleads.areProper hsession
  cases hread : document settings session with
  | ok value after =>
      rw [hread] at hstop
      obtain ⟨rfl, hconstants, -⟩ := hstop
      refine ⟨hconstants ▸ hreached, ?_⟩
      rcases last_of_meaningFrom hsession hleads.valid hleads.meaning with
        ⟨hnull, -⟩ | ⟨hproper, -⟩
      · exact .inl hnull
      · exact .inr hproper
  | error error left =>
      rw [hread] at hstop
      change left.constants.AreProper
      rwa [hstop.1]

theorem null_iff_of_document {session after : Session} {value : Value}
    (hsession : session.constants.AreProper) (h : document settings session = .ok value after) :
    (∃ found : Document, found.IsValid settings ∧ found.IsApart ∧
      found.written = session.cursor.rest) ∧
    ∀ found : Document, found.IsValid settings → found.IsApart →
      found.written = session.cursor.rest →
      (value = .null ↔ ∀ item ∈ found.items, item.2.IsDeclaration) := by
  constructor
  · obtain ⟨items, ending, hvalid, hapart, hmoves, hend, -⟩ :=
      exists_document h (Nat.lt_succ_self _)
    refine ⟨⟨items, ending⟩, hvalid, hapart, ?_⟩
    rw [hmoves.1, hend, List.append_nil]
  · rintro ⟨items, ending⟩ hvalid hapart hwritten
    have hbound : items.length < session.cursor.rest.length + 1 := by
      rw [← hwritten]
      exact Nat.lt_succ_of_le (length_le_written hvalid)
    have hagrees := items_written session .null hvalid hapart hbound hwritten.symm
    change AgreesFrom _ _ _ (document settings session) at hagrees
    rw [h, AgreesFrom] at hagrees
    rcases hagrees with hread | ⟨-, left, hdeep⟩
    · cases hmeaning : meaningFrom ⟨.null, session.constants⟩ items with
      | ok reached =>
          simp only [hmeaning, EStateM.Result.ok.injEq] at hread
          rw [hread.1]
          refine last_eq_null_iff ?_ hvalid ?_ hmeaning
          · exact hsession
          · rfl
      | error cause => simp [hmeaning] at hread
    · simp at hdeep

end SessionReading

namespace Walk

open SessionReading Reading

variable {settings : Settings} {walk : Walk}

/-- A reply that is a value is a proper one, unless it is the null of a document. -/
def Reply.SuitsStep (step : Step) : Reply → Prop
  | .value found => found.IsProper ∨ (step = .document ∧ found = .null)
  | _ => True

theorem keeps_reply (settings : Settings) (step : Step) :
    Keeps (Reply.SuitsStep step) (reply settings step) := by
  have hflag : ∀ {reading : SessionReading Bool}, Keeps (fun _ => True) reading →
      Keeps (Reply.SuitsStep step) (Reply.flag <$> reading) :=
    fun hreading => hreading.map _ fun _ _ => trivial
  cases step with
  | document =>
      refine (keeps_document settings).map _ fun value hvalue => ?_
      rcases hvalue with hnull | hproper
      · exact .inr ⟨rfl, hnull⟩
      · exact .inl hproper
  | value =>
      refine (keeps_ofReading ?_).map _ fun _ => .inl
      exact fun constants hconstants _ _ _ => isProper_of_value hconstants
  | quotedText =>
      refine (keeps_ofReading ?_).map _ fun _ => .inl
      exact fun _ _ _ _ _ => isProper_of_quotedText
  | number =>
      refine (keeps_ofReading ?_).map _ fun _ => .inl
      exact fun _ _ _ _ _ => isProper_of_number
  | list =>
      refine (keeps_ofReading ?_).map _ fun _ => .inl
      exact fun constants hconstants _ _ _ => isProper_of_spells hconstants
        (ensures_list (ensures_valueWithin settings constants nestingLimit))
  | mapping =>
      refine (keeps_ofReading ?_).map _ fun _ => .inl
      exact fun constants hconstants _ _ _ => isProper_of_spells hconstants
        (ensures_mapping (ensures_valueWithin settings constants nestingLimit))
  | expression =>
      refine (keeps_ofReading ?_).map _ fun _ => .inl
      exact fun constants hconstants _ _ _ => isProper_of_expression hconstants
  | declaration => exact hflag (keeps_declaration settings)
  | atEnd => exact hflag (keeps_ofReading_any _)
  | digits => exact (keeps_ofReading_any _).map _ fun _ _ => trivial
  | name => exact (keeps_ofReading_any _).map _ fun _ _ => trivial
  | current => exact (keeps_ofReading_any _).map _ fun _ _ => trivial
  | skip => exact (keeps_ofReading_any _).map _ fun _ _ => trivial
  | advance count => exact (keeps_ofReading_any _).map _ fun _ _ => trivial
  | peek c => exact hflag (keeps_ofReading_any _)
  | expect c => exact (keeps_ofReading_any _).map _ fun _ _ => trivial
  | constants => exact fun _ hsession => ⟨hsession, trivial⟩
  | save => exact fun _ hsession => ⟨hsession, trivial⟩
  | restore slot => exact fun _ hsession => ⟨hsession, trivial⟩

theorem constants_restore (walk : Walk) (slot : Nat) :
    (walk.restore slot).session.constants = walk.session.constants := by
  unfold Walk.restore
  split <;> rfl

theorem keeps_perform (settings : Settings) (step : Step) (h : walk.session.constants.AreProper) :
    match perform settings step walk with
    | .ok reply after => after.session.constants.AreProper ∧ reply.SuitsStep step
    | .error _ left => left.session.constants.AreProper := by
  have hkeeps := keeps_reply settings step walk.session h
  refine perform_induction settings step walk (fun _ => ⟨h, trivial⟩)
    (fun slot _ => ⟨?_, trivial⟩) (fun found session hread => ?_) fun error session hread => ?_
  · rwa [constants_restore]
  · rw [hread] at hkeeps
    exact hkeeps
  · rw [hread] at hkeeps
    exact hkeeps

theorem areProper_afterStep (step : Step) (h : walk.session.constants.AreProper) :
    (walk.afterStep settings step).session.constants.AreProper := by
  have hkeeps := keeps_perform settings step h
  unfold afterStep
  cases hperform : perform settings step walk with
  | ok reply after =>
      rw [hperform] at hkeeps
      exact hkeeps.1
  | error error left =>
      rw [hperform] at hkeeps
      exact hkeeps

theorem areProper_follow (steps : List Step) (h : walk.session.constants.AreProper) :
    (follow settings steps walk).session.constants.AreProper := by
  induction steps generalizing walk with
  | nil => exact h
  | cons step steps ih => exact ih (areProper_afterStep step h)

theorem exists_of_perform_document {value : Value} {after : Walk}
    (h : perform settings .document walk = .ok (.value value) after) :
    ∃ session, document settings walk.session = .ok value session := by
  rw [perform_document] at h
  cases hread : document settings walk.session with
  | ok found session =>
      rw [hread] at h
      obtain ⟨hfound, -⟩ := EStateM.Result.ok.inj h
      obtain rfl := Reply.value.inj hfound
      exact ⟨session, rfl⟩
  | error error session =>
      rw [hread] at h
      cases h

/-- After any steps from the start of a text on, the constants are proper, and so is whatever value
one more step gives.  A whole document that is read gives a proper value too, or null exactly if
every item of the text read is a declaration. -/
theorem isProper_after_steps (settings : Settings) (text : Text) (steps : List Step) :
    (follow settings steps (start text)).session.constants.AreProper ∧
    (∀ step value after,
      perform settings step (follow settings steps (start text)) = .ok (.value value) after →
      value.IsProper ∨ (step = .document ∧ value = .null)) ∧
    ∀ value after,
      perform settings .document (follow settings steps (start text)) = .ok (.value value) after →
      (∃ document : Document, document.IsValid settings ∧ document.IsApart ∧
        document.written = (follow settings steps (start text)).session.cursor.rest) ∧
      ∀ document : Document, document.IsValid settings → document.IsApart →
        document.written = (follow settings steps (start text)).session.cursor.rest →
        (value = .null ↔ ∀ item ∈ document.items, item.2.IsDeclaration) := by
  have hstart : (start text).session.constants.AreProper := by
    simp [start, Session.start, Constants.AreProper]
  have hconstants : (follow settings steps (start text)).session.constants.AreProper :=
    areProper_follow steps hstart
  refine ⟨hconstants, ?_, ?_⟩
  · intro step value after hperform
    have hkeeps := keeps_perform settings step hconstants
    rw [hperform] at hkeeps
    exact hkeeps.2
  · intro value after hperform
    obtain ⟨session, hread⟩ := exists_of_perform_document hperform
    exact null_iff_of_document hconstants hread

theorem isProper_after_steps_repeated_key :
    (∃ mapping after,
      perform {} .value (follow {} [.document, .advance 1, .save]
        (start "x := \x7bk: @\"a\", k: [@\"b\"]\x7d ! x".toList)) = .ok (.value mapping) after ∧
      mapping.IsProper) ∧
    ∃ after,
      perform {} .document (follow {} [.document, .advance 1]
        (start "x := [] ! y := x".toList)) = .ok (.value .null) after ∧
      ∀ document : Document, document.IsValid {} → document.IsApart →
        document.written = " y := x".toList → ∀ item ∈ document.items, item.2.IsDeclaration := by
  constructor
  · have hperform : perform {} .value (follow {} [.document, .advance 1, .save]
        (start "x := \x7bk: @\"a\", k: [@\"b\"]\x7d ! x".toList)) =
        .ok (.value (.mapping [(['k'], .list [.text ['b']])])) _ := rfl
    refine ⟨_, _, hperform, ?_⟩
    rcases (isProper_after_steps {} _ _).2.1 _ _ _ hperform with hproper | ⟨hstep, -⟩
    · exact hproper
    · simp at hstep
  · have hperform : perform {} .document (follow {} [.document, .advance 1]
        (start "x := [] ! y := x".toList)) = .ok (.value .null) _ := rfl
    refine ⟨_, hperform, fun document hvalid hapart hwritten => ?_⟩
    exact (((isProper_after_steps {} _ _).2.2 _ _ hperform).2 document hvalid hapart hwritten).mp rfl

end Walk

end ConfTree
