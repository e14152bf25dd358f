import ConfTree.Proofs.DeclarationReading

namespace ConfTree

namespace SessionReading

open Reading Document

variable {settings : Settings} {session : Session} {last : Value}

theorem ofReading_of_ok {α : Type} {reading : Constants → Reading α} {cursor : Cursor} {result : α}
    (h : reading session.constants session.cursor = .ok result cursor) :
    ofReading reading session = .ok result { session with cursor := cursor } := by
  simp only [ofReading, h]

theorem ofReading_of_error {α : Type} {reading : Constants → Reading α} {cursor : Cursor}
    {error : ReadError}
    (h : reading session.constants session.cursor = .error error cursor) :
    ofReading reading session = .error error { session with cursor := cursor } := by
  simp only [ofReading, h]

theorem ofReading_congr {α : Type} {reading other : Constants → Reading α}
    (h : reading session.constants session.cursor = other session.constants session.cursor) :
    ofReading reading session = ofReading other session := by
  simp only [ofReading, h]

theorem exists_of_ofReading_eq_ok {α : Type} {reading : Constants → Reading α} {after : Session}
    {result : α} (h : ofReading reading session = .ok result after) :
    reading session.constants session.cursor = .ok result after.cursor ∧
      after.constants = session.constants := by
  unfold ofReading at h
  cases hreading : reading session.constants session.cursor with
  | ok value cursor =>
      rw [hreading] at h
      obtain ⟨rfl, rfl⟩ : value = result ∧ { session with cursor := cursor } = after := by
        simpa using h
      exact ⟨rfl, rfl⟩
  | error error cursor =>
      rw [hreading] at h
      simp at h

def item (settings : Settings) (last : Value) : SessionReading Value := do
  if ← declaration settings then
    pure last
  else
    ofReading (Reading.value settings)

theorem items_succ (settings : Settings) (bound : Nat) (last : Value) :
    items settings (bound + 1) last = (do
      ofReading fun _ => skip
      if ← ofReading fun _ => atEnd then
        pure last
      else
        let value ← item settings last
        items settings bound value) := by
  have hitem : (item settings last >>= items settings bound) = (do
      if ← declaration settings then
        items settings bound last
      else
        let value ← ofReading (Reading.value settings)
        items settings bound value) := by
    rw [item, bind_assoc]
    congr 1
    funext declared
    cases declared <;> simp
  rw [items, hitem]

/-! Forwards. -/

/-- Reading an item comes to what the item adds to the meaning so far, unless it is too deep. -/
def AnswersItem (settings : Settings) (written : Item) (last : Value) (session : Session) : Prop :=
  (match Meaning.add ⟨last, session.constants⟩ written with
    | .ok next =>
        item settings last session =
          .ok next.last ⟨session.cursor.advance written.written.length, next.constants⟩
    | .error cause =>
        ∃ cursor : Cursor, item settings last session =
          .error (.located cause cursor.position) ⟨cursor, session.constants⟩) ∨
  (nestingLimit + 1 < written.term.levels ∧
    ∃ left, item settings last session = .error .nestingTooDeep left)

theorem declaration_of_some {name : Text} {value : Value} {cursor : Cursor}
    (h : declaration? settings session.constants session.cursor =
      .ok (some (name, value)) cursor) :
    declaration settings session = .ok true ⟨cursor, session.constants.bind name value⟩ := by
  rw [declaration, bind_of_ok (ofReading_of_ok h)]
  rfl

theorem declaration_of_none
    (h : declaration? settings session.constants session.cursor = .ok none session.cursor) :
    declaration settings session = .ok false session := by
  rw [declaration, bind_of_ok (ofReading_of_ok h)]
  rfl

theorem declaration_of_error {error : ReadError} {cursor : Cursor}
    (h : declaration? settings session.constants session.cursor = .error error cursor) :
    declaration settings session = .error error ⟨cursor, session.constants⟩ := by
  rw [declaration, bind_of_error (ofReading_of_error h)]

theorem answersItem_declaration {name : Text} {beforeMarker beforeValue : Gap} {term : Term}
    {rest : Text}
    (hitem : (Item.declaration name beforeMarker beforeValue term).IsValid settings)
    (hstops : term.StopsBefore rest)
    (hrest : session.cursor.rest =
      (Item.declaration name beforeMarker beforeValue term).written ++ rest) :
    AnswersItem settings (.declaration name beforeMarker beforeValue term) last session := by
  have hanswer := answers_declaration session.constants hitem hstops session.cursor hrest
  cases hread : declaration? settings session.constants session.cursor with
  | ok found after =>
      rw [hread] at hanswer
      rcases hanswer with ⟨hfound, rfl⟩
      cases hvalue : term.value session.constants with
      | error cause =>
          rw [hvalue] at hfound
          exact absurd hfound (by simp [Bind.bind, Except.bind])
      | ok value =>
          rw [hvalue] at hfound
          obtain rfl : some (name, value) = found := by
            simpa [Bind.bind, Except.bind] using hfound
          left
          simp only [Meaning.add, hvalue]
          change item settings last session = _
          rw [item, bind_of_ok (declaration_of_some hread)]
          rfl
  | error error after =>
      rw [hread] at hanswer
      have hitem : item settings last session = .error error ⟨after, session.constants⟩ := by
        rw [item, bind_of_error (declaration_of_error hread)]
      cases error with
      | located cause position =>
          rcases hanswer with ⟨hcause, rfl⟩
          left
          cases hvalue : term.value session.constants with
          | error found =>
              rw [hvalue] at hcause
              obtain rfl : found = cause := by simpa [Bind.bind, Except.bind] using hcause
              simp only [Meaning.add, hvalue]
              exact ⟨after, hitem⟩
          | ok value =>
              rw [hvalue] at hcause
              exact absurd hcause (by simp [Bind.bind, Except.bind])
      | nestingTooDeep => exact .inr ⟨hanswer, _, hitem⟩
      | pastEnd => exact hanswer.elim

theorem answersItem_value {term : Term} {rest : Text} (hterm : term.IsValid settings)
    (hstops : term.StopsBefore rest)
    (hnone : declaration? settings session.constants session.cursor = .ok none session.cursor)
    (hrest : session.cursor.rest = term.written ++ rest) :
    AnswersItem settings (.value term) last session := by
  have hstep : item settings last session = ofReading (Reading.value settings) session := by
    rw [item, bind_of_ok (declaration_of_none hnone)]
    rfl
  have hanswer := answersFor_value settings session.constants term hterm [] _ Gap.isInner_nil hstops
    session.cursor hrest
  cases hread : Reading.value settings session.constants session.cursor with
  | ok value after =>
      rw [hread] at hanswer
      rcases hanswer with ⟨hvalue, rfl⟩
      left
      simp only [Meaning.add, hvalue]
      change item settings last session = _
      rw [hstep, ofReading_of_ok hread]
      rfl
  | error error after =>
      rw [hread] at hanswer
      rw [ofReading_of_error hread] at hstep
      cases error with
      | located cause position =>
          rcases hanswer with ⟨hvalue, rfl⟩
          left
          simp only [Meaning.add, hvalue]
          exact ⟨after, hstep⟩
      | nestingTooDeep => exact .inr ⟨hanswer, _, hstep⟩
      | pastEnd => exact hanswer.elim

theorem answersItem {written : Item} {rest : Text} (hitem : written.IsValid settings)
    (hstops : written.term.StopsBefore rest) (hbinds : BindsNothing rest)
    (hrest : session.cursor.rest = written.written ++ rest) :
    AnswersItem settings written last session := by
  cases written with
  | declaration name beforeMarker beforeValue term =>
      exact answersItem_declaration hitem hstops hrest
  | value term =>
      have hnone : declaration? settings session.constants session.cursor =
          .ok none session.cursor := by
        simpa using takes_declaration?_none hitem hstops hbinds session.cursor hrest
      exact answersItem_value hitem hstops hnone hrest

def behind (session : Session) (text : Text) : Session :=
  { session with cursor := session.cursor.advance text.length }

theorem behind_nil (session : Session) : behind session (Gap.text []) = session := by
  rw [Gap.text, List.flatMap_nil, behind, List.length_nil, Cursor.advance_zero]

theorem advance_behind (session : Session) (gap first further : Text) :
    ((behind session gap).cursor.advance first.length).advance further.length =
      session.cursor.advance (gap ++ (first ++ further)).length := by
  change ((session.cursor.advance _).advance _).advance _ = _
  rw [Cursor.advance_append, Cursor.advance_append]

theorem items_behind_gap {gap : Gap} {rest : Text} (bound : Nat) (hgap : gap.MayPrecede rest)
    (habsent : Insignificant.IsAbsent rest) (hrest : session.cursor.rest = gap.text ++ rest) :
    items settings (bound + 1) last session =
      (if rest.isEmpty then pure last else item settings last >>= items settings bound)
        (behind session gap.text) := by
  have hskip : ofReading (fun _ => skip) session = .ok () (behind session gap.text) :=
    ofReading_of_ok (takes_skip hgap habsent session.cursor hrest)
  have hend : ofReading (fun _ => atEnd) (behind session gap.text) =
      .ok rest.isEmpty (behind session gap.text) := by
    have hbehind : (behind session gap.text).cursor.rest = rest :=
      Cursor.rest_advance_append hrest
    rw [ofReading_of_ok (show atEnd (behind session gap.text).cursor = _ from rfl), hbehind]
  rw [items_succ, bind_of_ok hskip, bind_of_ok hend]

theorem items_in_front {gap : Gap} {first : Item} {rest : Text} (bound : Nat) (hgap : gap.IsInner)
    (hfirst : first.IsValid settings)
    (hrest : session.cursor.rest = gap.text ++ (first.written ++ rest)) :
    items settings (bound + 1) last session =
      (item settings last >>= items settings bound) (behind session gap.text) := by
  obtain ⟨c, tail, hwritten, -⟩ := Item.exists_cons_of_isValid hfirst
  rw [items_behind_gap bound (hgap.mayPrecede _) (Item.isAbsent_written_append hfirst _) hrest,
    hwritten]
  rfl

/-- What reading a document from a session on comes to: what its items add to the meaning so far, or
the cause that is met first, with the constants declared before, unless an item is too deep. -/
def AgreesFrom (last : Value) (session : Session) (document : Document)
    (result : EStateM.Result ReadError Session Value) : Prop :=
  (match meaningFrom ⟨last, session.constants⟩ document.items with
    | .ok meaning =>
        result = .ok meaning.last
          ⟨session.cursor.advance document.written.length, meaning.constants⟩
    | .error cause =>
        ∃ cursor : Cursor, result = .error (.located cause cursor.position)
          ⟨cursor, (reachedFrom ⟨last, session.constants⟩ document.items).constants⟩) ∨
  (¬document.IsShallow ∧ ∃ left, result = .error .nestingTooDeep left)

theorem isShallow_of_cons {gap ending : Gap} {first : Item} {items : List (Gap × Item)}
    (h : IsShallow ⟨(gap, first) :: items, ending⟩) : IsShallow ⟨items, ending⟩ :=
  fun item hitem => h item (List.mem_cons_of_mem _ hitem)

/-- What reading the item behind a gap adds to the meaning, if what follows agrees with the items
behind it. -/
theorem agreesFrom_cons {gap ending : Gap} {first : Item} {items : List (Gap × Item)}
    {further : Value → EStateM ReadError Session Value}
    (hanswer : AnswersItem settings first last (behind session gap.text))
    (hbehind : (behind session gap.text).cursor.rest = first.written ++ written ⟨items, ending⟩)
    (hfurther : ∀ next : Session, ∀ value, next.cursor.rest = written ⟨items, ending⟩ →
      AgreesFrom value next ⟨items, ending⟩ (further value next)) :
    AgreesFrom last session ⟨(gap, first) :: items, ending⟩
      ((item settings last >>= further) (behind session gap.text)) := by
  rw [AgreesFrom, written_cons]
  rcases hanswer with hstep | ⟨hdeep, left, hstep⟩
  · have hconstants : (behind session gap.text).constants = session.constants := rfl
    rw [hconstants] at hstep
    cases hadd : Meaning.add ⟨last, session.constants⟩ first with
    | ok next =>
        simp only [hadd] at hstep
        have hcursor : ((behind session gap.text).cursor.advance first.written.length).rest =
            written ⟨items, ending⟩ := Cursor.rest_advance_append hbehind
        rw [meaningFrom_cons_of_ok hadd, reachedFrom_cons_of_ok hadd, bind_of_ok hstep,
          ← advance_behind]
        rcases hfurther ⟨_, next.constants⟩ next.last hcursor with hlast | ⟨hdeep, hlast⟩
        · exact .inl hlast
        · exact .inr ⟨fun hshallow => hdeep (isShallow_of_cons hshallow), hlast⟩
    | error cause =>
        simp only [hadd] at hstep
        rcases hstep with ⟨cursor, hstep⟩
        rw [meaningFrom_cons_of_error hadd, reachedFrom_cons_of_error hadd]
        exact .inl ⟨cursor, bind_of_error hstep _⟩
  · refine .inr ⟨fun hshallow => ?_, left, bind_of_error hstep _⟩
    have hlevels := first.term.levels_le
    have hdepth : first.term.depth ≤ nestingLimit := hshallow (gap, first) (by simp)
    omega

theorem items_written (session : Session) (last : Value) {items : List (Gap × Item)} {ending : Gap}
    (hvalid : IsValid settings ⟨items, ending⟩) (hapart : AreApart ending items) {bound : Nat}
    (hbound : items.length < bound) (hrest : session.cursor.rest = written ⟨items, ending⟩) :
    AgreesFrom last session ⟨items, ending⟩ (SessionReading.items settings bound last session) := by
  -- On the items: every pass of the loop adds one of them to the meaning.
  induction items generalizing bound last session with
  | nil =>
      obtain ⟨bound, rfl⟩ : ∃ less, bound = less + 1 := ⟨bound - 1, by omega⟩
      left
      have hgap : ending.MayPrecede [] := ⟨hvalid.2, .inr rfl⟩
      exact items_behind_gap bound hgap Insignificant.isAbsent_nil (by simpa [written] using hrest)
  | cons first items ih =>
      obtain ⟨bound, rfl⟩ : ∃ less, bound = less + 1 := ⟨bound - 1, by omega⟩
      rcases first with ⟨gap, first⟩
      obtain ⟨hgap, hfirst, hvalid⟩ := isValid_cons_iff.mp hvalid
      rcases hapart with ⟨hstops, hapart⟩
      rw [written_cons] at hrest
      have hbehind : (behind session gap.text).cursor.rest =
          first.written ++ written ⟨items, ending⟩ :=
        Cursor.rest_advance_append hrest
      rw [items_in_front bound hgap hfirst hrest]
      have hanswer : AnswersItem settings first last (behind session gap.text) :=
        answersItem hfirst hstops (bindsNothing_written hvalid) hbehind
      apply agreesFrom_cons hanswer hbehind
      intro next value hnext
      exact ih next value hvalid hapart (by simp at hbound; omega) hnext

/-! Backwards. -/

theorem exists_of_declaration {declared : Bool} {after : Session}
    (h : declaration settings session = .ok declared after) :
    (declared = true ∧ ∃ name value,
      declaration? settings session.constants session.cursor =
        .ok (some (name, value)) after.cursor ∧
      after.constants = session.constants.bind name value) ∨
    (declared = false ∧ after = session) := by
  obtain ⟨found, between, hread, h⟩ := exists_of_bind_eq_ok h
  obtain ⟨hread, hconstants⟩ := exists_of_ofReading_eq_ok hread
  cases found with
  | none =>
      obtain ⟨rfl, rfl⟩ : false = declared ∧ between = after := by
        simpa [pure, EStateM.pure] using h
      right
      have hcursor : between.cursor = session.cursor := eq_of_declaration?_none hread
      rcases between with ⟨cursor, constants⟩
      obtain rfl := hcursor
      obtain rfl := hconstants
      exact ⟨rfl, rfl⟩
  | some binding =>
      rcases binding with ⟨name, value⟩
      have h : EStateM.Result.ok true ⟨between.cursor, between.constants.bind name value⟩ =
        .ok declared after := h
      obtain ⟨rfl, rfl⟩ : true = declared ∧
        ⟨between.cursor, between.constants.bind name value⟩ = after := by simpa using h
      left
      exact ⟨rfl, name, value, hread, by rw [hconstants]⟩

theorem exists_item {value : Value} {after : Session}
    (h : item settings last session = .ok value after) :
    ∃ (gap : Gap) (written : Item), gap.IsInner ∧ written.IsValid settings ∧
      written.term.StopsBefore after.cursor.rest ∧
      session.cursor.Moves (gap.text ++ written.written) after.cursor ∧
      Meaning.add ⟨last, session.constants⟩ written = .ok ⟨value, after.constants⟩ ∧
      written.term.levels ≤ nestingLimit + 1 := by
  obtain ⟨declared, between, hdeclared, hnext⟩ := exists_of_bind_eq_ok h
  rcases exists_of_declaration hdeclared with ⟨rfl, name, bound, hread, hconstants⟩ | ⟨rfl, rfl⟩
  · obtain ⟨rfl, rfl⟩ : last = value ∧ between = after := by
      simpa [pure, EStateM.pure] using hnext
    obtain ⟨beforeMarker, beforeValue, term, hitem, hstops, hmoves, hmeaning, hlevels⟩ :=
      exists_item_of_declaration? hread
    refine ⟨[], _, Gap.isInner_nil, hitem, hstops, hmoves, ?_, hlevels⟩
    simp only [Meaning.add, hmeaning, hconstants]
    rfl
  · obtain ⟨hread, hconstants⟩ := exists_of_ofReading_eq_ok hnext
    obtain ⟨_, hmoves, gap, term, hgap, hterm, hstops, rfl, hmeaning, hlevels⟩ :=
      ensures_value settings between.constants between.cursor after.cursor value hread
    refine ⟨gap, .value term, hgap, hterm, hstops, hmoves, ?_, hlevels⟩
    simp only [Meaning.add, hmeaning, hconstants]
    rfl

theorem length_rest_lt_of_item {value : Value} {after : Session}
    (h : item settings last session = .ok value after) :
    after.cursor.rest.length < session.cursor.rest.length := by
  obtain ⟨gap, written, -, hwritten, -, hmoves, -⟩ := exists_item h
  obtain ⟨c, tail, htext, -⟩ := Item.exists_cons_of_isValid hwritten
  rw [hmoves.1, htext]
  simp only [List.length_append, List.length_cons]
  omega

/-- Whatever is read as a document is written as one, and no item takes more readers than there
are. -/
theorem exists_document_within {bound : Nat} {value : Value} {after : Session}
    (h : items settings bound last session = .ok value after)
    (hbound : session.cursor.rest.length < bound) :
    ∃ (found : List (Gap × Item)) (ending : Gap), IsValid settings ⟨found, ending⟩ ∧
      AreApart ending found ∧ session.cursor.Moves (written ⟨found, ending⟩) after.cursor ∧
      after.cursor.rest = [] ∧
      meaningFrom ⟨last, session.constants⟩ found = .ok ⟨value, after.constants⟩ ∧
      ∀ item ∈ found, item.2.term.levels ≤ nestingLimit + 1 := by
  -- On the bound, which the text still to be read never reaches.
  induction bound generalizing last session with
  | zero => omega
  | succ bound ih =>
      rw [items_succ] at h
      obtain ⟨_, skipped, hskip, hnext⟩ := exists_of_bind_eq_ok h
      obtain ⟨hskip, hskipped⟩ := exists_of_ofReading_eq_ok hskip
      obtain ⟨_, hmoves, gap, rfl, hgap, -⟩ := ensures_skip _ _ _ hskip
      obtain ⟨ended, here, hended, hlast⟩ := exists_of_bind_eq_ok hnext
      obtain ⟨hended, hhere⟩ := exists_of_ofReading_eq_ok hended
      obtain ⟨hrest, hcursor⟩ := eq_of_atEnd hended
      rw [hcursor] at hmoves hrest hgap
      rw [hskipped] at hhere
      cases ended with
      | true =>
          obtain ⟨rfl, rfl⟩ : last = value ∧ here = after := by
            simpa [pure, EStateM.pure] using hlast
          refine ⟨[], gap, ⟨by simp, hgap.1⟩, trivial, hmoves, by simpa using hrest, ?_, by simp⟩
          rw [hhere]
          rfl
      | false =>
          have hgap : gap.IsInner := hgap.isInner (by simpa using hrest)
          have hlast : (item settings last >>= items settings bound) here = .ok value after := hlast
          obtain ⟨next, between, hitem, hfurther⟩ := exists_of_bind_eq_ok hlast
          obtain ⟨inner, first, hinner, hfirst, hstops, hmore, hadd, hlevels⟩ := exists_item hitem
          have hless := length_rest_lt_of_item hitem
          have hlength := congrArg List.length hmoves.1
          rw [List.length_append] at hlength
          obtain ⟨found, ending, hvalid, hapart, hfound, hend, hmeaning, hfurther⟩ :=
            ih hfurther (by omega)
          refine ⟨(gap ++ inner, first) :: found, ending,
            isValid_cons_iff.mpr ⟨hgap.append hinner, hfirst, hvalid⟩, ⟨?_, hapart⟩, ?_, hend, ?_,
            List.forall_mem_cons.mpr ⟨hlevels, hfurther⟩⟩
          · rwa [hfound.1, hend, List.append_nil] at hstops
          · have hall := (hmoves.trans hmore).trans hfound
            simpa [written_cons, Gap.text_append] using hall
          · rw [hhere] at hadd
            rw [meaningFrom_cons_of_ok hadd]
            exact hmeaning

theorem exists_document {bound : Nat} {value : Value} {after : Session}
    (h : items settings bound last session = .ok value after)
    (hbound : session.cursor.rest.length < bound) :
    ∃ (found : List (Gap × Item)) (ending : Gap), IsValid settings ⟨found, ending⟩ ∧
      AreApart ending found ∧ session.cursor.Moves (written ⟨found, ending⟩) after.cursor ∧
      after.cursor.rest = [] ∧
      meaningFrom ⟨last, session.constants⟩ found = .ok ⟨value, after.constants⟩ := by
  obtain ⟨found, ending, hvalid, hapart, hmoves, hend, hmeaning, -⟩ :=
    exists_document_within h hbound
  exact ⟨found, ending, hvalid, hapart, hmoves, hend, hmeaning⟩

end SessionReading

namespace Document

variable {settings : Settings}

theorem length_le_written {items : List (Gap × Item)} {ending : Gap}
    (h : IsValid settings ⟨items, ending⟩) : items.length ≤ (written ⟨items, ending⟩).length := by
  induction items with
  | nil => simp
  | cons item items ih =>
      obtain ⟨-, hitem, hvalid⟩ := isValid_cons_iff.mp h
      obtain ⟨c, tail, hwritten, -⟩ := Item.exists_cons_of_isValid hitem
      have hlength := ih hvalid
      rw [written_cons, hwritten]
      simp only [List.length_append, List.length_cons]
      omega

theorem readDocument_eq_items (settings : Settings) (constants : Constants) (text : Text) :
    readDocument settings constants text =
      SessionReading.items settings (text.length + 1) .null (.start text constants) := rfl

theorem agreesFrom_readDocument (constants : Constants) {document : Document}
    (hvalid : document.IsValid settings) (hapart : document.IsApart) :
    SessionReading.AgreesFrom .null (.start document.written constants) document
      (readDocument settings constants document.written) := by
  rcases document with ⟨items, ending⟩
  have hbound : items.length < (written ⟨items, ending⟩).length + 1 :=
    Nat.lt_succ_of_le (length_le_written hvalid)
  exact SessionReading.items_written _ .null hvalid hapart hbound rfl

theorem readDocument_value {constants : Constants} {gap ending : Gap} {term : Term} {value : Value}
    (hgap : gap.IsInner) (hterm : term.IsValid settings) (hending : ending.IsValid)
    (hdepth : term.depth ≤ nestingLimit) (hvalue : term.value constants = .ok value) :
    readDocument settings constants (gap.text ++ (term.written ++ ending.text)) =
      .ok value ⟨(Cursor.start (gap.text ++ (term.written ++ ending.text))).advance
        (gap.text ++ (term.written ++ ending.text)).length, constants⟩ := by
  have hitem : (Item.value term).IsValid settings := hterm
  have hvalid : IsValid settings ⟨[(gap, .value term)], ending⟩ :=
    isValid_cons_iff.mpr ⟨hgap, hitem, by simp, hending⟩
  have hwritten : written ⟨[(gap, .value term)], ending⟩ =
      gap.text ++ (term.written ++ ending.text) := by
    simp [written, Item.written]
  have hmeaning : meaningFrom ⟨.null, constants⟩ [(gap, .value term)] =
      .ok ⟨value, constants⟩ := by
    have hadd : Meaning.add ⟨.null, constants⟩ (.value term) = .ok ⟨value, constants⟩ := by
      rw [Meaning.add, hvalue]
      rfl
    rw [meaningFrom_cons_of_ok hadd]
    rfl
  have hread := agreesFrom_readDocument constants hvalid
    (areApart_of_separated hvalid (by simp))
  rw [SessionReading.AgreesFrom, hwritten] at hread
  simp only [Session.start] at hread
  rw [hmeaning] at hread
  rcases hread with hread | ⟨hdeep, -⟩
  · exact hread
  · exact absurd (by simpa [IsShallow, Item.term] using hdepth) hdeep

/-- Any layout of a document is read as what the document means: with the meaning of its items from
left to right as the result, or refused for the cause that is met first, with the constants
declared before. -/
theorem readDocument_written (constants : Constants) {document : Document}
    (hvalid : document.IsValid settings) (hseparated : document.IsSeparated) :
    (match document.meaning constants with
      | .ok meaning =>
          readDocument settings constants document.written = .ok meaning.last
            ⟨(Cursor.start document.written).advance document.written.length, meaning.constants⟩
      | .error cause =>
          ∃ cursor : Cursor, readDocument settings constants document.written =
            .error (.located cause cursor.position)
              ⟨cursor, (reachedFrom ⟨.null, constants⟩ document.items).constants⟩) ∨
    (¬document.IsShallow ∧
      ∃ left, readDocument settings constants document.written = .error .nestingTooDeep left) :=
  agreesFrom_readDocument constants hvalid (hseparated.isApart hvalid)

theorem readDocument_written_list_of_text :
    let document : Document :=
      ⟨[([], .declaration ['x'] [.blank ' '] [.blank ' ']
            (.list ⟨[], .text ['a'], []⟩ [] (some []))),
          ([.blockComment [], .blank ' '], .value (.reference ['x']))],
        [.lineComment ['!']]⟩
    document.IsValid {} ∧ document.IsSeparated ∧
      ∃ after, readDocument {} [] document.written = .ok (.list [.text ['a']]) after := by
  intro document
  have hspace : Text.isBlank ' ' = true := by decide
  have hblank : Gap.IsInner [.blank ' '] := ⟨⟨hspace, trivial⟩, by simp [Gap.IsClosed]⟩
  have hcomment : Gap.IsInner [.blockComment [], .blank ' '] :=
    ⟨⟨by simp [Piece.IsValid], hspace, trivial⟩, by simp [Gap.IsClosed]⟩
  have hname : Text.IsName ['x'] := ⟨by simp, by simp [Text.isNameLetter]⟩
  have hlist : Term.IsValid {} (.list ⟨[], .text ['a'], []⟩ [] (some [])) := by
    refine ⟨Gap.isInner_nil, by simp [Term.IsValid], Gap.isInner_nil, trivial, ?_⟩
    rintro _ ⟨⟩
    exact Gap.isInner_nil
  have hvalid : document.IsValid {} :=
    isValid_cons_iff.mpr ⟨Gap.isInner_nil, ⟨hname, hblank, hblank, hlist⟩,
      isValid_cons_iff.mpr ⟨hcomment, hname, by simp, by simp [Piece.IsValid], .inl rfl, trivial⟩⟩
  have hseparated : document.IsSeparated := by simp [IsSeparated, document]
  refine ⟨hvalid, hseparated, ?_⟩
  rcases readDocument_written [] hvalid hseparated with hread | ⟨hdeep, -⟩
  · exact ⟨_, hread⟩
  · refine absurd ?_ hdeep
    simp [IsShallow, document, Item.term, Term.depth, Term.depthOfItems, nestingLimit]

/-- Whatever is read is all of a valid document, and it is read as what the document means. -/
theorem exists_document_of_readDocument {constants : Constants} {text : Text} {value : Value}
    {after : Session} (h : readDocument settings constants text = .ok value after) :
    after.cursor = (Cursor.start text).advance text.length ∧ after.cursor.rest = [] ∧
      ∃ document : Document, document.IsValid settings ∧ document.IsApart ∧
        document.written = text ∧ document.meaning constants = .ok ⟨value, after.constants⟩ := by
  obtain ⟨items, ending, hvalid, hapart, hmoves, hend, hmeaning⟩ :=
    SessionReading.exists_document h (Nat.lt_succ_self _)
  have htext : written ⟨items, ending⟩ = text := by
    have hrest : text = written ⟨items, ending⟩ ++ after.cursor.rest := hmoves.1
    rw [hrest, hend, List.append_nil]
  refine ⟨?_, hend, ⟨items, ending⟩, hvalid, hapart, htext, hmeaning⟩
  rw [← htext]
  exact htext ▸ hmoves.2

theorem exists_document_of_readDocument_text :
    ∃ document : Document, document.IsValid {} ∧ document.written = "x := @\"a\" x".toList ∧
      ∃ meaning, document.meaning [] = .ok meaning := by
  have hread : readDocument {} [] "x := @\"a\" x".toList =
      .ok (.text ['a']) ⟨⟨[], 11, ⟨1, 12⟩⟩, [(['x'], .text ['a'])]⟩ := rfl
  obtain ⟨-, -, document, hvalid, -, hwritten, hmeaning⟩ := exists_document_of_readDocument hread
  exact ⟨document, hvalid, hwritten, _, hmeaning⟩

end Document

end ConfTree
