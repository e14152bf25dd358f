import ConfTree.Proofs.LastValue

namespace ConfTree

namespace Document

variable {settings : Settings} {before reached : Meaning} {rest : Text}

/-- The values of items stop where the text behind each of them begins. -/
def StopBefore (rest : Text) : List (Gap × Item) → Prop
  | [] => True
  | (_, item) :: items =>
      item.term.StopsBefore (written ⟨items, []⟩ ++ rest) ∧ StopBefore rest items

/-- Items in front of a text that lead from one meaning to another. -/
structure Leads (settings : Settings) (before : Meaning) (items : List (Gap × Item)) (rest : Text)
    (reached : Meaning) : Prop where
  valid : IsValid settings ⟨items, []⟩
  stop : StopBefore rest items
  meaning : meaningFrom before items = .ok reached

theorem leads_nil (settings : Settings) (meaning : Meaning) (rest : Text) :
    Leads settings meaning [] rest meaning :=
  ⟨⟨by simp, trivial⟩, trivial, rfl⟩

theorem Leads.cons {gap : Gap} {item : Item} {items : List (Gap × Item)} {between : Meaning}
    (hgap : gap.IsInner) (hitem : item.IsValid settings)
    (hstops : item.term.StopsBefore (written ⟨items, []⟩ ++ rest))
    (hadd : before.add item = .ok between) (h : Leads settings between items rest reached) :
    Leads settings before ((gap, item) :: items) rest reached where
  valid := isValid_cons_iff.mpr ⟨hgap, hitem, h.valid⟩
  stop := ⟨hstops, h.stop⟩
  meaning := by rw [meaningFrom_cons_of_ok hadd, h.meaning]

theorem Leads.areProper {items : List (Gap × Item)} (h : Leads settings before items rest reached)
    (hbefore : before.constants.AreProper) : reached.constants.AreProper :=
  areProper_meaningFrom hbefore h.valid h.meaning

/-- The bindings that items make from given constants on, the first one first. -/
def bindings (constants : Constants) : List (Gap × Item) → List (Text × Value)
  | [] => []
  | (_, .value _) :: items => bindings constants items
  | (_, .declaration name _ _ term) :: items =>
      match term.value constants with
      | .ok value => (name, value) :: bindings (constants.bind name value) items
      | .error _ => []

theorem constants_eq_bindings {items : List (Gap × Item)}
    (h : meaningFrom before items = .ok reached) :
    reached.constants = (bindings before.constants items).reverse ++ before.constants := by
  induction items generalizing before with
  | nil =>
      obtain rfl : before = reached := Except.ok.inj h
      rfl
  | cons item items ih =>
      rcases item with ⟨gap, item⟩
      cases hadd : before.add item with
      | error cause =>
          rw [meaningFrom_cons_of_error hadd] at h
          simp at h
      | ok next =>
          rw [meaningFrom_cons_of_ok hadd] at h
          rw [ih h]
          cases item with
          | value term =>
              obtain ⟨value, -, hnext⟩ := Term.exists_value_of_bind_eq_ok hadd
              obtain rfl := Except.ok.inj hnext
              rfl
          | declaration name beforeMarker beforeValue term =>
              obtain ⟨value, hvalue, hnext⟩ := Term.exists_value_of_bind_eq_ok hadd
              obtain rfl := Except.ok.inj hnext
              simp [bindings, hvalue, Constants.bind]

end Document

namespace SessionReading

open Reading Document

variable {α : Type} {settings : Settings} {session after left : Session} {last : Value}
  {error : ReadError}

theorem exists_of_ofReading_eq_error {reading : Constants → Reading α}
    (h : ofReading reading session = .error error left) :
    reading session.constants session.cursor = .error error left.cursor ∧
      left.constants = session.constants := by
  unfold ofReading at h
  cases hreading : reading session.constants session.cursor with
  | ok value cursor =>
      rw [hreading] at h
      simp at h
  | error stop cursor =>
      rw [hreading] at h
      obtain ⟨rfl, rfl⟩ : stop = error ∧ { session with cursor := cursor } = left := by
        simpa using h
      exact ⟨rfl, rfl⟩

theorem exists_of_declaration_eq_error (h : declaration settings session = .error error left) :
    declaration? settings session.constants session.cursor = .error error left.cursor ∧
      left.constants = session.constants := by
  rcases exists_of_bind_eq_error h with hread | ⟨found, between, -, hbind⟩
  · exact exists_of_ofReading_eq_error hread
  · cases found with
    | none => cases hbind
    | some binding => cases hbind

theorem constants_eq_of_item_eq_error (h : item settings last session = .error error left) :
    left.constants = session.constants := by
  rcases exists_of_bind_eq_error h with hstop | ⟨declared, between, hdeclared, hstop⟩
  · exact (exists_of_declaration_eq_error hstop).2
  · rcases exists_of_declaration hdeclared with ⟨rfl, -⟩ | ⟨rfl, rfl⟩
    · cases hstop
    · exact (exists_of_ofReading_eq_error hstop).2

/-- Where a run stops that has reached a meaning: at the end of the text, or at a further item that
is refused. -/
def StopsAt (settings : Settings) (reached : Meaning) (here : Session) :
    EStateM.Result ReadError Session Value → Prop
  | .ok value after => value = reached.last ∧ after.constants = reached.constants ∧
      after.cursor.rest = [] ∧ ∃ ending : Gap, ending.IsValid ∧ here.cursor.rest = ending.text
  | .error error left => left.constants = reached.constants ∧
      (do
        ofReading fun _ => skip
        item settings reached.last) here = .error error left

/-- A run comes to a result by getting through items at the start of the text and stopping behind
them. -/
def GetsThrough (settings : Settings) (last : Value) (session : Session)
    (found : List (Gap × Item)) (result : EStateM.Result ReadError Session Value) : Prop :=
  ∃ (rest : Text) (reached : Meaning),
    session.cursor.rest = written ⟨found, []⟩ ++ rest ∧
    Leads settings ⟨last, session.constants⟩ found rest reached ∧
    StopsAt settings reached
      ⟨session.cursor.advance (written ⟨found, []⟩).length, reached.constants⟩ result

theorem StopsAt.getsThrough {result : EStateM.Result ReadError Session Value}
    (h : StopsAt settings ⟨last, session.constants⟩ session result) :
    GetsThrough settings last session [] result := by
  refine ⟨session.cursor.rest, ⟨last, session.constants⟩, rfl, ?_, ?_⟩
  · exact leads_nil settings _ _
  · have hnil : (written ⟨[], []⟩).length = 0 := rfl
    rw [hnil, Cursor.advance_zero]
    exact h

theorem GetsThrough.cons {gap : Gap} {first : Item} {found : List (Gap × Item)} {value : Value}
    {result : EStateM.Result ReadError Session Value} (hgap : gap.IsInner)
    (hfirst : first.IsValid settings) (hstops : first.term.StopsBefore after.cursor.rest)
    (hmoves : session.cursor.Moves (gap.text ++ first.written) after.cursor)
    (hadd : Meaning.add ⟨last, session.constants⟩ first = .ok ⟨value, after.constants⟩)
    (h : GetsThrough settings value after found result) :
    GetsThrough settings last session ((gap, first) :: found) result := by
  obtain ⟨rest, reached, htext, hleads, hstop⟩ := h
  refine ⟨rest, reached, ?_, .cons hgap hfirst ?_ hadd hleads, ?_⟩
  · rw [hmoves.1, htext, written_cons]
    simp
  · rwa [← htext]
  · rw [hmoves.2, Cursor.advance_append] at hstop
    rw [written_cons, ← List.append_assoc]
    exact hstop

/-- Every run gets through some items and stops behind them. -/
theorem exists_getsThrough_items {bound : Nat} (hbound : session.cursor.rest.length < bound) :
    ∃ found, GetsThrough settings last session found (items settings bound last session) := by
  -- On the bound: a pass stops the run, or it takes an item and less of the text is left.
  induction bound generalizing last session with
  | zero => omega
  | succ bound ih =>
      rw [items_succ]
      cases hskip : ofReading (fun _ => skip) session with
      | error error left =>
          rw [bind_of_error hskip]
          refine ⟨[], StopsAt.getsThrough ?_⟩
          exact ⟨(exists_of_ofReading_eq_error hskip).2, bind_of_error hskip _⟩
      | ok _ here =>
          rw [bind_of_ok hskip]
          obtain ⟨hskipped, hconstants⟩ := exists_of_ofReading_eq_ok hskip
          obtain ⟨_, hmoves, gap, rfl, hgap, -⟩ := ensures_skip _ _ _ hskipped
          have hend : ofReading (fun _ => atEnd) here = .ok here.cursor.rest.isEmpty here := rfl
          rw [bind_of_ok hend]
          cases hrest : here.cursor.rest.isEmpty with
          | true =>
              have hnil : here.cursor.rest = [] := List.isEmpty_iff.mp hrest
              refine ⟨[], StopsAt.getsThrough ⟨rfl, hconstants, hnil, gap, hgap.1, ?_⟩⟩
              rw [hmoves.1, hnil, List.append_nil]
          | false =>
              have hinner : gap.IsInner := hgap.isInner (by simpa using hrest)
              change ∃ found, GetsThrough settings last session found
                ((item settings last >>= items settings bound) here)
              cases hitem : item settings last here with
              | error error left =>
                  rw [bind_of_error hitem]
                  refine ⟨[], StopsAt.getsThrough ?_⟩
                  refine ⟨(constants_eq_of_item_eq_error hitem).trans hconstants, ?_⟩
                  rw [bind_of_ok hskip, hitem]
              | ok value after =>
                  rw [bind_of_ok hitem]
                  obtain ⟨before, first, hbefore, hfirst, hstops, hmore, hadd, -⟩ :=
                    exists_item hitem
                  have hless := length_rest_lt_of_item hitem
                  have hlength := congrArg List.length hmoves.1
                  rw [List.length_append] at hlength
                  have hall := hmoves.trans hmore
                  rw [← List.append_assoc, ← Gap.text_append] at hall
                  obtain ⟨found, hfound⟩ : ∃ found, GetsThrough settings value after found
                      (items settings bound value after) := ih (by omega)
                  exact ⟨_, .cons (hinner.append hbefore) hfirst hstops hall (hconstants ▸ hadd)
                    hfound⟩

theorem exists_getsThrough_document (settings : Settings) (session : Session) :
    ∃ found, GetsThrough settings .null session found (document settings session) :=
  exists_getsThrough_items (Nat.lt_succ_self _)

theorem GetsThrough.constants_eq {found : List (Gap × Item)} {value : Value}
    (h : GetsThrough settings last session found (.ok value after)) :
    after.constants = (bindings session.constants found).reverse ++ session.constants := by
  obtain ⟨rest, reached, -, hleads, -, hconstants, -⟩ := h
  rw [hconstants]
  exact constants_eq_bindings hleads.meaning

theorem GetsThrough.constants_eq_of_error {found : List (Gap × Item)}
    (h : GetsThrough settings last session found (.error error left)) :
    left.constants = (bindings session.constants found).reverse ++ session.constants := by
  obtain ⟨rest, reached, -, hleads, hconstants, -⟩ := h
  rw [hconstants]
  exact constants_eq_bindings hleads.meaning

end SessionReading

end ConfTree
