import ConfTree.Proofs.CollectionReading
import ConfTree.Proofs.CollectionSpelling
import ConfTree.Proofs.ExpressionReading
import ConfTree.Proofs.LeafReading

namespace ConfTree.Reading

open Term

variable {isDeep : Prop} {settings : Settings} {constants : Constants} {member : Reading Value}
  {rest : Text}

def formOf (settings : Settings) (constants : Constants) (member : Reading Value) (c : Char) :
    Reading Value :=
  if c = '@' then quotedText
  else if c = '[' then list member
  else if c = '\x7b' then mapping member
  else if c = '|' then expression constants
  else if c = '+' ∨ c = '-' ∨ Text.isDigit c then number settings.fractionRequired
  else if Text.isNameLetter c then reference constants
  else fail (.unexpectedCharacter c)

theorem valueWith_eq :
    valueWith settings constants member = (do
      skip
      match ← next? with
      | none => fail .missingValue
      | some c => formOf settings constants member c) := rfl

theorem ne_of_number_start {c d : Char} (h : c = '+' ∨ c = '-' ∨ Text.isDigit c = true)
    (hplus : d ≠ '+') (hminus : d ≠ '-') (hdigit : Text.isDigit d = false) : c ≠ d := by
  rintro rfl
  rcases h with rfl | rfl | h
  · exact hplus rfl
  · exact hminus rfl
  · simp [hdigit] at h

theorem formOf_number {c : Char} (h : c = '+' ∨ c = '-' ∨ Text.isDigit c = true) :
    formOf settings constants member c = number settings.fractionRequired := by
  rw [formOf, if_neg (ne_of_number_start h (by decide) (by decide) (by decide)),
    if_neg (ne_of_number_start h (by decide) (by decide) (by decide)),
    if_neg (ne_of_number_start h (by decide) (by decide) (by decide)),
    if_neg (ne_of_number_start h (by decide) (by decide) (by decide)), if_pos h]

theorem formOf_reference {c : Char} (h : Text.isNameLetter c = true) :
    formOf settings constants member c = reference constants := by
  have hne : ∀ d : Char, Text.isNameLetter d = false → c ≠ d := fun d hd => Text.ne_of_class h hd
  have hdigit : Text.isDigit c = false := Text.isDigit_eq_false_of_isNameLetter h
  have hnumber : ¬(c = '+' ∨ c = '-' ∨ Text.isDigit c = true) := by
    simp [hne '+' (by decide), hne '-' (by decide), hdigit]
  rw [formOf, if_neg (hne '@' (by decide)), if_neg (hne '[' (by decide)),
    if_neg (hne '\x7b' (by decide)), if_neg (hne '|' (by decide)), if_neg hnumber, if_pos h]

/-! Forwards. -/

theorem answers_valueWith {gap : Gap} {text tail : Text} {c : Char} {expected : Except Cause Value}
    (hgap : gap.IsInner) (htext : text = c :: tail) (hc : Text.isValueStart c = true)
    (h : Answers isDeep (formOf settings constants member c) text rest expected) :
    Answers isDeep (valueWith settings constants member) (gap.text ++ text) rest expected := by
  rw [valueWith_eq]
  refine (takes_skip (hgap.mayPrecede _) ?_).bind_answers ((takes_next? _).bind_nil_answers ?_)
  · rw [htext]
    exact Text.isAbsent_of_isValueStart hc _
  · simpa only [htext, List.cons_append, List.head?_cons] using h

theorem answers_reference {name : Text} (hname : Text.IsName name)
    (hrest : Text.EndsRun Text.isNameLetter rest) :
    Answers isDeep (reference constants) name rest ((Term.reference name).value constants) := by
  have hreading : Answers isDeep (reference constants) (name ++ []) rest
      ((Term.reference name).value constants) := by
    refine (takes_name hname hrest).bind_answers ?_
    rw [Term.value]
    cases constants.valueOf? name with
    | some value => exact (takes_pure value rest).answers
    | none => exact answers_fail _
  rwa [List.append_nil] at hreading

theorem AnswersFor.mono {isDeeper : Prop} {term : Term} (hdeep : isDeep → isDeeper)
    (h : AnswersFor isDeep settings constants member term) :
    AnswersFor isDeeper settings constants member term :=
  fun hterm gap rest hgap hstops => (h hterm gap rest hgap hstops).mono hdeep

theorem answersFor_valueWithin {term : Term}
    (h : ∀ limit, AnswersFor (limit + 1 < term.levels) settings constants
      (valueWith settings constants (valueWithin settings constants limit)) term) (limit : Nat) :
    AnswersFor (limit < term.levels) settings constants (valueWithin settings constants limit)
      term := by
  cases limit with
  | zero =>
      intro _ _ _ _ _
      exact answers_nestingTooDeep term.levels_pos
  | succ limit => exact h limit

/-- Where members are read with one reader less, a term is read that takes no more readers. -/
theorem answersFor_valueWith (settings : Settings) (constants : Constants) (term : Term) :
    ∀ limit, AnswersFor (limit + 1 < term.levels) settings constants
      (valueWith settings constants (valueWithin settings constants limit)) term := by
  induction term using Term.induction with
  | text content =>
      intro limit hterm gap rest hgap hstops
      exact answers_valueWith hgap rfl (by decide) (takes_quotedText hterm).answers
  | number literal =>
      intro limit hterm gap rest hgap hstops
      obtain ⟨c, tail, htext, hc⟩ := exists_cons_of_number hterm.1
      apply answers_valueWith hgap htext (Text.isValueStart_of_number hc)
      rw [formOf_number hc]
      exact (takes_number hterm.1 hterm.2 hstops).answers
  | reference name =>
      intro limit hterm gap rest hgap hstops
      obtain ⟨c, tail, rfl, hc⟩ := Text.exists_cons_of_run hterm
      apply answers_valueWith hgap rfl (by simp [Text.isValueStart, hc])
      rw [formOf_reference hc]
      exact answers_reference hterm hstops
  | expression body =>
      intro limit hterm gap rest hgap hstops
      apply answers_valueWith hgap rfl (by decide)
      exact (answers_expression constants Gap.isInner_nil hterm).mono False.elim
  | emptyList inner =>
      intro limit hterm gap rest hgap hstops
      exact answers_valueWith hgap rfl (by decide)
        (takes_emptyList Gap.isInner_nil hterm).answers
  | list first further trailing hfirst hfurther =>
      intro limit hterm gap rest hgap hstops
      refine answers_valueWith hgap rfl (by decide) (answers_list Gap.isInner_nil ?_ hterm)
      intro item hitem
      have hmember : ∀ limit, AnswersFor (limit + 1 < item.content.levels) settings constants
          (valueWith settings constants (valueWithin settings constants limit)) item.content :=
        List.forall_mem_cons.mpr ⟨hfirst, hfurther⟩ item hitem
      refine (answersFor_valueWithin hmember limit).mono fun hdeep => ?_
      have hlevels : item.content.levels ≤ levelsOfItems (first :: further) :=
        levelsOfItems_le_iff.mp (Nat.le_refl _) item hitem
      exact Nat.succ_lt_succ (Nat.lt_of_lt_of_le hdeep hlevels)
  | emptyMapping inner =>
      intro limit hterm gap rest hgap hstops
      exact answers_valueWith hgap rfl (by decide)
        (takes_emptyMapping Gap.isInner_nil hterm).answers
  | mapping first further trailing hfirst hfurther =>
      intro limit hterm gap rest hgap hstops
      refine answers_valueWith hgap rfl (by decide) (answers_mapping Gap.isInner_nil ?_ hterm)
      intro item hitem
      have hmember : ∀ limit, AnswersFor (limit + 1 < item.value.content.levels) settings constants
          (valueWith settings constants (valueWithin settings constants limit))
          item.value.content :=
        List.forall_mem_cons.mpr ⟨hfirst, hfurther⟩ item hitem
      refine (answersFor_valueWithin hmember limit).mono fun hdeep => ?_
      have hlevels : item.value.content.levels ≤ levelsOfEntries (first :: further) :=
        levelsOfEntries_le_iff.mp (Nat.le_refl _) item hitem
      exact Nat.succ_lt_succ (Nat.lt_of_lt_of_le hdeep hlevels)

theorem answersFor_value (settings : Settings) (constants : Constants) (term : Term) :
    AnswersFor (nestingLimit + 1 < term.levels) settings constants (value settings constants)
      term :=
  answersFor_valueWith settings constants term nestingLimit

/-! Backwards. -/

theorem Spells.behind {gap : Gap} {limit : Nat} {text : Text} {result : Value}
    (hgap : gap.MayPrecede (text ++ rest)) (h : Spells settings constants limit text rest result) :
    Spells settings constants limit (gap.text ++ text) rest result := by
  rcases h with ⟨inner, term, hinner, hterm, hstops, rfl, hmeaning, hlevels⟩
  obtain ⟨c, tail, hwritten, -⟩ := exists_cons_of_isValid hterm
  have hgap : gap.IsInner := hgap.isInner (by simp [hwritten])
  exact ⟨gap ++ inner, term, hgap.append hinner, hterm, hstops, by simp [Gap.text_append], hmeaning,
    hlevels⟩

theorem spells_of_reference (limit : Nat) {c : Char} {cursor after : Cursor} {result : Value}
    (hc : cursor.rest.head? = some c) (hletter : Text.isNameLetter c = true)
    (h : reference constants cursor = .ok result after) :
    ∃ text, cursor.Moves text after ∧
      Spells settings constants (limit + 1) text after.rest result := by
  obtain ⟨text, hmoves, hvalue, hletters, hends⟩ := ensures_reference constants cursor after _ h
  have hne : text ≠ [] := by
    rintro rfl
    have hrest : cursor.rest = after.rest := hmoves.1
    rw [hrest] at hc
    simp [hends c hc] at hletter
  exact ⟨text, hmoves, [], .reference text, Gap.isInner_nil, ⟨hne, hletters⟩, hends, rfl,
    by simp [Term.value, hvalue], Nat.succ_le_succ (Nat.zero_le limit)⟩

theorem spells_of_formOf {limit : Nat}
    (hmember : Ensures member (Spells settings constants limit)) {c : Char}
    {cursor after : Cursor} {result : Value} (hc : cursor.rest.head? = some c)
    (h : formOf settings constants member c cursor = .ok result after) :
    ∃ text, cursor.Moves text after ∧
      Spells settings constants (limit + 1) text after.rest result := by
  have hleaf : 1 ≤ limit + 1 := Nat.succ_le_succ (Nat.zero_le limit)
  rw [formOf] at h
  by_cases hquoted : c = '@'
  · rw [if_pos hquoted] at h
    obtain ⟨text, hmoves, gap, content, hgap, hcontent, htext, rfl⟩ :=
      ensures_quotedText cursor after result h
    exact ⟨text, hmoves, gap, .text content, hgap, hcontent, trivial, htext, rfl, hleaf⟩
  rw [if_neg hquoted] at h
  by_cases hlist : c = '['
  · rw [if_pos hlist] at h
    exact ensures_list hmember cursor after result h
  rw [if_neg hlist] at h
  by_cases hmapping : c = '\x7b'
  · rw [if_pos hmapping] at h
    exact ensures_mapping hmember cursor after result h
  rw [if_neg hmapping] at h
  by_cases hexpression : c = '|'
  · rw [if_pos hexpression] at h
    obtain ⟨text, hmoves, gap, body, hgap, hbody, htext, hmeaning⟩ :=
      ensures_expression constants cursor after result h
    exact ⟨text, hmoves, gap, .expression body, hgap, hbody, trivial, htext, hmeaning, hleaf⟩
  rw [if_neg hexpression] at h
  by_cases hnumber : c = '+' ∨ c = '-' ∨ Text.isDigit c = true
  · rw [if_pos hnumber] at h
    obtain ⟨text, hmoves, literal, hwell, hrequired, htext, rfl, hstops⟩ :=
      ensures_number settings.fractionRequired cursor after result h
    exact ⟨text, hmoves, [], .number literal, Gap.isInner_nil, ⟨hwell, hrequired⟩, hstops, htext,
      rfl, hleaf⟩
  rw [if_neg hnumber] at h
  by_cases hletter : Text.isNameLetter c = true
  · rw [if_pos hletter] at h
    exact spells_of_reference limit hc hletter h
  · rw [if_neg hletter] at h
    exact absurd h not_fail_eq_ok

theorem ensures_valueWith {limit : Nat}
    (hmember : Ensures member (Spells settings constants limit)) :
    Ensures (valueWith settings constants member) (Spells settings constants (limit + 1)) := by
  intro cursor after result h
  rw [valueWith_eq] at h
  obtain ⟨_, skipped, hskip, h⟩ := exists_of_bind_eq_ok h
  obtain ⟨_, hskipped, gap, rfl, hgap, -⟩ := ensures_skip cursor skipped _ hskip
  obtain ⟨next, _, hnext, h⟩ := exists_of_bind_eq_ok h
  obtain ⟨rfl, rfl⟩ := eq_of_next? hnext
  cases hc : skipped.rest.head? with
  | none =>
      rw [hc] at h
      exact absurd h not_fail_eq_ok
  | some c =>
      rw [hc] at h
      obtain ⟨text, hmoves, hspells⟩ := spells_of_formOf hmember hc h
      exact ⟨_, hskipped.trans hmoves, hspells.behind (hmoves.1 ▸ hgap)⟩

theorem ensures_valueWithin (settings : Settings) (constants : Constants) (limit : Nat) :
    Ensures (valueWithin settings constants limit) (Spells settings constants limit) := by
  induction limit with
  | zero =>
      intro cursor after result h
      simp [valueWithin, nestingTooDeep] at h
  | succ limit ih => exact ensures_valueWith ih

theorem ensures_value (settings : Settings) (constants : Constants) :
    Ensures (value settings constants) (Spells settings constants (nestingLimit + 1)) :=
  ensures_valueWithin settings constants (nestingLimit + 1)

/-! A value means the same wherever it stands. -/

theorem takes_value {cursor after : Cursor} {text behind : Text} {result : Value}
    (h : value settings constants cursor = .ok result after)
    (htext : cursor.rest = text ++ after.rest) (hbehind : Text.IsApart behind) :
    Takes (value settings constants) text behind result := by
  obtain ⟨_, hmoves, gap, term, hgap, hterm, -, rfl, hmeaning, hlevels⟩ :=
    ensures_value settings constants cursor after result h
  obtain rfl : text = gap.text ++ term.written :=
    List.append_cancel_right (htext.symm.trans hmoves.1)
  have hanswer := answersFor_value settings constants term hterm gap behind hgap
    (stopsBefore_of_isApart hbehind term)
  rw [hmeaning] at hanswer
  intro here hhere
  exact hanswer.eq_ok (by omega) hhere

/-- A text is read as a value to its end exactly if the same value is read where the text stands
between others and the reader stops at its end.  What follows may be any text that does not go on
with a number or a name. -/
theorem value_in_context (settings : Settings) (constants : Constants) {behind : Text}
    (hbehind : Text.IsApart behind) (before text : Text) (result : Value) :
    (∃ after, value settings constants (.start text) = .ok result after ∧ after.rest = []) ↔
      value settings constants ((Cursor.start (before ++ (text ++ behind))).advance before.length) =
        .ok result ((Cursor.start (before ++ (text ++ behind))).advance (before ++ text).length) := by
  have hcursor : ((Cursor.start (before ++ (text ++ behind))).advance before.length).rest =
      text ++ behind := Cursor.rest_advance_append rfl
  constructor
  · rintro ⟨after, h, hend⟩
    have htext : (Cursor.start text).rest = text ++ after.rest := by
      rw [hend, List.append_nil]
      rfl
    rw [takes_value h htext hbehind _ hcursor, Cursor.advance_append]
  · intro h
    rw [← Cursor.advance_append] at h
    have hstart : (Cursor.start text).rest = text ++ [] := (List.append_nil text).symm
    have hrest := Cursor.rest_advance_append hcursor
    exact ⟨_, takes_value h (hrest.symm ▸ hcursor) Text.isApart_nil _ hstart,
      Cursor.rest_advance_append hstart⟩

theorem value_in_context_list :
    let constants : Constants := [(['x'], .list [])]
    let text : Text := "[@\"a\";(comment) x ]".toList
    Text.IsApart "]1".toList ∧
      value {} constants ((Cursor.start ("REM".toList ++ (text ++ "]1".toList))).advance 3) =
        .ok (.list [.text ['a'], .list []])
          ((Cursor.start ("REM".toList ++ (text ++ "]1".toList))).advance (3 + text.length)) := by
  intro constants text
  have hbehind : Text.IsApart "]1".toList := Text.isApart_cons (by decide)
  exact ⟨hbehind, (value_in_context {} constants hbehind "REM".toList text _).mp ⟨_, rfl, rfl⟩⟩

end ConfTree.Reading
