import ConfTree.Proofs.ExpressionSplit
import ConfTree.Proofs.TermReading

namespace ConfTree

namespace Operand

def term : Operand → Term
  | .text content => .text content
  | .number literal => .number literal
  | .constant name => .reference name

/-- An operand that is written as a term, which has no quote inside a text. -/
def IsTerm (operand : Operand) : Prop :=
  operand.WellFormed ∧ ∀ content, operand = .text content → '"' ∉ content

theorem written_term (operand : Operand) : operand.term.written = operand.word := by
  cases operand <;> rfl

theorem value_term_eq_ok_iff (constants : Constants) (operand : Operand) (value : Value) :
    operand.term.value constants = .ok value ↔ operand.value constants = .ok value := by
  cases operand with
  | text content => simp [term, Term.value, Operand.value]
  | number literal => simp [term, Term.value, Operand.value]
  | constant name =>
      simp only [term, Term.value, Operand.value]
      cases constants.valueOf? name <;> simp

theorem IsTerm.isValid {operand : Operand} (h : operand.IsTerm) :
    operand.term.IsValid { fractionRequired := false } := by
  cases operand with
  | text content => exact h.2 content rfl
  | number literal => exact ⟨h.1, by simp⟩
  | constant name => exact h.1

theorem stopsBefore_nil (operand : Operand) : operand.term.StopsBefore [] :=
  Term.stopsBefore_of_isApart Text.isApart_nil operand.term

theorem levels_term (operand : Operand) : operand.term.levels = 1 := by
  cases operand <;> rfl

end Operand

namespace Evaluation

theorem feed_eq_singleton_iff {constants : Constants} {word : Text} {value : Value}
    (hne : word ≠ []) :
    feed constants word [] = .ok () [value] ↔ ∃ operand : Operand, operand.WellFormed ∧
      operand.word = word ∧ operand.value constants = .ok value := by
  constructor
  · intro h
    simp only [feed, hne, if_false] at h
    cases hword : Token.ofWord word with
    | error cause => simp [hword] at h
    | ok token =>
        obtain ⟨hwell, rfl⟩ := Token.ofWord_eq_ok_iff.mp hword
        rw [hword] at h
        cases token with
        | operation operator => simp [take, apply] at h
        | leaf operand =>
            refine ⟨operand, hwell, rfl, ?_⟩
            cases hvalue : operand.value constants with
            | ok found => simpa [take, pushOperand, hvalue] using h
            | error cause => simp [take, pushOperand, hvalue] at h
  · rintro ⟨operand, hwell, rfl, hvalue⟩
    have hfeed := feed_word constants (.leaf operand) hwell []
    rwa [take, pushOperand, hvalue] at hfeed

end Evaluation

namespace Reading

open Evaluation

variable {constants : Constants} {word : Text} {value : Value}

theorem Answers.exists_ok_iff {α : Type} {isDeep : Prop} {reading : Reading α} {text rest : Text}
    {expected : Except Cause α} (h : Answers isDeep reading text rest expected) (hdeep : ¬isDeep)
    {cursor : Cursor} (hcursor : cursor.rest = text ++ rest) (result : α) :
    (∃ after, reading cursor = .ok result after) ↔ expected = .ok result := by
  constructor
  · rintro ⟨after, hreading⟩
    have hanswer := h cursor hcursor
    rw [hreading] at hanswer
    exact hanswer.1
  · rintro rfl
    exact ⟨_, h.eq_ok hdeep hcursor⟩

theorem expressionOutcome_eq_ok_iff
    (outcome : EStateM.Result ExpressionError OperandStack Unit) :
    expressionOutcome outcome = .ok value ↔ outcome = .ok () [value] := by
  match outcome with
  | .ok _ [] => simp [expressionOutcome]
  | .ok _ [found] => simp [expressionOutcome]
  | .ok _ (_ :: _ :: _) => simp [expressionOutcome]
  | .error cause left => simp [expressionOutcome]

theorem expression_word_eq_ok_iff (hne : word ≠ [])
    (hword : ∀ c ∈ word, Text.isBlank c = false ∧ c ≠ '|') :
    (∃ after, expression constants (.start ('|' :: word ++ ['|'])) = .ok value after) ↔
      ∃ operand : Operand, operand.WellFormed ∧ operand.word = word ∧
        operand.value constants = .ok value := by
  have hbar : '|' ∉ word := fun hmem => (hword '|' hmem).2 rfl
  have hblank : ∀ c ∈ word, Text.isBlank c = false := fun c hc => (hword c hc).1
  have hvalue : Term.expressionValue constants word = .ok value ↔
      feed constants word [] = .ok () [value] := by
    rw [← feedAll_wordsOf_word hblank, ← expressionOutcome_eq_ok_iff]
    rfl
  rw [← feed_eq_singleton_iff hne, ← hvalue]
  have hanswers : Answers False (expression constants)
      (Gap.text [] ++ (Term.expression word).written) [] (Term.expressionValue constants word) :=
    answers_expression constants Gap.isInner_nil hbar
  exact hanswers.exists_ok_iff not_false
    (by simp [Cursor.start, Gap.text, Term.written]) value

def isOperandStart (c : Char) : Bool :=
  c = '@' || c = '+' || c = '-' || Text.isDigit c || Text.isNameLetter c

theorem isValueStart_of_isOperandStart {c : Char} (h : isOperandStart c = true) :
    Text.isValueStart c = true := by
  simp only [isOperandStart, Bool.or_eq_true, decide_eq_true_eq] at h
  rcases h with (((rfl | rfl) | rfl) | hdigit) | hletter
  · decide
  · decide
  · decide
  · simp [Text.isValueStart, hdigit]
  · simp [Text.isValueStart, hletter]

theorem text_eq_nil_of_isValueStart {gap : Gap} {rest tail : Text} {c : Char} (hgap : gap.IsInner)
    (hc : Text.isValueStart c = true) (h : gap.text ++ rest = c :: tail) : gap.text = [] := by
  have hlength := Gap.length?_text_append (hgap.mayPrecede rest)
  have habsent : Insignificant.length? .between (gap.text ++ rest) = some 0 := by
    rw [h]
    exact Text.isAbsent_of_isValueStart hc tail
  rw [habsent, eq_comm, Option.map_eq_some_iff] at hlength
  obtain ⟨count, -, hcount⟩ := hlength
  exact List.eq_nil_of_length_eq_zero (by omega)

theorem exists_operand_of_term {term : Term} {c : Char} {tail : Text}
    (hvalid : term.IsValid { fractionRequired := false }) (hc : isOperandStart c = true)
    (hwritten : term.written = c :: tail) :
    ∃ operand : Operand, operand.IsTerm ∧ operand.term = term := by
  have hne : ∀ d : Char, isOperandStart d = false → c ≠ d := fun d hd => Text.ne_of_class hc hd
  cases term with
  | text content =>
      refine ⟨.text content, ⟨trivial, ?_⟩, rfl⟩
      rintro _ ⟨⟩
      exact hvalid
  | number literal => exact ⟨.number literal, ⟨hvalid.1, nofun⟩, rfl⟩
  | reference name => exact ⟨.constant name, ⟨hvalid, nofun⟩, rfl⟩
  | expression body => exact absurd (List.cons.inj hwritten).1.symm (hne '|' (by decide))
  | emptyList inner => exact absurd (List.cons.inj hwritten).1.symm (hne '[' (by decide))
  | list first further trailing =>
      exact absurd (List.cons.inj hwritten).1.symm (hne '[' (by decide))
  | emptyMapping inner => exact absurd (List.cons.inj hwritten).1.symm (hne '\x7b' (by decide))
  | mapping first further trailing =>
      exact absurd (List.cons.inj hwritten).1.symm (hne '\x7b' (by decide))

theorem value_word_eq_ok_iff (hstart : ∃ c ∈ word.head?, isOperandStart c = true) :
    (∃ after, Reading.value { fractionRequired := false } constants (.start word) =
        .ok value after ∧ after.rest = []) ↔
      ∃ operand : Operand, operand.IsTerm ∧ operand.word = word ∧
        operand.value constants = .ok value := by
  constructor
  · rintro ⟨after, hread, hrest⟩
    obtain ⟨c, hhead, hc⟩ := hstart
    obtain ⟨tail, hcons⟩ := List.head?_eq_some_iff.mp hhead
    obtain ⟨_, hmoves, gap, term, hgap, hvalid, -, rfl, hvalue, -⟩ :=
      ensures_value _ constants (.start word) after value hread
    have hword : gap.text ++ term.written = word := by
      have hall : word = gap.text ++ term.written ++ after.rest := hmoves.1
      rw [hall, hrest, List.append_nil]
    have hnil := text_eq_nil_of_isValueStart hgap (isValueStart_of_isOperandStart hc)
      (hword.trans hcons)
    rw [hnil, List.nil_append] at hword
    obtain ⟨operand, hoperand, rfl⟩ := exists_operand_of_term hvalid hc (hword.trans hcons)
    rw [operand.written_term] at hword
    rw [operand.value_term_eq_ok_iff] at hvalue
    exact ⟨operand, hoperand, hword, hvalue⟩
  · rintro ⟨operand, hoperand, rfl, hvalue⟩
    have hanswers := answersFor_value { fractionRequired := false } constants operand.term
      hoperand.isValid [] [] Gap.isInner_nil operand.stopsBefore_nil
    rw [(operand.value_term_eq_ok_iff constants value).mpr hvalue] at hanswers
    have hdeep : ¬nestingLimit + 1 < operand.term.levels := by
      rw [operand.levels_term]
      decide
    have hcursor : (Cursor.start operand.word).rest =
        (Gap.text [] ++ operand.term.written) ++ [] := by
      rw [operand.written_term, List.append_nil]
      rfl
    exact ⟨_, hanswers.eq_ok hdeep hcursor, Cursor.rest_advance_append hcursor⟩

/-- A quoted text with a quote inside is an operand and no value. -/
theorem exists_operand_iff :
    (∃ operand : Operand, operand.WellFormed ∧ operand.word = word ∧
        operand.value constants = .ok value) ↔
      (∃ operand : Operand, operand.IsTerm ∧ operand.word = word ∧
        operand.value constants = .ok value) ∨
      ∃ content, '"' ∈ content ∧ word = '@' :: '"' :: content ++ ['"'] ∧ value = .text content := by
  constructor
  · rintro ⟨operand, hwell, hword, hvalue⟩
    by_cases hterm : ∀ content, operand = .text content → '"' ∉ content
    · exact .inl ⟨operand, ⟨hwell, hterm⟩, hword, hvalue⟩
    · push Not at hterm
      obtain ⟨content, rfl, hquote⟩ := hterm
      exact .inr ⟨content, hquote, hword.symm, (Except.ok.inj hvalue).symm⟩
  · rintro (⟨operand, hterm, hword, hvalue⟩ | ⟨content, -, rfl, rfl⟩)
    · exact ⟨operand, hterm.1, hword, hvalue⟩
    · exact ⟨.text content, trivial, rfl, rfl⟩

theorem not_exists_term_of_inner_quote {content : Text} (hquote : '"' ∈ content)
    (operand : Operand) (h : operand.IsTerm) :
    operand.word ≠ '@' :: '"' :: content ++ ['"'] := by
  intro hword
  have hsame : operand = .text content := by
    have hread := Operand.ofWord_word h.1
    have htext : Operand.ofWord (Operand.text content).word = .ok (.text content) :=
      Operand.ofWord_word trivial
    rw [hword] at hread
    exact Except.ok.inj (hread.symm.trans htext)
  exact h.2 content hsame hquote

/-! Literals and names by themselves. -/

theorem number_word_eq_ok_iff :
    (∃ after, number false (.start word) = .ok value after ∧ after.rest = []) ↔
      ∃ literal, Token.ofWord word = .ok (.leaf (.number literal)) ∧
        value = .number literal.value := by
  constructor
  · rintro ⟨after, hread, hrest⟩
    obtain ⟨_, hmoves, literal, hwell, -, rfl, rfl, -⟩ :=
      ensures_number false (.start word) after value hread
    have hword : word = literal.text ++ after.rest := hmoves.1
    rw [hrest, List.append_nil] at hword
    exact ⟨literal, Token.ofWord_eq_ok_iff.mpr ⟨hwell, hword.symm⟩, rfl⟩
  · rintro ⟨literal, htoken, rfl⟩
    obtain ⟨hwell, rfl⟩ := Token.ofWord_eq_ok_iff.mp htoken
    have hcursor : (Cursor.start literal.text).rest = literal.text ++ [] :=
      (List.append_nil _).symm
    have hstops : (Term.number literal).StopsBefore [] :=
      Term.stopsBefore_of_isApart Text.isApart_nil _
    exact ⟨_, takes_number hwell (by simp) hstops _ hcursor, Cursor.rest_advance_append hcursor⟩

theorem name_word_eq_ok_iff {key : Text} :
    (key ≠ [] ∧ ∃ after, name (.start word) = .ok key after ∧ after.rest = []) ↔
      Token.ofWord word = .ok (.leaf (.constant key)) := by
  rw [Token.ofWord_eq_ok_iff]
  constructor
  · rintro ⟨hne, after, hread, hrest⟩
    obtain ⟨_, hmoves, rfl, hletters, -⟩ := ensures_run _ (.start word) after key hread
    have hword : word = key ++ after.rest := hmoves.1
    rw [hrest, List.append_nil] at hword
    exact ⟨⟨hne, hletters⟩, hword.symm⟩
  · rintro ⟨hname, rfl⟩
    have hcursor : (Cursor.start key).rest = key ++ [] := (List.append_nil _).symm
    exact ⟨hname.1, _, takes_name hname (Text.endsRun_nil _) _ hcursor,
      Cursor.rest_advance_append hcursor⟩

/-- A word without blanks and bars that begins as an operand does is taken by an expression exactly
if it is a value as a whole, and gives the same value; only a quoted text with a quote inside is
taken by an expression alone.  The literals and the names among the words are those that the readers
of numbers and of names take as a whole. -/
theorem expression_agrees_with_value (constants : Constants) :
    (∀ word : Text, (∀ c ∈ word, Text.isBlank c = false ∧ c ≠ '|') →
      (∃ c ∈ word.head?, isOperandStart c = true) →
      (∀ value, (∃ after,
          expression constants (.start ('|' :: word ++ ['|'])) = .ok value after) ↔
        (∃ after, Reading.value { fractionRequired := false } constants (.start word) =
          .ok value after ∧ after.rest = []) ∨
        ∃ content, '"' ∈ content ∧ word = '@' :: '"' :: content ++ ['"'] ∧
          value = .text content) ∧
      ∀ content, '"' ∈ content → word = '@' :: '"' :: content ++ ['"'] →
        ¬∃ value after, Reading.value { fractionRequired := false } constants (.start word) =
          .ok value after ∧ after.rest = []) ∧
    ∀ word : Text,
      (∀ value, (∃ literal, Token.ofWord word = .ok (.leaf (.number literal)) ∧
          value = .number literal.value) ↔
        ∃ after, number false (.start word) = .ok value after ∧ after.rest = []) ∧
      ∀ key, Token.ofWord word = .ok (.leaf (.constant key)) ↔
        key ≠ [] ∧ ∃ after, name (.start word) = .ok key after ∧ after.rest = [] := by
  refine ⟨fun word hword hstart => ⟨fun value => ?_, ?_⟩,
    fun word => ⟨fun value => ?_, fun key => ?_⟩⟩
  · have hne : word ≠ [] := by
      rintro rfl
      obtain ⟨c, hc, -⟩ := hstart
      simp at hc
    rw [expression_word_eq_ok_iff hne hword, exists_operand_iff, value_word_eq_ok_iff hstart]
  · rintro content hquote hcontent ⟨value, hread⟩
    obtain ⟨operand, hterm, hoperand, -⟩ := (value_word_eq_ok_iff hstart).mp hread
    exact not_exists_term_of_inner_quote hquote operand hterm (hoperand.trans hcontent)
  · exact number_word_eq_ok_iff.symm
  · exact name_word_eq_ok_iff.symm

theorem expression_agrees_with_value_quote :
    (∀ c ∈ "@\"a\"b\"".toList, Text.isBlank c = false ∧ c ≠ '|') ∧
      (∃ c ∈ "@\"a\"b\"".toList.head?, isOperandStart c = true) ∧
      (∃ after, expression [] (.start ('|' :: "@\"a\"b\"".toList ++ ['|'])) =
        .ok (.text "a\"b".toList) after) ∧
      ¬∃ value after, Reading.value { fractionRequired := false } [] (.start "@\"a\"b\"".toList) =
        .ok value after ∧ after.rest = [] := by
  have hall : ("@\"a\"b\"".toList.all fun c => !Text.isBlank c && c != '|') = true := by decide
  have hword : ∀ c ∈ "@\"a\"b\"".toList, Text.isBlank c = false ∧ c ≠ '|' := fun c hc => by
    simpa using List.all_eq_true.mp hall c hc
  have hstart : ∃ c ∈ "@\"a\"b\"".toList.head?, isOperandStart c = true :=
    ⟨'@', rfl, by decide⟩
  obtain ⟨hexpression, hvalue⟩ := (expression_agrees_with_value []).1 _ hword hstart
  exact ⟨hword, hstart, (hexpression _).mpr (.inr ⟨"a\"b".toList, by decide, rfl, rfl⟩),
    hvalue "a\"b".toList (by decide) rfl⟩

end Reading

end ConfTree
