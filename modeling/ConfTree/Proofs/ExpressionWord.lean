import ConfTree.Expression.Token
import ConfTree.Proofs.LiteralSpelling

namespace ConfTree

namespace Operand

/-- An operand that a word can spell: a literal has its digits, and a name its letters. -/
def WellFormed : Operand → Prop
  | .text _ => True
  | .number literal => literal.WellFormed
  | .constant name => Text.IsName name

theorem quotedContent?_eq_some_iff {word content : Text} :
    quotedContent? word = some content ↔ (Operand.text content).word = word := by
  constructor
  · intro h
    unfold quotedContent? at h
    split at h
    · rename_i rest
      split at h
      · rename_i hlast
        obtain rfl := Option.some.inj h
        obtain ⟨content, rfl⟩ := List.getLast?_eq_some_iff.mp hlast
        simp [word]
      · simp at h
    · simp at h
  · rintro rfl
    simp [quotedContent?, word]

theorem head?_literal_text_ne {literal : NumberLiteral} (h : literal.WellFormed) :
    literal.text.head? ≠ some '@' := by
  obtain ⟨c, whole, hwhole, hdigit⟩ := Text.exists_cons_of_run h.1
  have hc : c ≠ '@' := Text.ne_of_class hdigit (by decide)
  rw [NumberLiteral.text_eq, hwhole]
  cases literal.sign <;> simp [Sign.text, hc]

theorem ofText?_name {name : Text} (h : Text.IsName name) : NumberLiteral.ofText? name = none := by
  rw [Option.eq_none_iff_forall_ne_some]
  intro literal hliteral
  obtain ⟨hwell, rfl⟩ := NumberLiteral.ofText?_eq_some_iff.mp hliteral
  obtain ⟨c, whole, hwhole, hdigit⟩ := Text.exists_cons_of_run hwell.1
  have hletter : Text.isNameLetter c = true := h.2 c (by simp [NumberLiteral.text_eq, hwhole])
  simp [Text.isDigit_eq_false_of_isNameLetter hletter] at hdigit

theorem head?_name_ne {name : Text} (h : Text.IsName name) : name.head? ≠ some '@' := by
  obtain ⟨c, rest, rfl, hletter⟩ := Text.exists_cons_of_run h
  have hc : c ≠ '@' := Text.ne_of_class hletter (by decide)
  simp [hc]

theorem ofWord_word {operand : Operand} (h : operand.WellFormed) :
    ofWord operand.word = .ok operand := by
  cases operand with
  | text content =>
      have hquoted : quotedContent? (Operand.text content).word = some content :=
        quotedContent?_eq_some_iff.mpr rfl
      have hhead : (Operand.text content).word.head? = some '@' := by simp [word]
      simp only [ofWord, hhead, hquoted, if_true]
  | number literal =>
      have hhead : literal.text.head? ≠ some '@' := head?_literal_text_ne h
      simp only [ofWord, word, hhead, if_false, NumberLiteral.ofText?_text h]
  | constant name =>
      have hhead : name.head? ≠ some '@' := head?_name_ne h
      have hletters : name.all Text.isNameLetter = true := List.all_eq_true.mpr h.2
      change ofWord name = _
      simp only [ofWord, hhead, if_false, ofText?_name h]
      rw [if_pos ⟨h.1, hletters⟩]

theorem wellFormed_and_word_of_ofWord {word : Text} {operand : Operand}
    (h : ofWord word = .ok operand) : operand.WellFormed ∧ operand.word = word := by
  unfold ofWord at h
  split at h
  · split at h
    · rename_i content hcontent
      obtain rfl := Except.ok.inj h
      exact ⟨trivial, quotedContent?_eq_some_iff.mp hcontent⟩
    · simp at h
  · split at h
    · rename_i literal hliteral
      obtain rfl := Except.ok.inj h
      exact NumberLiteral.ofText?_eq_some_iff.mp hliteral
    · split at h
      · rename_i hname
        obtain rfl := Except.ok.inj h
        exact ⟨⟨hname.1, List.all_eq_true.mp hname.2⟩, rfl⟩
      · simp at h

theorem ofSymbol?_word {operand : Operand} (h : operand.WellFormed) :
    Operator.ofSymbol? operand.word = none := by
  rw [Option.eq_none_iff_forall_ne_some]
  intro operator hoperator
  have hword : operator.symbol = operand.word := Operator.ofSymbol?_eq_some_iff.mp hoperator
  have hread := ofWord_word h
  rw [← hword] at hread
  have hrefused : ofWord operator.symbol = .error (.unknownWord operator.symbol) := by
    cases operator <;> rfl
  simp [hrefused] at hread

theorem word_ne_nil {operand : Operand} (h : operand.WellFormed) : operand.word ≠ [] := by
  intro hnil
  have hread := ofWord_word h
  have hrefused : ofWord [] = .error (.unknownWord []) := rfl
  rw [hnil, hrefused] at hread
  simp at hread

end Operand

namespace Token

def WellFormed : Token → Prop
  | .operation _ => True
  | .leaf operand => operand.WellFormed

theorem ofWord_word {token : Token} (h : token.WellFormed) : ofWord token.word = .ok token := by
  cases token with
  | operation operator => simp [ofWord, word, Operator.ofSymbol?_symbol]
  | leaf operand =>
      simp [ofWord, word, Operand.ofSymbol?_word h, Operand.ofWord_word h, Except.map]

theorem wellFormed_and_word_of_ofWord {word : Text} {token : Token}
    (h : ofWord word = .ok token) : token.WellFormed ∧ token.word = word := by
  unfold ofWord at h
  split at h
  · rename_i operator hoperator
    obtain rfl := Except.ok.inj h
    exact ⟨trivial, Operator.ofSymbol?_eq_some_iff.mp hoperator⟩
  · cases hoperand : Operand.ofWord word with
    | error cause => simp [hoperand, Except.map] at h
    | ok operand =>
        obtain rfl : Token.leaf operand = token := by simpa [hoperand, Except.map] using h
        exact Operand.wellFormed_and_word_of_ofWord hoperand

theorem ofWord_eq_ok_iff {word : Text} {token : Token} :
    ofWord word = .ok token ↔ token.WellFormed ∧ token.word = word := by
  constructor
  · exact wellFormed_and_word_of_ofWord
  · rintro ⟨h, rfl⟩
    exact ofWord_word h

theorem word_ne_nil {token : Token} (h : token.WellFormed) : token.word ≠ [] := by
  cases token with
  | operation operator => cases operator <;> decide
  | leaf operand => exact Operand.word_ne_nil h

end Token

end ConfTree
