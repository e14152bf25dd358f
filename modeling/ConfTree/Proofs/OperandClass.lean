import ConfTree.Proofs.PostfixEvaluation

namespace ConfTree

section

variable {P : Value → Prop} {constants : Constants} {value : Value}

theorem Constants.of_valueOf? (hconstants : ∀ binding ∈ constants, P binding.2) {name : Text}
    (h : constants.valueOf? name = some value) : P value := by
  obtain ⟨hidden, earlier, rfl, -⟩ := List.lookup_eq_some_iff.mp h
  exact hconstants (name, value) (by simp)

/-- An operand has its value in a class that holds the numbers and what is bound, if it holds the
operand too where this is a text. -/
theorem Operand.of_value {operand : Operand} (hnumber : ∀ x, P (.number x))
    (hconstants : ∀ binding ∈ constants, P binding.2)
    (htext : ∀ content, operand = .text content → P (.text content))
    (h : operand.value constants = .ok value) : P value := by
  cases operand with
  | text content =>
      obtain rfl : Value.text content = value := by simpa [Operand.value] using h
      exact htext content rfl
  | number literal =>
      obtain rfl : Value.number literal.value = value := by simpa [Operand.value] using h
      exact hnumber literal.value
  | constant name =>
      rw [Operand.value] at h
      split at h
      · rename_i found hfound
        obtain rfl : found = value := by simpa using h
        exact Constants.of_valueOf? hconstants hfound
      · simp at h

end

namespace Operator

theorem exists_of_onNumbers_eq_ok {operator : Operator} {left right : Binary64} {value : Value}
    (h : operator.onNumbers left right = .ok value) : ∃ x, value = .number x := by
  have hnumber : ∀ x, (.ok (.number x) : Except ExpressionError Value) = .ok value →
      ∃ x, value = .number x := by
    rintro x ⟨⟩
    exact ⟨x, rfl⟩
  cases operator with
  | add => exact hnumber _ h
  | subtract => exact hnumber _ h
  | multiply => exact hnumber _ h
  | concat => simp [onNumbers] at h
  | mod =>
      rw [onNumbers] at h
      split at h
      · simp at h
      · exact hnumber _ h

theorem evaluate_eq_ok {operator : Operator} {left right value : Value}
    (h : operator.evaluate left right = .ok value) :
    concatenate? left right = some value ∨ ∃ x, value = .number x := by
  unfold evaluate at h
  split at h
  · split at h
    · rename_i joint hjoint
      obtain rfl : joint = value := by simpa using h
      exact .inl hjoint
    · simp at h
  · exact .inr (exists_of_onNumbers_eq_ok h)
  · simp at h

/-- Whatever an operator makes of two values of a class belongs to the class. -/
def Keeps (P : Value → Prop) : Prop :=
  ∀ (operator : Operator) (left right value : Value), P left → P right →
    operator.evaluate left right = .ok value → P value

end Operator

namespace Evaluation

variable {P : Value → Prop} {constants : Constants} {stack after : OperandStack}

theorem forall_mem_of_apply {operator : Operator} (hkeeps : Operator.Keeps P)
    (hstack : ∀ value ∈ stack, P value) (h : apply operator stack = .ok () after) :
    ∀ value ∈ after, P value := by
  unfold apply at h
  split at h
  · rename_i right left below
    obtain ⟨hright, hleft, hbelow⟩ : P right ∧ P left ∧ ∀ value ∈ below, P value := by
      simpa using hstack
    split at h
    · rename_i value hvalue
      obtain rfl : value :: below = after := by simpa using h
      exact List.forall_mem_cons.mpr ⟨hkeeps operator left right value hleft hright hvalue, hbelow⟩
    · simp at h
  · simp at h

theorem forall_mem_of_pushOperand {operand : Operand}
    (hoperand : ∀ value, operand.value constants = .ok value → P value)
    (hstack : ∀ value ∈ stack, P value) (h : pushOperand constants operand stack = .ok () after) :
    ∀ value ∈ after, P value := by
  unfold pushOperand at h
  split at h
  · rename_i value hvalue
    obtain rfl : value :: stack = after := by simpa using h
    exact List.forall_mem_cons.mpr ⟨hoperand value hvalue, hstack⟩
  · simp at h

/-- The operands that a word can stand for have their values in a class. -/
def Brings (constants : Constants) (P : Value → Prop) (word : Text) : Prop :=
  ∀ (operand : Operand) (value : Value), Token.ofWord word = .ok (.leaf operand) →
    operand.value constants = .ok value → P value

theorem forall_mem_of_feed {word : Text} (hkeeps : Operator.Keeps P)
    (hword : Brings constants P word) (hstack : ∀ value ∈ stack, P value)
    (h : feed constants word stack = .ok () after) : ∀ value ∈ after, P value := by
  unfold feed at h
  split at h
  · obtain rfl : stack = after := by simpa using h
    exact hstack
  · split at h
    · rename_i token htoken
      cases token with
      | operation operator => exact forall_mem_of_apply hkeeps hstack h
      | leaf operand =>
          exact forall_mem_of_pushOperand (fun value => hword operand value htoken) hstack h
    · simp at h

theorem forall_mem_of_feedAll {words : List Text} (hkeeps : Operator.Keeps P)
    (hwords : ∀ word ∈ words, Brings constants P word) (hstack : ∀ value ∈ stack, P value)
    (h : feedAll constants words stack = .ok () after) : ∀ value ∈ after, P value := by
  induction words generalizing stack with
  | nil =>
      obtain rfl : stack = after := by simpa [feedAll, pure, EStateM.pure] using h
      exact hstack
  | cons word words ih =>
      obtain ⟨hword, hwords⟩ := List.forall_mem_cons.mp hwords
      cases hfeed : feed constants word stack with
      | ok _ between =>
          rw [feedAll_cons_of_ok constants hfeed] at h
          exact ih hwords (forall_mem_of_feed hkeeps hword hstack hfeed) h
      | error cause between =>
          rw [feedAll_cons_of_error constants hfeed] at h
          simp at h

end Evaluation

end ConfTree
