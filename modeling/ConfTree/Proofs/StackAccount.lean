import ConfTree.Expression.Stack

namespace ConfTree

/-- The causes that are met when the operands of an operator are taken already. -/
def ExpressionError.takesOperands : ExpressionError → Bool
  | .invalidOperands _ _ _ => true
  | .divisionByZero => true
  | _ => false

theorem Operator.takesOperands_of_evaluate {operator : Operator} {left right : Value}
    {cause : ExpressionError} (h : operator.evaluate left right = .error cause) :
    cause.takesOperands = true := by
  unfold evaluate at h
  split at h
  · split at h
    · cases h
    · cases h
      rfl
  · unfold onNumbers at h
    split at h
    · cases h
    · cases h
    · cases h
    · split at h
      · cases h
        rfl
      · cases h
    · cases h
      rfl
  · cases h
    rfl

theorem Operand.takesOperands_of_value {constants : Constants} {operand : Operand}
    {cause : ExpressionError} (h : operand.value constants = .error cause) :
    cause.takesOperands = false := by
  cases operand with
  | text content => cases h
  | number literal => cases h
  | constant name =>
      rw [value] at h
      split at h
      · cases h
      · cases h
        rfl

theorem Operand.takesOperands_of_ofWord {word : Text} {cause : ExpressionError}
    (h : ofWord word = .error cause) : cause.takesOperands = false := by
  unfold ofWord at h
  split at h
  · split at h
    · cases h
    · cases h
      rfl
  · split at h
    · cases h
    · split at h
      · cases h
      · cases h
        rfl

namespace Evaluation

variable {constants : Constants} {stack : OperandStack} {α : Type}

def Pushes (outcome : Except ExpressionError Value) (stack : OperandStack) :
    EStateM.Result ExpressionError OperandStack α → Prop
  | .ok _ after => ∃ value, outcome = .ok value ∧ after = value :: stack
  | .error cause left => outcome = .error cause ∧ cause.takesOperands = false ∧ left = stack

/-- What comes of an operator: it takes the top two operands, whether or not it makes a value of
them, and if there are fewer the stack stays. -/
def Combines (operator : Operator) (stack : OperandStack) :
    EStateM.Result ExpressionError OperandStack α → Prop
  | .ok _ after => ∃ right left below value, stack = right :: left :: below ∧
      operator.evaluate left right = .ok value ∧ after = value :: below
  | .error cause below =>
      (cause = .insufficientOperands operator ∧ stack.length < 2 ∧ below = stack) ∨
        (cause.takesOperands = true ∧ ∃ right left, stack = right :: left :: below ∧
          operator.evaluate left right = .error cause)

theorem combines_apply (operator : Operator) (stack : OperandStack) :
    Combines operator stack (apply operator stack) := by
  unfold apply
  split
  · rename_i right left below
    split
    · rename_i value hvalue
      exact ⟨right, left, below, value, rfl, hvalue, rfl⟩
    · rename_i cause hcause
      exact .inr ⟨Operator.takesOperands_of_evaluate hcause, right, left, rfl, hcause⟩
  · rename_i hshort
    refine .inl ⟨rfl, ?_, rfl⟩
    rcases stack with - | ⟨right, - | ⟨left, below⟩⟩
    · simp
    · simp
    · exact absurd rfl (hshort right left below)

/-- What a step asks of the stack: to take an operand or an operator, or to do nothing. -/
inductive Request where
  | operand (outcome : Except ExpressionError Value)
  | operator (applied : Operator)
  | nothing

def Request.Suits (stack : OperandStack) :
    Request → EStateM.Result ExpressionError OperandStack α → Prop
  | .operand outcome, result => Pushes outcome stack result
  | .operator applied, result => Combines applied stack result
  | .nothing, .ok _ after => after = stack
  | .nothing, .error _ _ => False

/-- The request of a word.  The operators come first, and every other word is an operand. -/
def requestOf (constants : Constants) (word : Text) : Request :=
  if word = [] then .nothing
  else
    match Operator.ofSymbol? word with
    | some operator => .operator operator
    | none => .operand (Operand.ofWord word >>= Operand.value constants)

def Step.request (constants : Constants) : Step → Request
  | .feed word => requestOf constants word
  | .push value => .operand (.ok value)
  | .apply operator => .operator operator
  | .finish => .nothing

theorem pushes_pushOperand (constants : Constants) (operand : Operand) (stack : OperandStack) :
    Pushes (operand.value constants) stack (pushOperand constants operand stack) := by
  unfold pushOperand
  cases hvalue : operand.value constants with
  | ok value => exact ⟨value, rfl, rfl⟩
  | error cause => exact ⟨rfl, Operand.takesOperands_of_value hvalue, rfl⟩

theorem suits_feed (constants : Constants) (word : Text) (stack : OperandStack) :
    (requestOf constants word).Suits stack (feed constants word stack) := by
  unfold requestOf feed
  split
  · rfl
  · unfold Token.ofWord
    cases Operator.ofSymbol? word with
    | some operator => exact combines_apply operator stack
    | none =>
        cases hword : Operand.ofWord word with
        | ok operand => exact pushes_pushOperand constants operand stack
        | error cause => exact ⟨rfl, Operand.takesOperands_of_ofWord hword, rfl⟩

theorem Request.Suits.map {request : Request} {action : Evaluation α} {β : Type}
    (h : request.Suits stack (action stack)) (answer : β) :
    request.Suits stack ((action >>= fun _ => pure answer : Evaluation β) stack) := by
  change request.Suits stack (EStateM.bind action _ stack)
  unfold EStateM.bind
  cases hresult : action stack with
  | ok value after =>
      rw [hresult] at h
      cases request <;> exact h
  | error cause left =>
      rw [hresult] at h
      cases request <;> exact h

theorem suits_perform (constants : Constants) (step : Step) (stack : OperandStack) :
    (step.request constants).Suits stack (perform constants step stack) := by
  cases step with
  | feed word => exact (suits_feed constants word stack).map none
  | push value =>
      have hpush : Request.Suits stack (.operand (.ok value)) (push value stack) :=
        ⟨value, rfl, rfl⟩
      exact hpush.map none
  | apply operator =>
      have happly : Request.Suits stack (.operator operator) (apply operator stack) :=
        combines_apply operator stack
      exact happly.map none
  | finish => rfl

inductive Effect where
  | pushed
  | combined
  | lost
  | nothing
deriving DecidableEq

def Request.effect : Request → EStateM.Result ExpressionError OperandStack α → Effect
  | .operand _, .ok _ _ => .pushed
  | .operator _, .ok _ _ => .combined
  | .nothing, .ok _ _ => .nothing
  | _, .error cause _ => if cause.takesOperands then .lost else .nothing

def leftBy : EStateM.Result ExpressionError OperandStack α → OperandStack
  | .ok _ after => after
  | .error _ left => left

/-- The heights of the stack before and after an effect. -/
def Effect.Balances (before after : Nat) : Effect → Prop
  | .pushed => after = before + 1
  | .combined => after + 1 = before
  | .lost => after + 2 = before
  | .nothing => after = before

theorem Effect.Balances.count {effect : Effect} {before after : Nat}
    (h : effect.Balances before after) :
    after + [effect].count .combined + 2 * [effect].count .lost =
      before + [effect].count .pushed := by
  cases effect with
  | pushed => exact h
  | combined => exact h
  | lost => exact h
  | nothing => exact h

theorem Request.Suits.balances {request : Request}
    {result : EStateM.Result ExpressionError OperandStack α} (h : request.Suits stack result) :
    (request.effect result).Balances stack.length (leftBy result).length := by
  cases request with
  | operand outcome =>
      cases result with
      | ok answer after =>
          obtain ⟨value, -, rfl⟩ := h
          rfl
      | error cause left =>
          obtain ⟨-, htakes, rfl⟩ := h
          simp [effect, htakes, Effect.Balances, leftBy]
  | operator applied =>
      cases result with
      | ok answer after =>
          obtain ⟨right, left, below, value, rfl, -, rfl⟩ := h
          rfl
      | error cause below =>
          rcases h with ⟨rfl, -, rfl⟩ | ⟨htakes, right, left, rfl, -⟩
          · rfl
          · simp [effect, htakes, Effect.Balances, leftBy]
  | nothing =>
      cases result with
      | ok answer after =>
          obtain rfl : after = stack := h
          rfl
      | error cause left => cases h

def follow (constants : Constants) (steps : List Step) (stack : OperandStack) : OperandStack :=
  steps.foldl (fun stack step => leftBy (perform constants step stack)) stack

def effects (constants : Constants) : List Step → OperandStack → List Effect
  | [], _ => []
  | step :: steps, stack =>
      (step.request constants).effect (perform constants step stack) ::
        effects constants steps (leftBy (perform constants step stack))

theorem length_follow (constants : Constants) (steps : List Step) (stack : OperandStack) :
    (follow constants steps stack).length + (effects constants steps stack).count .combined +
      2 * (effects constants steps stack).count .lost =
    stack.length + (effects constants steps stack).count .pushed := by
  induction steps generalizing stack with
  | nil => rfl
  | cons step steps ih =>
      have hstep := (suits_perform constants step stack).balances.count
      have hrest := ih (leftBy (perform constants step stack))
      have heffects : effects constants (step :: steps) stack =
          [(step.request constants).effect (perform constants step stack)] ++
            effects constants steps (leftBy (perform constants step stack)) := rfl
      rw [heffects, List.count_append, List.count_append, List.count_append]
      change (follow constants steps (leftBy (perform constants step stack))).length + _ + _ = _
      omega

theorem exists_of_finish (constants : Constants) (stack : OperandStack) :
    ∃ value?, perform constants .finish stack = .ok (some ⟨stack.length, value?⟩) stack ∧
      ∀ value, value? = some value ↔ stack = [value] := by
  refine ⟨_, rfl, fun value => ?_⟩
  rcases stack with - | ⟨top, - | ⟨next, below⟩⟩
  · simp
  · simp
  · simp

/-- After any steps, failing ones included, one more step pushes an operand, combines the top two
operands or loses them, or leaves the stack as it is, each of them where its cause or its success
tells.  The stack is as high as the balance of what the steps have done, and finishing reports this
height, a value only for a stack of one, and changes nothing. -/
theorem account_after_steps (constants : Constants) (steps : List Step) :
    (∀ step : Step, (step.request constants).Suits (follow constants steps [])
      (perform constants step (follow constants steps []))) ∧
    (follow constants steps []).length + (effects constants steps []).count .combined +
      2 * (effects constants steps []).count .lost =
    (effects constants steps []).count .pushed ∧
    ∃ value?, perform constants .finish (follow constants steps []) =
        .ok (some ⟨(follow constants steps []).length, value?⟩) (follow constants steps []) ∧
      ∀ value, value? = some value ↔ follow constants steps [] = [value] := by
  refine ⟨fun step => suits_perform constants step _, ?_, exists_of_finish constants _⟩
  simpa using length_follow constants steps []

/-- An operator without operands, an unknown name, and two texts that are lost to a product. -/
example : effects [] [.feed ['+'], .feed ['x'], .push (.text []), .feed ['@', '"', '"'], .feed ['*'],
    .push .null] [] = [.nothing, .nothing, .pushed, .pushed, .lost, .pushed] := by decide

end Evaluation

end ConfTree
