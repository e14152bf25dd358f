import ConfTree.Expression.Token

/-!
Evaluation of postfix expressions on a stack of operands.  A refused word leaves the stack as it
was, except that an operator with two operands has taken them even if it makes nothing of them.
-/

namespace ConfTree

/-- The operands that wait for an operator, the latest first. -/
abbrev OperandStack := List Value

/-- A step on the stack; a failing step says what it leaves behind. -/
abbrev Evaluation := EStateM ExpressionError OperandStack

/-- What a finished expression leaves: how many operands, and the value if it is one. -/
structure Outcome where
  depth : Nat
  value? : Option Value

namespace Evaluation

def push (value : Value) : Evaluation Unit :=
  fun stack => .ok () (value :: stack)

/-- Replaces the top two operands, the right one on top, by what the operator makes of them. -/
def apply (operator : Operator) : Evaluation Unit
  | right :: left :: below =>
      match operator.evaluate left right with
      | .ok value => .ok () (value :: below)
      | .error cause => .error cause below
  | stack => .error (.insufficientOperands operator) stack

def pushOperand (constants : Constants) (operand : Operand) : Evaluation Unit :=
  fun stack =>
    match operand.value constants with
    | .ok value => .ok () (value :: stack)
    | .error cause => .error cause stack

def take (constants : Constants) : Token → Evaluation Unit
  | .operation operator => apply operator
  | .leaf operand => pushOperand constants operand

/-- Takes a word; the empty word does nothing. -/
def feed (constants : Constants) (word : Text) : Evaluation Unit :=
  fun stack =>
    if word = [] then .ok () stack
    else
      match Token.ofWord word with
      | .ok token => take constants token stack
      | .error cause => .error cause stack

/-- Takes words one after the other up to the first that is refused. -/
def feedAll (constants : Constants) : List Text → Evaluation Unit
  | [] => pure ()
  | word :: words => do
      feed constants word
      feedAll constants words

def finish : Evaluation Outcome :=
  fun stack =>
    .ok { depth := stack.length, value? := if stack.length = 1 then stack.head? else none } stack

inductive Step where
  | feed (word : Text)
  | push (value : Value)
  | apply (operator : Operator)
  | finish

/-- Performs one step; only the last kind answers. -/
def perform (constants : Constants) : Step → Evaluation (Option Outcome)
  | .feed word => do
      feed constants word
      pure none
  | .push value => do
      push value
      pure none
  | .apply operator => do
      apply operator
      pure none
  | .finish => some <$> finish

end Evaluation

end ConfTree
