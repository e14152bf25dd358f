import ConfTree.Expression.Stack

namespace ConfTree

/-- An expression: an operand, or an operator between two expressions. -/
inductive ExpressionTree where
  | leaf (operand : Operand)
  | node (operator : Operator) (left right : ExpressionTree)

namespace ExpressionTree

/-- The tokens of an expression, every operator behind its operands. -/
def postorder : ExpressionTree → List Token
  | .leaf operand => [.leaf operand]
  | .node operator left right => left.postorder ++ right.postorder ++ [.operation operator]

/-- The value of an expression, or the cause that is met first. -/
def value (constants : Constants) : ExpressionTree → Except ExpressionError Value
  | .leaf operand => operand.value constants
  | .node operator left right => do
      let leftValue ← left.value constants
      let rightValue ← right.value constants
      operator.evaluate leftValue rightValue

def values (constants : Constants) : List ExpressionTree → Except ExpressionError (List Value)
  | [] => .ok []
  | tree :: trees => do
      let value ← tree.value constants
      let further ← values constants trees
      .ok (value :: further)

end ExpressionTree

end ConfTree
