import ConfTree.Binary64.Arithmetic
import ConfTree.Value

namespace ConfTree

inductive Operator where
  | add
  | subtract
  | multiply
  | concat
  | mod
deriving DecidableEq

inductive ExpressionError where
  | insufficientOperands (operator : Operator)
  | invalidOperands (operator : Operator) (left right : Kind)
  | divisionByZero
  | malformedText (word : Text)
  | unknownName (name : Text)
  | unknownWord (word : Text)
deriving DecidableEq

namespace Operator

def all : List Operator :=
  [.add, .subtract, .multiply, .concat, .mod]

def symbol : Operator → Text
  | .add => ['+']
  | .subtract => ['-']
  | .multiply => ['*']
  | .concat => "concat()".toList
  | .mod => "mod()".toList

def ofSymbol? (word : Text) : Option Operator :=
  all.find? fun operator => operator.symbol = word

theorem ofSymbol?_symbol (operator : Operator) : ofSymbol? operator.symbol = some operator := by
  cases operator <;> decide

theorem ofSymbol?_eq_some_iff {word : Text} {operator : Operator} :
    ofSymbol? word = some operator ↔ operator.symbol = word := by
  constructor
  · intro h
    simpa using List.find?_some h
  · rintro rfl
    exact ofSymbol?_symbol operator

/-- The joint of two sequences.  A text beside a list counts as one item of it. -/
def concatenate? : Value → Value → Option Value
  | .list left, .list right => some (.list (left ++ right))
  | .text left, .text right => some (.text (left ++ right))
  | .list left, .text right => some (.list (left ++ [.text right]))
  | .text left, .list right => some (.list (.text left :: right))
  | _, _ => none

/-- What an operator makes of two numbers; concatenation makes nothing of them. -/
def onNumbers (operator : Operator) (left right : Binary64) :
    Except ExpressionError Value :=
  match operator with
  | .add => .ok (.number (left.add right))
  | .subtract => .ok (.number (left.sub right))
  | .multiply => .ok (.number (left.mul right))
  | .mod =>
      if right.toLong = 0 then .error .divisionByZero
      else .ok (.number (.remainder left.toLong right.toLong))
  | .concat => .error (.invalidOperands .concat .number .number)

def evaluate (operator : Operator) (left right : Value) : Except ExpressionError Value :=
  match operator, left, right with
  | .concat, left, right =>
      match concatenate? left right with
      | some joint => .ok joint
      | none => .error (.invalidOperands .concat left.kind right.kind)
  | operator, .number x, .number y => operator.onNumbers x y
  | operator, left, right => .error (.invalidOperands operator left.kind right.kind)

end Operator

namespace ExpressionError

def message : ExpressionError → Text
  | .insufficientOperands operator => "insufficient operands for ".toList ++ operator.symbol
  | .invalidOperands operator left right =>
      "invalid operands for ".toList ++ operator.symbol ++ ": ".toList ++ left.word ++
        ", ".toList ++ right.word
  | .divisionByZero => "division by zero in mod()".toList
  | .malformedText word => "malformed string in expression: ".toList ++ word
  | .unknownName name => "unknown identifier '".toList ++ name ++ "' in expression".toList
  | .unknownWord word => "unknown token in constant expression: ".toList ++ word

end ExpressionError

end ConfTree
