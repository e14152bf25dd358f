import ConfTree.Constants
import ConfTree.Decimal.Literal
import ConfTree.Expression.Operator

namespace ConfTree

/-- A word that stands for a value. -/
inductive Operand where
  | text (content : Text)
  | number (literal : NumberLiteral)
  | constant (name : Text)
deriving DecidableEq

inductive Token where
  | operation (operator : Operator)
  | leaf (operand : Operand)
deriving DecidableEq

namespace Operand

def word : Operand → Text
  | .text content => '@' :: '"' :: content ++ ['"']
  | .number literal => literal.text
  | .constant name => name

def value (constants : Constants) : Operand → Except ExpressionError Value
  | .text content => .ok (.text content)
  | .number literal => .ok (.number literal.value)
  | .constant name =>
      match constants.valueOf? name with
      | some value => .ok value
      | none => .error (.unknownName name)

/-- The content of a word that begins as a quoted text: all between its first and its last
quote, which must be the last character. -/
def quotedContent? : Text → Option Text
  | '@' :: '"' :: rest => if rest.getLast? = some '"' then some rest.dropLast else none
  | _ => none

def ofWord (word : Text) : Except ExpressionError Operand :=
  if word.head? = some '@' then
    match quotedContent? word with
    | some content => .ok (.text content)
    | none => .error (.malformedText word)
  else
    match NumberLiteral.ofText? word with
    | some literal => .ok (.number literal)
    | none =>
        if word ≠ [] ∧ word.all Text.isNameLetter then .ok (.constant word)
        else .error (.unknownWord word)

end Operand

namespace Token

def word : Token → Text
  | .operation operator => operator.symbol
  | .leaf operand => operand.word

/-- The token that a word spells.  The operators come first, so `+` and `-` are no literals. -/
def ofWord (word : Text) : Except ExpressionError Token :=
  match Operator.ofSymbol? word with
  | some operator => .ok (.operation operator)
  | none => (Operand.ofWord word).map .leaf

end Token

end ConfTree
