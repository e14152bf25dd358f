import ConfTree.Expression.Operator
import ConfTree.Source.Position
import ConfTree.Text.Digits

namespace ConfTree

inductive Cause where
  | unterminatedComment
  | expectedCharacter (c : Char)
  | expectedName
  | expectedListSeparator
  | expectedMappingSeparator
  | missingValue
  | unexpectedCharacter (c : Char)
  | unknownName (name : Text)
  | unterminatedText
  | invalidNumber
  | fractionRequired
  | noDigits (literal : Text)
  | unterminatedExpression
  | malformedExpression (depth : Nat)
  | expression (cause : ExpressionError)
deriving DecidableEq

/-- Why reading stops: for a cause at a position, because literals are nested too deeply, or
because a character was asked for at the end of the text. -/
inductive ReadError where
  | located (cause : Cause) (position : Position)
  | nestingTooDeep
  | pastEnd
deriving DecidableEq

namespace Cause

def message : Cause → Text
  | .unterminatedComment => "unterminated block comment".toList
  | .expectedCharacter c => "expected '".toList ++ [c, '\'']
  | .expectedName => "expected identifier".toList
  | .expectedListSeparator => "expected ';' or ']'".toList
  | .expectedMappingSeparator => "expected ',' or '\x7d'".toList
  | .missingValue => "unexpected end of input while parsing a value".toList
  | .unexpectedCharacter c =>
      "unexpected character '".toList ++ c :: "' while parsing a value".toList
  | .unknownName name => "unknown identifier '".toList ++ name ++ ['\'']
  | .unterminatedText => "unterminated string literal".toList
  | .invalidNumber => "invalid numeric literal".toList
  | .fractionRequired => "invalid numeric literal: fractional part required".toList
  | .noDigits literal => "invalid numeric literal: ".toList ++ literal
  | .unterminatedExpression => "unterminated constant expression".toList
  | .malformedExpression depth =>
      "malformed constant expression: ".toList ++ Text.decimal depth ++ " items on stack".toList
  | .expression cause => cause.message

end Cause

namespace ReadError

def message : ReadError → Text
  | .located cause _ => cause.message
  | .nestingTooDeep => "nesting too deep".toList
  | .pastEnd => "string index out of range".toList

def position? : ReadError → Option Position
  | .located _ position => some position
  | .nestingTooDeep => none
  | .pastEnd => none

def placed (message : Text) (position : Position) : Text :=
  message ++ " (line ".toList ++ Text.decimal position.line ++ ", column ".toList ++
    Text.decimal position.column ++ [')']

/-- The wording of an error with the position that it carries, if it carries one. -/
def report (error : ReadError) : Text :=
  match error.position? with
  | some position => placed error.message position
  | none => error.message

/-- The wording of an error that leaves the cursor at a position.  Nesting that is too deep carries
no position, since it depends on the limit how far reading gets, and is placed at the cursor. -/
def reportAt (error : ReadError) (cursor : Position) : Text :=
  match error with
  | .nestingTooDeep => placed error.message cursor
  | error => error.report

end ReadError

end ConfTree
