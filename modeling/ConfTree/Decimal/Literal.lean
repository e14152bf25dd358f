import ConfTree.Binary64.Rounding
import ConfTree.Text.Basic

namespace ConfTree

inductive Sign where
  | unmarked
  | plus
  | minus
deriving DecidableEq

namespace Sign

def text : Sign → Text
  | .unmarked => []
  | .plus => ['+']
  | .minus => ['-']

def leading : Text → Sign
  | '+' :: _ => .plus
  | '-' :: _ => .minus
  | _ => .unmarked

end Sign

/-- A number literal by its parts; the fraction is present exactly when there is a point. -/
structure NumberLiteral where
  sign : Sign
  whole : Text
  fraction : Option Text
deriving DecidableEq

namespace NumberLiteral

def text (literal : NumberLiteral) : Text :=
  literal.sign.text ++ literal.whole ++
    match literal.fraction with
    | none => []
    | some fraction => '.' :: fraction

def IsDigitRun (run : Text) : Prop :=
  run ≠ [] ∧ ∀ c ∈ run, Text.isDigit c = true

/-- A literal has digits before the point and, if there is a point, after it. -/
def WellFormed (literal : NumberLiteral) : Prop :=
  IsDigitRun literal.whole ∧ ∀ fraction, literal.fraction = some fraction → IsDigitRun fraction

def fractionDigits (literal : NumberLiteral) : Text :=
  literal.fraction.getD []

def numerator (literal : NumberLiteral) : Nat :=
  Nat.ofDigitChars 10 (literal.whole ++ literal.fractionDigits) 0

def denominator (literal : NumberLiteral) : Nat :=
  Nat.pow 10 literal.fractionDigits.length

/-- The number nearest to the quotient that the literal spells.  A minus sign is kept on zero. -/
def value (literal : NumberLiteral) : Binary64 :=
  .nearest (literal.sign = .minus) (literal.numerator * Magnitude.unitsPerOne)
    literal.denominator

/-- The literal that a whole text spells, if it spells one. -/
def ofText? (text : Text) : Option NumberLiteral :=
  let sign := Sign.leading text
  let unsigned := text.drop sign.text.length
  let whole := unsigned.takeWhile Text.isDigit
  if whole = [] then
    none
  else
    match unsigned.dropWhile Text.isDigit with
    | [] => some ⟨sign, whole, none⟩
    | '.' :: fraction =>
        if fraction ≠ [] ∧ fraction.all Text.isDigit then some ⟨sign, whole, some fraction⟩
        else none
    | _ => none

end NumberLiteral

end ConfTree
