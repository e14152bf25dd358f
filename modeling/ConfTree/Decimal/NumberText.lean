import ConfTree.Decimal.Shortest
import ConfTree.Text.Digits

namespace ConfTree

structure NumberFormat where
  /-- The least power of ten of a leading digit that is written positionally. -/
  positionalFrom : Int
  /-- The power of ten of a leading digit from which an exponent is written. -/
  positionalBelow : Int
  /-- How many digits an exponent has at least. -/
  exponentWidth : Nat
  /-- The undefined number. -/
  undefinedText : Text
  /-- The infinity without a minus sign. -/
  infinityText : Text

/-- Numbers are positional from `0.0001` on and below `10 ^ 16`, and exponents have two digits at
least. -/
def NumberFormat.standard : NumberFormat where
  positionalFrom := -4
  positionalBelow := 16
  exponentWidth := 2
  undefinedText := ".nan".toList
  infinityText := ".inf".toList

namespace Decimal

def digits (d : Decimal) : Text :=
  Text.decimal d.coefficient

def leadingExponent (d : Decimal) : Int :=
  d.exponent + d.digits.length - 1

def zeros (count : Nat) : Text :=
  List.replicate count '0'

/-- The positional spelling: the point comes after the digit for one, and both sides of it have a
digit. -/
def positional (d : Decimal) : Text :=
  if d.leadingExponent < 0 then
    '0' :: '.' :: zeros (-d.leadingExponent - 1).toNat ++ d.digits
  else if d.exponent < 0 then
    let wholeCount := (d.leadingExponent + 1).toNat
    d.digits.take wholeCount ++ '.' :: d.digits.drop wholeCount
  else
    d.digits ++ zeros d.exponent.toNat ++ ['.', '0']

/-- The spelling with an exponent: one digit before the point, and at least one after it. -/
def scientific (format : NumberFormat) (d : Decimal) : Text :=
  let sign := if d.leadingExponent < 0 then '-' else '+'
  let further := d.digits.drop 1
  d.digits.take 1 ++ '.' :: (if further = [] then ['0'] else further) ++
    'e' :: sign :: Text.fill format.exponentWidth (Text.decimal d.leadingExponent.natAbs)

def text (format : NumberFormat) (d : Decimal) : Text :=
  if format.positionalFrom ≤ d.leadingExponent ∧ d.leadingExponent < format.positionalBelow then
    d.positional
  else
    d.scientific format

end Decimal

/-- The text of a number in a format.  Zero keeps its minus sign. -/
def NumberFormat.text (format : NumberFormat) : Binary64 → Text
  | .nan => format.undefinedText
  | .infinity negative => (if negative then ['-'] else []) ++ format.infinityText
  | .finite negative magnitude =>
      (if negative then ['-'] else []) ++ magnitude.shortest.text format

/-- The text that both output formats give a number. -/
def Binary64.text (x : Binary64) : Text :=
  NumberFormat.standard.text x

end ConfTree
