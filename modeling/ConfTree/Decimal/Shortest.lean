import ConfTree.Binary64.Basic

/-!
The shortest decimal of a magnitude: of all decimals that round to it, one on the coarsest grid
of powers of ten, and there the one nearest to it.  On every grid only the two neighbours of the
magnitude need a test, because a point of the grid in the rounding interval lies no nearer to the
magnitude than one of them.  All comparisons are exact, in quarters of a unit, which is the grid
of the ends of the rounding intervals.
-/

namespace ConfTree

/-- The decimal `coefficient * 10 ^ exponent`. -/
structure Decimal where
  coefficient : Nat
  exponent : Int
deriving DecidableEq

namespace Decimal

def denominator (d : Decimal) : Nat :=
  Nat.pow 10 (-d.exponent).toNat

def numerator (d : Decimal) : Nat :=
  d.coefficient * Nat.pow 10 d.exponent.toNat

/-- A decimal in quarters of a unit, times its denominator. -/
def scaledQuarters (d : Decimal) : Nat :=
  d.numerator * (4 * Magnitude.unitsPerOne)

end Decimal

namespace Magnitude

def quarters (x : Magnitude) : Nat :=
  4 * x.units

/-- Whether the next smaller magnitude is only half as far away as the next greater one. -/
def IsNarrowBelow (x : Magnitude) : Prop :=
  x.significand = 1 <<< 52 ∧ 0 < x.scale

instance (x : Magnitude) : Decidable x.IsNarrowBelow :=
  inferInstanceAs (Decidable (_ ∧ _))

/-- The lower end of the rounding interval, in quarters of a unit. -/
def lowerEnd (x : Magnitude) : Nat :=
  (4 * x.significand - if x.IsNarrowBelow then 1 else 2) <<< x.scale

def upperEnd (x : Magnitude) : Nat :=
  (4 * x.significand + 2) <<< x.scale

/-- Whether a decimal rounds to a magnitude other than zero.  The ends of the interval belong to
the even significand. -/
def Attracts (x : Magnitude) (d : Decimal) : Prop :=
  if x.significand % 2 = 0 then
    x.lowerEnd * d.denominator ≤ d.scaledQuarters ∧ d.scaledQuarters ≤ x.upperEnd * d.denominator
  else
    x.lowerEnd * d.denominator < d.scaledQuarters ∧ d.scaledQuarters < x.upperEnd * d.denominator

instance (x : Magnitude) (d : Decimal) : Decidable (x.Attracts d) := by
  unfold Attracts
  infer_instance

/-- How far a decimal lies from a magnitude, in quarters of a unit times the decimal's
denominator. -/
def distance (x : Magnitude) (d : Decimal) : Nat :=
  ((d.scaledQuarters : Int) - x.quarters * d.denominator).natAbs

def floorDecimal (x : Magnitude) (exponent : Int) : Decimal :=
  ⟨x.units * Nat.pow 10 (-exponent).toNat / (unitsPerOne * Nat.pow 10 exponent.toNat), exponent⟩

/-- The nearer of two neighbours on one grid; of two equally near ones the even one. -/
def nearer (x : Magnitude) (below above : Decimal) : Decimal :=
  if x.distance below < x.distance above then below
  else if x.distance above < x.distance below then above
  else if below.coefficient % 2 = 0 then below
  else above

/-- The nearest decimal of a grid that rounds to the magnitude, if one does. -/
def decimalOnGrid? (x : Magnitude) (exponent : Int) : Option Decimal :=
  let below := x.floorDecimal exponent
  let above : Decimal := ⟨below.coefficient + 1, exponent⟩
  if x.Attracts below then
    if x.Attracts above then some (x.nearer below above) else some below
  else if x.Attracts above then
    some above
  else
    none

/-- The first hit on a number of grids, each ten times finer than the one before, and after
those the exact decimal. -/
def firstDecimal (x : Magnitude) : Nat → Int → Decimal
  | 0, exponent => x.floorDecimal exponent
  | grids + 1, exponent =>
      match x.decimalOnGrid? exponent with
      | some d => d
      | none => firstDecimal x grids (exponent - 1)

/-- A power of ten above every magnitude. -/
def coarsestExponent : Int := 309

/-- Every magnitude is a multiple of `2 ^ (-1074)` and so of `10 ^ (-1074)`. -/
def finestExponent : Int := -1074

/-- The shortest decimal that rounds to a magnitude. -/
def shortest (x : Magnitude) : Decimal :=
  if x.significand = 0 then ⟨0, 0⟩
  else x.firstDecimal (coarsestExponent - finestExponent).toNat coarsestExponent

end Magnitude

end ConfTree
