import ConfTree.Binary64.Rounding

namespace ConfTree.Binary64

/-- The number nearest to an integer count of units; an exact zero takes the given sign. -/
def ofUnits (signOfZero : Bool) (count : Int) : Binary64 :=
  if count = 0 then .finite signOfZero .zero else nearest (count < 0) count.natAbs 1

/-- The sum.  Infinities of opposite signs have no sum; an exact zero is negative only if both
operands are. -/
def add : Binary64 → Binary64 → Binary64
  | .nan, _ => .nan
  | _, .nan => .nan
  | .infinity left, .infinity right => if left = right then .infinity left else .nan
  | .infinity left, .finite _ _ => .infinity left
  | .finite _ _, .infinity right => .infinity right
  | .finite left x, .finite right y =>
      ofUnits (left && right) (signed left x.units + signed right y.units)

/-- The difference is the sum with the opposite number. -/
def sub (x y : Binary64) : Binary64 :=
  x.add y.neg

/-- The product.  A zero and an infinity have no product. -/
def mul : Binary64 → Binary64 → Binary64
  | .nan, _ => .nan
  | _, .nan => .nan
  | .infinity left, .infinity right => .infinity (left != right)
  | .infinity left, .finite right y =>
      if y.significand = 0 then .nan else .infinity (left != right)
  | .finite left x, .infinity right =>
      if x.significand = 0 then .nan else .infinity (left != right)
  | .finite left x, .finite right y =>
      nearest (left != right) (x.units * y.units) Magnitude.unitsPerOne

/-- The number nearest to an integer; zero is the zero without a minus sign. -/
def ofInt (z : Int) : Binary64 :=
  ofUnits false (z * Magnitude.unitsPerOne)

def longLeast : Int := -(1 <<< 63 : Nat)

def longGreatest : Int := (1 <<< 63 : Nat) - 1

def truncate (negative : Bool) (magnitude : Magnitude) : Int :=
  signed negative (magnitude.units / Magnitude.unitsPerOne)

/-- The narrowing to a 64-bit integer: the fraction is dropped, what lies beyond the bounds
becomes the nearer bound, and the undefined number becomes zero. -/
def toLong : Binary64 → Int
  | .nan => 0
  | .infinity sign => if sign then longLeast else longGreatest
  | .finite sign x => max longLeast (min longGreatest (truncate sign x))

/-- The remainder of a division of integers that rounds towards zero, as a number.  The divisor
is not zero wherever this is used. -/
def remainder (dividend divisor : Int) : Binary64 :=
  ofInt (dividend.tmod divisor)

end ConfTree.Binary64
