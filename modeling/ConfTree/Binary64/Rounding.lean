import ConfTree.Binary64.Basic

namespace ConfTree

/-- The whole number nearest to a quotient; an exact half goes to the even one. -/
def roundHalfEven (numerator denominator : Nat) : Nat :=
  let quotient := numerator / denominator
  let twice := 2 * (numerator % denominator)
  if denominator < twice then quotient + 1
  else if twice = denominator then quotient + quotient % 2
  else quotient

theorem le_roundHalfEven (numerator denominator : Nat) :
    numerator / denominator ≤ roundHalfEven numerator denominator := by
  simp only [roundHalfEven]
  split
  · omega
  · split <;> omega

theorem roundHalfEven_le (numerator denominator : Nat) :
    roundHalfEven numerator denominator ≤ numerator / denominator + 1 := by
  simp only [roundHalfEven]
  split
  · omega
  · split <;> omega

namespace Magnitude

/-- The scale at which a value of so many whole units has a significand of 53 binary digits, or
zero if it has fewer digits. -/
def scaleFor (wholeUnits : Nat) : Nat :=
  if wholeUnits < 1 <<< 53 then 0 else wholeUnits.log2 - 52

theorem shiftRight_scaleFor_lt (wholeUnits : Nat) :
    wholeUnits >>> scaleFor wholeUnits < 1 <<< 53 := by
  unfold scaleFor
  split
  · simpa using ‹wholeUnits < 1 <<< 53›
  · rename_i h
    rw [Nat.one_shiftLeft, Nat.shiftRight_eq_div_pow]
    have hlog : 53 ≤ wholeUnits.log2 := (Nat.le_log2 (by omega)).mpr (by omega)
    rw [Nat.div_lt_iff_lt_mul (Nat.two_pow_pos _), ← Nat.pow_add]
    have hsum : 53 + (wholeUnits.log2 - 52) = wholeUnits.log2 + 1 := by omega
    rw [hsum]
    exact Nat.lt_log2_self

theorem scaleFor_eq_zero_or (wholeUnits : Nat) :
    scaleFor wholeUnits = 0 ∨ 1 <<< 52 ≤ wholeUnits >>> scaleFor wholeUnits := by
  unfold scaleFor
  split
  · exact .inl rfl
  · rename_i h
    have hlog : 53 ≤ wholeUnits.log2 := (Nat.le_log2 (by omega)).mpr (by omega)
    refine .inr ?_
    rw [Nat.one_shiftLeft, Nat.shiftRight_eq_div_pow]
    rw [Nat.le_div_iff_mul_le (Nat.two_pow_pos _), ← Nat.pow_add]
    have hsum : 52 + (wholeUnits.log2 - 52) = wholeUnits.log2 := by omega
    rw [hsum]
    exact Nat.log2_self_le (by omega)

def significandFor (numerator denominator : Nat) : Nat :=
  roundHalfEven numerator (denominator <<< scaleFor (numerator / denominator))

theorem significandFor_le (numerator denominator : Nat) :
    significandFor numerator denominator ≤ 1 <<< 53 := by
  have hround := roundHalfEven_le numerator
    (denominator <<< scaleFor (numerator / denominator))
  have hlt := shiftRight_scaleFor_lt (numerator / denominator)
  rw [Nat.shiftRight_eq_div_pow, Nat.div_div_eq_div_mul, ← Nat.shiftLeft_eq] at hlt
  exact Nat.le_trans hround hlt

theorem scaleFor_eq_zero_or_le_significandFor (numerator denominator : Nat) :
    scaleFor (numerator / denominator) = 0 ∨ 1 <<< 52 ≤ significandFor numerator denominator := by
  refine (scaleFor_eq_zero_or (numerator / denominator)).imp id fun h => ?_
  rw [Nat.shiftRight_eq_div_pow, Nat.div_div_eq_div_mul, ← Nat.shiftLeft_eq] at h
  exact Nat.le_trans h (le_roundHalfEven _ _)

/-- The magnitude nearest to `numerator / denominator` units, or none if that is beyond the
greatest magnitude by at least half a step.  A significand rounded up to 54 digits is a power of
two and moves to the next scale. -/
def nearest? (numerator denominator : Nat) : Option Magnitude :=
  let scale := scaleFor (numerator / denominator)
  if h : significandFor numerator denominator < 1 <<< 53 then
    if hscale : scale ≤ 2045 then
      some ⟨significandFor numerator denominator, scale, h, hscale,
        scaleFor_eq_zero_or_le_significandFor numerator denominator⟩
    else
      none
  else if hscale : scale + 1 ≤ 2045 then
    some ⟨1 <<< 52, scale + 1, by decide, hscale, .inr (Nat.le_refl _)⟩
  else
    none

end Magnitude

def Binary64.nearest (negative : Bool) (numerator denominator : Nat) : Binary64 :=
  match Magnitude.nearest? numerator denominator with
  | some magnitude => .finite negative magnitude
  | none => .infinity negative

end ConfTree
