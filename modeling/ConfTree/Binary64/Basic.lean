/-!
Binary64 numbers as data: a sign with a magnitude, an infinity, or the one undefined number.
A magnitude is a significand of at most 53 binary digits times a power of two, counted in units
of the least positive magnitude, so its value is a natural number of units.  The canonical form
makes equal values equal data, apart from the two zeros.
-/

namespace ConfTree

/-- A finite magnitude: `significand * 2 ^ scale` units of `2 ^ (-1074)`. -/
structure Magnitude where
  significand : Nat
  scale : Nat
  significand_lt : significand < 1 <<< 53
  scale_le : scale ≤ 2045
  canonical : scale = 0 ∨ 1 <<< 52 ≤ significand
deriving DecidableEq

namespace Magnitude

def units (x : Magnitude) : Nat :=
  x.significand <<< x.scale

def unitsPerOne : Nat :=
  1 <<< 1074

theorem unitsPerOne_pos : 0 < unitsPerOne := by
  simp [unitsPerOne]

def zero : Magnitude :=
  ⟨0, 0, by decide, by decide, .inl rfl⟩

def ofFields (exponent fraction : Nat) (hexponent : exponent < 2047)
    (hfraction : fraction < 1 <<< 52) : Magnitude :=
  if h : exponent = 0 then
    ⟨fraction, 0, by omega, by omega, .inl rfl⟩
  else
    ⟨1 <<< 52 + fraction, exponent - 1, by omega, by omega, .inr (by omega)⟩

/-- The biased exponent of the interchange format: zero below the least normal magnitude. -/
def exponentField (x : Magnitude) : Nat :=
  if x.significand < 1 <<< 52 then 0 else x.scale + 1

/-- The fraction of the interchange format: the significand without its leading digit. -/
def fractionField (x : Magnitude) : Nat :=
  x.significand % (1 <<< 52)

theorem exponentField_lt (x : Magnitude) : x.exponentField < 2047 := by
  have := x.scale_le
  unfold exponentField
  split <;> omega

theorem fractionField_lt (x : Magnitude) : x.fractionField < 1 <<< 52 :=
  Nat.mod_lt _ (by decide)

theorem ofFields_fields (x : Magnitude) :
    ofFields x.exponentField x.fractionField x.exponentField_lt x.fractionField_lt = x := by
  obtain ⟨significand, scale, hsignificand, hscale, hcanonical⟩ := x
  by_cases h : significand < 1 <<< 52
  · have hzero : scale = 0 := by omega
    simp only [ofFields, exponentField, fractionField, h, if_true, dite_true,
      Nat.mod_eq_of_lt h, hzero]
  · simp only [ofFields, exponentField, fractionField, h, if_false, Nat.add_one_ne_zero,
      dite_false, Magnitude.mk.injEq]
    simp only [Nat.one_shiftLeft] at *
    omega

end Magnitude

/-- A binary64 number.  All undefined results are one number. -/
inductive Binary64 where
  | nan
  | infinity (negative : Bool)
  | finite (negative : Bool) (magnitude : Magnitude)
deriving DecidableEq

namespace Binary64

def neg : Binary64 → Binary64
  | .nan => .nan
  | .infinity sign => .infinity !sign
  | .finite sign x => .finite (!sign) x

def signed (negative : Bool) (absolute : Nat) : Int :=
  if negative then -(absolute : Int) else absolute

def ofBits (word : BitVec 64) : Binary64 :=
  let sign := word.toNat >>> 63 == 1
  let exponent := word.toNat >>> 52 % 2048
  let fraction := word.toNat % (1 <<< 52)
  if h : exponent < 2047 then
    .finite sign (.ofFields exponent fraction h (Nat.mod_lt _ (by decide)))
  else if fraction = 0 then
    .infinity sign
  else
    .nan

def toBits (x : Binary64) : BitVec 64 :=
  let word (sign : Bool) (exponent fraction : Nat) : BitVec 64 :=
    .ofNat 64 (sign.toNat <<< 63 + exponent <<< 52 + fraction)
  match x with
  | .nan => word false 2047 (1 <<< 51)
  | .infinity sign => word sign 2047 0
  | .finite sign magnitude => word sign magnitude.exponentField magnitude.fractionField

theorem ofBits_toBits (x : Binary64) : ofBits x.toBits = x := by
  cases x with
  | nan => decide
  | infinity sign => cases sign <;> decide
  | finite sign magnitude =>
      have hexponent := magnitude.exponentField_lt
      have hfraction := magnitude.fractionField_lt
      have hsign : sign.toNat ≤ 1 := Bool.toNat_le sign
      have hword : (toBits (.finite sign magnitude)).toNat =
          sign.toNat <<< 63 + magnitude.exponentField <<< 52 + magnitude.fractionField := by
        simp only [toBits, BitVec.toNat_ofNat]
        omega
      have hsignField : (toBits (.finite sign magnitude)).toNat >>> 63 = sign.toNat := by omega
      have hexponentField : (toBits (.finite sign magnitude)).toNat >>> 52 % 2048 =
          magnitude.exponentField := by omega
      have hfractionField : (toBits (.finite sign magnitude)).toNat % (1 <<< 52) =
          magnitude.fractionField := by
        rw [Nat.one_shiftLeft]
        omega
      have hbit : (sign.toNat == 1) = sign := by cases sign <;> rfl
      simp only [ofBits, hsignField, hexponentField, hfractionField, hexponent, dite_true, hbit,
        Magnitude.ofFields_fields]

end Binary64

end ConfTree
