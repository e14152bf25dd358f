import ConfTree.Proofs.GuardedEvaluation
import ConfTree.Proofs.IntegerRemainder
import Mathlib.Data.Rat.Floor
import Mathlib.Order.WithBotTop

namespace ConfTree

/-! Integer parts. -/

def towardsZero (q : ℚ) : ℤ :=
  if 0 ≤ q then ⌊q⌋ else ⌈q⌉

theorem towardsZero_of_nonneg {q : ℚ} (hq : 0 ≤ q) : towardsZero q = ⌊q⌋ :=
  if_pos hq

theorem towardsZero_of_nonpos {q : ℚ} (hq : q ≤ 0) : towardsZero q = ⌈q⌉ := by
  rcases hq.eq_or_lt with rfl | hneg
  · rw [towardsZero, Int.floor_zero, Int.ceil_zero, ite_self]
  · exact if_neg (not_le.mpr hneg)

theorem towardsZero_intCast (z : ℤ) : towardsZero z = z := by
  rw [towardsZero, Int.floor_intCast, Int.ceil_intCast, ite_self]

theorem towardsZero_neg (q : ℚ) : towardsZero (-q) = -towardsZero q := by
  rcases le_total 0 q with hq | hq
  · rw [towardsZero_of_nonneg hq, towardsZero_of_nonpos (neg_nonpos.mpr hq), Int.ceil_neg]
  · rw [towardsZero_of_nonpos hq, towardsZero_of_nonneg (neg_nonneg.mpr hq), Int.floor_neg]

theorem towardsZero_le_towardsZero {p q : ℚ} (hle : p ≤ q) : towardsZero p ≤ towardsZero q := by
  rcases le_total 0 p with hp | hp
  · rw [towardsZero_of_nonneg hp, towardsZero_of_nonneg (hp.trans hle)]
    exact Int.floor_mono hle
  · rcases le_total 0 q with hq | hq
    · rw [towardsZero_of_nonpos hp, towardsZero_of_nonneg hq]
      exact (Int.ceil_nonpos.mpr hp).trans (Int.floor_nonneg.mpr hq)
    · rw [towardsZero_of_nonpos hp, towardsZero_of_nonpos hq]
      exact Int.ceil_mono hle

theorem abs_towardsZero_le (q : ℚ) : |(towardsZero q : ℚ)| ≤ |q| := by
  rcases le_total 0 q with hq | hq
  · have hfloor : (0 : ℚ) ≤ ⌊q⌋ := Int.cast_nonneg (Int.floor_nonneg.mpr hq)
    rw [towardsZero_of_nonneg hq, abs_of_nonneg hfloor, abs_of_nonneg hq]
    exact Int.floor_le q
  · have hceil : (⌈q⌉ : ℚ) ≤ 0 := Int.cast_nonpos.mpr (Int.ceil_nonpos.mpr hq)
    rw [towardsZero_of_nonpos hq, abs_of_nonpos hceil, abs_of_nonpos hq]
    exact neg_le_neg (Int.le_ceil q)

def extendedTowardsZero : WithBotTop ℚ → WithBotTop ℤ :=
  WithBot.map (WithTop.map towardsZero)

theorem extendedTowardsZero_coe (q : ℚ) :
    extendedTowardsZero (q : WithBotTop ℚ) = (towardsZero q : WithBotTop ℤ) :=
  rfl

theorem not_fitsSignificand_greatest : ¬FitsSignificand (2 ^ 63 - 1) := by
  rintro ⟨significand, scale, hsignificand, heq⟩
  cases scale with
  | zero => omega
  | succ scale =>
      rw [pow_succ _ scale, ← Nat.mul_assoc] at heq
      omega

theorem Magnitude.towardsZero_rational (x : Magnitude) :
    towardsZero x.rational = (x.units / unitsPerOne : Nat) := by
  rw [towardsZero_of_nonneg x.rational_nonneg, rational, Rat.floor_natCast_div_natCast,
    Int.natCast_ediv]

namespace Binary64

/-! The extended number that a number is. -/

/-- The rational number or infinity that a number is; the undefined number is none. -/
def extended? : Binary64 → Option (WithBotTop ℚ)
  | .nan => none
  | .infinity negative => some (if negative then ⊥ else ⊤)
  | .finite negative x => some ((if negative then -x.rational else x.rational : ℚ) : WithBotTop ℚ)

/-- The order of numbers.  The undefined number is comparable with none, and both zeros are alike. -/
instance : LE Binary64 where
  le x y := ∃ e f, x.extended? = some e ∧ y.extended? = some f ∧ e ≤ f

theorem exists_finite_of_rational? {x : Binary64} {q : ℚ} (h : x.rational? = some q) :
    ∃ negative magnitude, x = .finite negative magnitude ∧
      q = if negative then -magnitude.rational else magnitude.rational := by
  cases x with
  | nan => simp [rational?] at h
  | infinity negative => simp [rational?] at h
  | finite negative magnitude => exact ⟨negative, magnitude, rfl, (Option.some.inj h).symm⟩

theorem extended?_of_rational? {x : Binary64} {q : ℚ} (h : x.rational? = some q) :
    x.extended? = some (q : WithBotTop ℚ) := by
  obtain ⟨negative, magnitude, rfl, rfl⟩ := exists_finite_of_rational? h
  rfl

theorem exists_extended? {x : Binary64} (h : x ≠ .nan) : ∃ e, x.extended? = some e := by
  cases x with
  | nan => exact absurd rfl h
  | infinity negative => exact ⟨_, rfl⟩
  | finite negative x => exact ⟨_, rfl⟩

theorem rational?_neg {x : Binary64} {q : ℚ} (h : x.rational? = some q) :
    x.neg.rational? = some (-q) := by
  obtain ⟨negative, magnitude, rfl, rfl⟩ := exists_finite_of_rational? h
  cases negative <;> simp [neg, rational?]

/-! The narrowing. -/

theorem towardsZero_signed (negative : Bool) (x : Magnitude) :
    towardsZero (if negative then -x.rational else x.rational) =
      signed negative (x.units / Magnitude.unitsPerOne) := by
  cases negative with
  | false =>
      rw [if_neg Bool.false_ne_true, x.towardsZero_rational, signed, if_neg Bool.false_ne_true]
  | true => rw [if_pos rfl, towardsZero_neg, x.towardsZero_rational, signed, if_pos rfl]

theorem toLong_of_rational? {x : Binary64} {q : ℚ} (h : x.rational? = some q) :
    x.toLong = max (-2 ^ 63) (min (2 ^ 63 - 1) (towardsZero q)) := by
  obtain ⟨negative, magnitude, rfl, rfl⟩ := exists_finite_of_rational? h
  rw [toLong_finite, towardsZero_signed]

theorem coe_toLong {x : Binary64} {e : WithBotTop ℚ} (h : x.extended? = some e) :
    (x.toLong : WithBotTop ℤ) =
      max ((-2 ^ 63 : ℤ) : WithBotTop ℤ)
        (min ((2 ^ 63 - 1 : ℤ) : WithBotTop ℤ) (extendedTowardsZero e)) := by
  cases x with
  | nan => simp [extended?] at h
  | infinity negative =>
      obtain rfl := Option.some.inj h
      cases negative <;> rfl
  | finite negative x =>
      obtain rfl := Option.some.inj h
      have hcoe : Monotone (WithBotTop.coe : ℤ → WithBotTop ℤ) := WithBotTop.coe_monotone
      rw [toLong_of_rational? rfl, hcoe.map_max, hcoe.map_min, extendedTowardsZero_coe]

theorem toLong_of_abs_lt {x : Binary64} {q : ℚ} (h : x.rational? = some q) (hq : |q| < 2 ^ 63) :
    x.toLong = towardsZero q := by
  have habs : |towardsZero q| < 2 ^ 63 := by
    exact_mod_cast (abs_towardsZero_le q).trans_lt hq
  obtain ⟨hlower, hupper⟩ := abs_lt.mp habs
  rw [toLong_of_rational? h]
  omega

theorem toLong_neg {x : Binary64} {q : ℚ} (h : x.rational? = some q) (hq : |q| < 2 ^ 63) :
    x.neg.toLong = -x.toLong := by
  have hneg : |-q| < 2 ^ 63 := by rwa [abs_neg]
  rw [toLong_of_abs_lt (rational?_neg h) hneg, towardsZero_neg, toLong_of_abs_lt h hq]

theorem toLong_of_intCast {x : Binary64} {z : ℤ} (h : x.rational? = some ↑z)
    (hlower : -2 ^ 63 ≤ z) (hupper : z < 2 ^ 63) : x.toLong = z := by
  rw [toLong_of_rational? h, towardsZero_intCast]
  omega

theorem toLong_le_toLong {x y : Binary64} (h : x ≤ y) : x.toLong ≤ y.toLong := by
  obtain ⟨e, f, hx, hy, hle⟩ := h
  have hmono : Monotone towardsZero := fun _ _ => towardsZero_le_towardsZero
  have hparts : extendedTowardsZero e ≤ extendedTowardsZero f :=
    hmono.withTop_map.withBot_map hle
  rw [← WithBotTop.coe_le_coe, coe_toLong hx, coe_toLong hy]
  exact max_le_max le_rfl (min_le_min le_rfl hparts)

theorem toLong_eq_greatest_iff {x : Binary64} :
    x.toLong = 2 ^ 63 - 1 ↔ x.IsAtLeast (2 ^ 63) := by
  refine ⟨fun h => ?_, toLong_of_isAtLeast⟩
  by_contra hless
  have hfits := fitsSignificand_toLong hless
  rw [h] at hfits
  exact not_fitsSignificand_greatest hfits

/-- The narrowing is the integer part clamped between the bounds, for the infinities too, and zero
for the undefined number.  A narrowing that compares with the bounds first never cuts an infinity and
gives the same.  The greatest integer comes from what lies beyond it and from nothing else.  The order
and the bounds are kept, and between the bounds also opposites and integers. -/
theorem toLong_clamped_truncation :
    (∀ x : Binary64, x.guardedLong = .ok x.toLong) ∧
    toLong .nan = 0 ∧
    (∀ x : Binary64, x ≠ .nan → ∃ e, x.extended? = some e ∧
      (x.toLong : WithBotTop ℤ) =
        max ((-2 ^ 63 : ℤ) : WithBotTop ℤ)
          (min ((2 ^ 63 - 1 : ℤ) : WithBotTop ℤ) (extendedTowardsZero e))) ∧
    (∀ x : Binary64, x.toLong = 2 ^ 63 - 1 ↔ x.IsAtLeast (2 ^ 63)) ∧
    (∀ x y : Binary64, x ≤ y → x.toLong ≤ y.toLong) ∧
    (∀ x : Binary64, -2 ^ 63 ≤ x.toLong ∧ x.toLong ≤ 2 ^ 63 - 1) ∧
    (∀ (x : Binary64) (q : ℚ), x.rational? = some q → |q| < 2 ^ 63 →
      x.neg.toLong = -x.toLong) ∧
    ∀ (x : Binary64) (z : ℤ), x.rational? = some ↑z → -2 ^ 63 ≤ z → z < 2 ^ 63 → x.toLong = z := by
  refine ⟨guardedLong_eq, rfl, fun x hx => ?_, fun _ => toLong_eq_greatest_iff,
    fun _ _ => toLong_le_toLong, toLong_bounds, fun _ _ => toLong_neg, fun _ _ => toLong_of_intCast⟩
  obtain ⟨e, he⟩ := exists_extended? hx
  exact ⟨e, he, coe_toLong he⟩

theorem toLong_clamped_truncation_beside_bound :
    ofInt (2 ^ 63) ≠ .nan ∧ (ofInt (2 ^ 63)).toLong = 2 ^ 63 - 1 ∧
      ofInt (2 ^ 63 - 1024) ≤ ofInt (2 ^ 63) ∧
      (ofInt (2 ^ 63 - 1024)).toLong ≤ (ofInt (2 ^ 63)).toLong ∧
      (ofInt (2 ^ 63 - 1024)).neg.toLong = -(2 ^ 63 - 1024) ∧
      (ofInt (2 ^ 63 - 1024)).toLong = 2 ^ 63 - 1024 := by
  have hbelow : (ofInt (2 ^ 63 - 1024)).rational? = some ↑(2 ^ 63 - 1024 : ℤ) :=
    rational?_ofInt ⟨2 ^ 53 - 1, 10, by decide, by decide⟩ (by decide)
  have hbound : (ofInt (2 ^ 63)).rational? = some ↑(2 ^ 63 : ℤ) :=
    rational?_ofInt ⟨1, 63, by decide, by decide⟩ (by decide)
  have hle : ofInt (2 ^ 63 - 1024) ≤ ofInt (2 ^ 63) :=
    ⟨_, _, extended?_of_rational? hbelow, extended?_of_rational? hbound,
      WithBotTop.coe_le_coe.mpr (by norm_num)⟩
  obtain ⟨-, -, hclamped, -, hmono, -, hneg, hexact⟩ := toLong_clamped_truncation
  have hne : ofInt (2 ^ 63) ≠ .nan := by
    intro heq
    rw [heq] at hbound
    simp [rational?] at hbound
  have hvalue : (ofInt (2 ^ 63 - 1024)).toLong = 2 ^ 63 - 1024 :=
    hexact _ _ hbelow (by decide) (by decide)
  obtain ⟨e, he, hlong⟩ := hclamped _ hne
  rw [extended?_of_rational? hbound] at he
  obtain rfl := Option.some.inj he
  rw [extendedTowardsZero_coe, towardsZero_intCast] at hlong
  refine ⟨hne, WithBotTop.coe_injective hlong, hle, hmono _ _ hle, ?_, hvalue⟩
  rw [hneg _ _ hbelow (by norm_num [abs_lt]), hvalue]

/-- The number nearest to -3.9. -/
example : (ofBits 0xc00f333333333333).toLong = -3 := by
  decide +kernel

end Binary64

end ConfTree
