import ConfTree.Proofs.RoundingInterval
import Mathlib.Algebra.Order.Field.Rat
import Mathlib.Algebra.Order.Ring.Abs
import Mathlib.Algebra.Order.Ring.Cast
import Mathlib.Order.Interval.Set.OrdConnected
import Mathlib.Tactic.FieldSimp
import Mathlib.Tactic.NormNum

namespace ConfTree

namespace Magnitude

def rational (x : Magnitude) : ℚ :=
  x.units / unitsPerOne

/-- No magnitude lies nearer to a number, and where another one lies equally near, the significand
is even. -/
def IsNearest (x : Magnitude) (q : ℚ) : Prop :=
  ∀ y : Magnitude, |x.rational - q| ≤ |y.rational - q| ∧
    (|x.rational - q| = |y.rational - q| → y ≠ x → x.significand % 2 = 0)

def greatest : Magnitude :=
  ⟨2 ^ 53 - 1, 2045, by decide, by decide, .inr (by decide)⟩

/-! Neighbours. -/

theorem two_pow_le {scale other : Nat} (h : scale < other) : 2 * 2 ^ scale ≤ 2 ^ other := by
  have hpow : 2 ^ (scale + 1) ≤ 2 ^ other := Nat.pow_le_pow_right (by decide) h
  rw [Nat.pow_succ] at hpow
  omega

theorem exists_units_eq_mul {x y : Magnitude} (h : x.scale ≤ y.scale) :
    ∃ count, y.significand ≤ count ∧ y.units = count * 2 ^ x.scale := by
  refine ⟨y.significand * 2 ^ (y.scale - x.scale),
    Nat.le_mul_of_pos_right _ (Nat.two_pow_pos _), ?_⟩
  rw [units_eq, Nat.mul_assoc, ← Nat.pow_add, Nat.sub_add_cancel h]

theorem two_mul_units_le {x y : Magnitude} (h : y.scale < x.scale) :
    2 * y.units ≤ (2 ^ 53 - 1) * 2 ^ x.scale := by
  have hy : y.significand ≤ 2 ^ 53 - 1 := Nat.le_sub_one_of_lt y.significand_lt
  calc 2 * y.units = y.significand * (2 * 2 ^ y.scale) := by
        rw [units_eq]
        ring
    _ ≤ (2 ^ 53 - 1) * 2 ^ x.scale := Nat.mul_le_mul hy (two_pow_le h)

theorem add_units_le_lowerEnd {x y : Magnitude} (h : y.units < x.units) :
    2 * (y.units + x.units) ≤ x.lowerEnd := by
  have hpos : 0 < 2 ^ x.scale := Nat.two_pow_pos _
  rw [lowerEnd_eq]
  rcases Nat.lt_or_ge y.scale x.scale with hscale | hscale
  · have hsignificand : 1 <<< 52 ≤ x.significand := x.canonical.resolve_left (by omega)
    have hfactor : 2 ^ 53 - 1 + 2 * x.significand ≤
        4 * x.significand - if x.IsNarrowBelow then 1 else 2 := by
      by_cases hnarrow : x.IsNarrowBelow
      · rw [if_pos hnarrow]
        omega
      · have hne : x.significand ≠ 1 <<< 52 := fun heq => hnarrow ⟨heq, by omega⟩
        rw [if_neg hnarrow]
        omega
    have hy := two_mul_units_le hscale
    calc 2 * (y.units + x.units)
        = 2 * y.units + 2 * x.units := Nat.mul_add _ _ _
      _ ≤ (2 ^ 53 - 1) * 2 ^ x.scale + 2 * x.units := Nat.add_le_add_right hy _
      _ = (2 ^ 53 - 1 + 2 * x.significand) * 2 ^ x.scale := by
          rw [units_eq]
          ring
      _ ≤ _ := Nat.mul_le_mul_right _ hfactor
  · obtain ⟨count, hcount, hunits⟩ := exists_units_eq_mul hscale
    rw [hunits, units_eq x, Nat.mul_lt_mul_right hpos] at h
    have hnarrow : ¬x.IsNarrowBelow := by
      rintro ⟨hsignificand, hpositive⟩
      have hy : 1 <<< 52 ≤ y.significand := y.canonical.resolve_left (by omega)
      omega
    rw [if_neg hnarrow]
    calc 2 * (y.units + x.units) = (2 * (count + x.significand)) * 2 ^ x.scale := by
          rw [hunits, units_eq x]
          ring
      _ ≤ (4 * x.significand - 2) * 2 ^ x.scale := Nat.mul_le_mul_right _ (by omega)

theorem upperEnd_le_add_units {x y : Magnitude} (h : x.units < y.units) :
    x.upperEnd ≤ 2 * (x.units + y.units) := by
  have hpos : 0 < 2 ^ x.scale := Nat.two_pow_pos _
  have hscale : x.scale ≤ y.scale := by
    by_contra hless
    have hsignificand : 1 <<< 52 ≤ x.significand := x.canonical.resolve_left (by omega)
    have hy := two_mul_units_le (Nat.lt_of_not_le hless)
    have hx : (2 ^ 53 - 1) * 2 ^ x.scale ≤ 2 * x.units := by
      calc (2 ^ 53 - 1) * 2 ^ x.scale ≤ (2 * x.significand) * 2 ^ x.scale :=
            Nat.mul_le_mul_right _ (by omega)
        _ = 2 * x.units := by rw [units_eq, Nat.mul_assoc]
    omega
  obtain ⟨count, -, hunits⟩ := exists_units_eq_mul hscale
  rw [hunits, units_eq x, Nat.mul_lt_mul_right hpos] at h
  calc x.upperEnd = (4 * x.significand + 2) * 2 ^ x.scale := upperEnd_eq x
    _ ≤ (2 * (x.significand + count)) * 2 ^ x.scale := Nat.mul_le_mul_right _ (by omega)
    _ = 2 * (x.units + y.units) := by
        rw [hunits, units_eq x]
        ring

theorem eq_of_units_eq {x y : Magnitude} (h : x.units = y.units) : x = y := by
  rcases Nat.eq_zero_or_pos x.significand with hx | hx
  · have hzero : y.significand = 0 := by
      rw [units_eq, units_eq, hx, Nat.zero_mul, eq_comm, Nat.mul_eq_zero] at h
      exact h.resolve_right (Nat.two_pow_pos _).ne'
    have hxscale : x.scale = 0 := x.canonical.resolve_right (by omega)
    have hyscale : y.scale = 0 := y.canonical.resolve_right (by omega)
    rcases x with ⟨_, _, _, _, _⟩
    rcases y with ⟨_, _, _, _, _⟩
    simp only [Magnitude.mk.injEq]
    exact ⟨hx.trans hzero.symm, hxscale.trans hyscale.symm⟩
  · have hy : y.significand ≠ 0 := by
      intro hy
      rw [units_eq, units_eq, hy, Nat.zero_mul, Nat.mul_eq_zero] at h
      exact h.elim (by omega) (Nat.two_pow_pos _).ne'
    have hxholds : x.Holds x.units 1 := holds_of_exact (by omega) (by decide) (Nat.mul_one _).symm
    have hyholds : y.Holds y.units 1 := holds_of_exact hy (by decide) (Nat.mul_one _).symm
    exact hxholds.eq hyholds (by decide) (by decide) (by rw [h])

theorem exists_below {x : Magnitude} (hx : x.significand ≠ 0) :
    ∃ y : Magnitude, y ≠ x ∧ 2 * (y.units + x.units) = x.lowerEnd := by
  by_cases hnarrow : x.IsNarrowBelow
  · obtain ⟨hsignificand, hscale⟩ := hnarrow
    have hle := x.scale_le
    refine ⟨⟨2 ^ 53 - 1, x.scale - 1, by decide, by omega, .inr (by decide)⟩, ?_, ?_⟩
    · intro heq
      have := congrArg Magnitude.scale heq
      dsimp only at this
      omega
    · have hpow : 2 ^ x.scale = 2 ^ (x.scale - 1) * 2 := by
        rw [← pow_succ, Nat.sub_add_cancel hscale]
      rw [lowerEnd_eq, if_pos ⟨hsignificand, hscale⟩, units_eq, units_eq x]
      dsimp only
      rw [hsignificand, hpow, Nat.one_shiftLeft]
      omega
  · have hcanonical : x.scale = 0 ∨ 1 <<< 52 ≤ x.significand - 1 := by
      rcases Nat.eq_zero_or_pos x.scale with hzero | hpos
      · exact .inl hzero
      · have hle := x.canonical.resolve_left hpos.ne'
        have hne : x.significand ≠ 1 <<< 52 := fun heq => hnarrow ⟨heq, hpos⟩
        exact .inr (by omega)
    have hlt := x.significand_lt
    refine ⟨⟨x.significand - 1, x.scale, by omega, x.scale_le, hcanonical⟩, ?_, ?_⟩
    · intro heq
      have := congrArg Magnitude.significand heq
      dsimp only at this
      omega
    · rw [lowerEnd_eq, if_neg hnarrow, units_eq, units_eq, ← Nat.add_mul, ← Nat.mul_assoc]
      congr 1
      dsimp only
      omega

theorem exists_above {x : Magnitude} (hx : x ≠ greatest) :
    ∃ y : Magnitude, y ≠ x ∧ 2 * (x.units + y.units) = x.upperEnd := by
  have hlt := x.significand_lt
  have hle := x.scale_le
  by_cases htop : x.significand = 2 ^ 53 - 1
  · have hscale : x.scale + 1 ≤ 2045 := by
      by_contra hgreater
      apply hx
      rcases x with ⟨significand, scale, _, _, _⟩
      simp only [greatest, Magnitude.mk.injEq]
      exact ⟨htop, by simp only at hle hgreater; omega⟩
    refine ⟨⟨1 <<< 52, x.scale + 1, by decide, hscale, .inr (Nat.le_refl _)⟩, ?_, ?_⟩
    · intro heq
      have := congrArg Magnitude.scale heq
      dsimp only at this
      omega
    · have hpow : 2 ^ (x.scale + 1) = 2 ^ x.scale * 2 := pow_succ 2 x.scale
      rw [upperEnd_eq, units_eq x, units_eq]
      dsimp only
      rw [htop, hpow]
      omega
  · refine ⟨⟨x.significand + 1, x.scale, by omega, hle, ?_⟩, ?_, ?_⟩
    · exact x.canonical.imp id fun h => Nat.le_succ_of_le h
    · intro heq
      have := congrArg Magnitude.significand heq
      dsimp only at this
      omega
    · rw [upperEnd_eq, units_eq, units_eq, ← Nat.add_mul, ← Nat.mul_assoc]
      congr 1
      dsimp only
      omega

/-! The rounding intervals as sets of rational numbers. -/

def lower (x : Magnitude) : ℚ :=
  x.lowerEnd / (4 * unitsPerOne)

def upper (x : Magnitude) : ℚ :=
  x.upperEnd / (4 * unitsPerOne)

/-- The rounding interval.  Its ends belong to the even significands. -/
def interval (x : Magnitude) : Set ℚ :=
  if x.significand % 2 = 0 then Set.Icc x.lower x.upper else Set.Ioo x.lower x.upper

theorem ordConnected_interval (x : Magnitude) : x.interval.OrdConnected := by
  unfold interval
  split
  · exact Set.ordConnected_Icc
  · exact Set.ordConnected_Ioo

theorem mem_interval_bounds {x : Magnitude} {q : ℚ} (h : q ∈ x.interval) :
    x.lower ≤ q ∧ q ≤ x.upper := by
  unfold interval at h
  split at h
  · exact h
  · exact ⟨h.1.le, h.2.le⟩

theorem even_of_mem_interval {x : Magnitude} {q : ℚ} (h : q ∈ x.interval)
    (heq : x.lower = q ∨ q = x.upper) : x.significand % 2 = 0 := by
  unfold interval at h
  split at h
  · assumption
  · exact heq.elim (fun heq => absurd heq h.1.ne) fun heq => absurd heq h.2.ne

theorem mem_interval_of_bounds {x : Magnitude} {q : ℚ} (hlower : x.lower ≤ q)
    (hupper : q ≤ x.upper) (heven : x.lower = q ∨ q = x.upper → x.significand % 2 = 0) :
    q ∈ x.interval := by
  unfold interval
  split
  · exact ⟨hlower, hupper⟩
  · rename_i hodd
    exact ⟨lt_of_le_of_ne hlower fun heq => hodd (heven (.inl heq)),
      lt_of_le_of_ne hupper fun heq => hodd (heven (.inr heq))⟩

theorem cast_unitsPerOne_pos : (0 : ℚ) < unitsPerOne :=
  Nat.cast_pos.mpr unitsPerOne_pos

theorem quarters_le_div_iff {quarters numerator denominator : Nat}
    (hdenominator : 0 < denominator) :
    (quarters / (4 * unitsPerOne) : ℚ) ≤ numerator / (denominator * unitsPerOne) ↔
      quarters * denominator ≤ 4 * numerator := by
  have hone := cast_unitsPerOne_pos
  have hcast : (0 : ℚ) < denominator := Nat.cast_pos.mpr hdenominator
  rw [div_le_div_iff₀ (mul_pos (by norm_num) hone) (mul_pos hcast hone), ← mul_assoc, ← mul_assoc,
    mul_le_mul_iff_left₀ hone, mul_comm (numerator : ℚ)]
  exact_mod_cast Iff.rfl

theorem div_le_quarters_iff {quarters numerator denominator : Nat}
    (hdenominator : 0 < denominator) :
    (numerator / (denominator * unitsPerOne) : ℚ) ≤ quarters / (4 * unitsPerOne) ↔
      4 * numerator ≤ quarters * denominator := by
  have hone := cast_unitsPerOne_pos
  have hcast : (0 : ℚ) < denominator := Nat.cast_pos.mpr hdenominator
  rw [div_le_div_iff₀ (mul_pos hcast hone) (mul_pos (by norm_num) hone), ← mul_assoc, ← mul_assoc,
    mul_le_mul_iff_left₀ hone, mul_comm (numerator : ℚ)]
  exact_mod_cast Iff.rfl

theorem mem_interval_iff_holds {x : Magnitude} {numerator denominator : Nat}
    (hdenominator : 0 < denominator) :
    (numerator / (denominator * unitsPerOne) : ℚ) ∈ x.interval ↔ x.Holds numerator denominator := by
  unfold interval Holds
  split
  · rw [Set.mem_Icc, lower, upper, quarters_le_div_iff hdenominator,
      div_le_quarters_iff hdenominator]
  · rw [Set.mem_Ioo, lower, upper, ← not_le, ← not_le, quarters_le_div_iff hdenominator,
      div_le_quarters_iff hdenominator, not_le, not_le]

theorem rational_eq_quarters (x : Magnitude) :
    x.rational = (4 * x.units : Nat) / (4 * unitsPerOne) := by
  rw [rational, Nat.cast_mul, Nat.cast_ofNat, mul_div_mul_left _ _ (by norm_num)]

theorem rational_lt_rational_iff {x y : Magnitude} :
    x.rational < y.rational ↔ x.units < y.units := by
  rw [rational, rational, div_lt_div_iff_of_pos_right cast_unitsPerOne_pos, Nat.cast_lt]

theorem rational_injective {x y : Magnitude} (h : x.rational = y.rational) : x = y := by
  apply eq_of_units_eq
  rw [rational, rational, div_left_inj' cast_unitsPerOne_pos.ne', Nat.cast_inj] at h
  exact h

theorem rational_nonneg (x : Magnitude) : 0 ≤ x.rational :=
  div_nonneg (Nat.cast_nonneg _) cast_unitsPerOne_pos.le

theorem rational_of_zero {x : Magnitude} (hx : x.significand = 0) : x.rational = 0 := by
  rw [rational, units_eq, hx, Nat.zero_mul, Nat.cast_zero, zero_div]

theorem rational_zero : zero.rational = 0 :=
  rational_of_zero rfl

theorem add_rational_eq (x y : Magnitude) :
    x.rational + y.rational = 2 * ((2 * (x.units + y.units) : Nat) / (4 * unitsPerOne)) := by
  have hone := cast_unitsPerOne_pos.ne'
  rw [rational, rational]
  push_cast
  field_simp
  norm_num

theorem quarters_le_quarters_iff {first second : Nat} :
    (first / (4 * unitsPerOne) : ℚ) ≤ second / (4 * unitsPerOne) ↔ first ≤ second := by
  rw [div_le_div_iff_of_pos_right (mul_pos (by norm_num) cast_unitsPerOne_pos), Nat.cast_le]

theorem add_rational_le_lower {x y : Magnitude} (h : y.rational < x.rational) :
    y.rational + x.rational ≤ 2 * x.lower := by
  rw [add_rational_eq, lower]
  exact mul_le_mul_of_nonneg_left (quarters_le_quarters_iff.mpr
    (add_units_le_lowerEnd (rational_lt_rational_iff.mp h))) (by norm_num)

theorem upper_le_add_rational {x y : Magnitude} (h : x.rational < y.rational) :
    2 * x.upper ≤ x.rational + y.rational := by
  rw [add_rational_eq, upper]
  exact mul_le_mul_of_nonneg_left (quarters_le_quarters_iff.mpr
    (upperEnd_le_add_units (rational_lt_rational_iff.mp h))) (by norm_num)

theorem rational_lt_upper (x : Magnitude) : x.rational < x.upper := by
  rw [rational_eq_quarters, upper, ← not_le, quarters_le_quarters_iff, not_le, upperEnd_eq,
    units_eq, ← Nat.mul_assoc]
  exact Nat.mul_lt_mul_of_pos_right (by omega) (Nat.two_pow_pos _)

theorem lower_lt_rational {x : Magnitude} (hx : x.significand ≠ 0) : x.lower < x.rational := by
  have hends : (4 * x.significand - if x.IsNarrowBelow then 1 else 2) < 4 * x.significand := by
    split <;> omega
  rw [rational_eq_quarters, lower, ← not_le, quarters_le_quarters_iff, not_le, lowerEnd_eq,
    units_eq, ← Nat.mul_assoc]
  exact Nat.mul_lt_mul_of_pos_right hends (Nat.two_pow_pos _)

theorem lower_le_rational (x : Magnitude) : x.lower ≤ x.rational := by
  rw [rational_eq_quarters, lower, quarters_le_quarters_iff, lowerEnd_eq, units_eq, ← Nat.mul_assoc]
  exact Nat.mul_le_mul_right _ (Nat.sub_le _ _)

/-! The interval of a magnitude holds the numbers that lie nearest to the magnitude. -/

theorem abs_sub_le_abs_sub_of_lt {a b q : ℚ} (h : b < a) : |a - q| ≤ |b - q| ↔ a + b ≤ 2 * q := by
  rw [← sq_le_sq]
  constructor
  · intro hsquare
    nlinarith
  · intro hsum
    nlinarith

theorem abs_sub_le_abs_sub_of_gt {a b q : ℚ} (h : a < b) : |a - q| ≤ |b - q| ↔ 2 * q ≤ a + b := by
  rw [← sq_le_sq]
  constructor
  · intro hsquare
    nlinarith
  · intro hsum
    nlinarith

theorem abs_sub_eq_abs_sub_iff {a b q : ℚ} (h : a ≠ b) : |a - q| = |b - q| ↔ a + b = 2 * q := by
  rw [abs_eq_abs]
  constructor
  · rintro (hsame | hopposite)
    · exact absurd (sub_left_injective hsame) h
    · linarith
  · intro hsum
    exact .inr (by linarith)

theorem isNearest_of_mem_interval {x : Magnitude} {q : ℚ} (h : q ∈ x.interval) :
    x.IsNearest q := by
  obtain ⟨hlower, hupper⟩ := mem_interval_bounds h
  intro y
  rcases lt_trichotomy y.rational x.rational with hlt | heq | hgt
  · have hmean := add_rational_le_lower hlt
    refine ⟨(abs_sub_le_abs_sub_of_lt hlt).mpr (by linarith), fun htie _ => ?_⟩
    have htie := (abs_sub_eq_abs_sub_iff hlt.ne').mp htie
    exact even_of_mem_interval h (.inl (by linarith))
  · obtain rfl := rational_injective heq
    exact ⟨le_refl _, fun _ hne => absurd rfl hne⟩
  · have hmean := upper_le_add_rational hgt
    refine ⟨(abs_sub_le_abs_sub_of_gt hgt).mpr (by linarith), fun htie _ => ?_⟩
    have htie := (abs_sub_eq_abs_sub_iff hgt.ne).mp htie
    exact even_of_mem_interval h (.inr (by linarith))

theorem lower_le_of_isNearest {x : Magnitude} {q : ℚ} (h : x.IsNearest q) (hq : 0 ≤ q) :
    x.lower ≤ q ∧ (x.lower = q → x.significand % 2 = 0) := by
  by_cases hx : x.significand = 0
  · refine ⟨?_, fun _ => by rw [hx]⟩
    rw [lower, lowerEnd_eq, hx, Nat.mul_zero, Nat.zero_sub, Nat.zero_mul, Nat.cast_zero, zero_div]
    exact hq
  · obtain ⟨y, hne, hmean⟩ := exists_below hx
    have hmean : x.rational + y.rational = 2 * x.lower := by
      rw [add_rational_eq, lower, ← hmean, Nat.add_comm]
    have hlt : y.rational < x.rational := by linarith [lower_lt_rational hx]
    have hle := (abs_sub_le_abs_sub_of_lt hlt).mp (h y).1
    exact ⟨by linarith, fun heq =>
      (h y).2 ((abs_sub_eq_abs_sub_iff hlt.ne').mpr (by linarith)) hne⟩

theorem le_upper_of_isNearest {x : Magnitude} {q : ℚ} (h : x.IsNearest q)
    (hq : q < greatest.upper) : q ≤ x.upper ∧ (q = x.upper → x.significand % 2 = 0) := by
  by_cases hx : x = greatest
  · rw [hx]
    exact ⟨hq.le, fun heq => absurd heq hq.ne⟩
  · obtain ⟨y, hne, hmean⟩ := exists_above hx
    have hmean : x.rational + y.rational = 2 * x.upper := by
      rw [add_rational_eq, upper, ← hmean]
    have hlt : x.rational < y.rational := by linarith [rational_lt_upper x]
    have hle := (abs_sub_le_abs_sub_of_gt hlt).mp (h y).1
    exact ⟨by linarith, fun heq =>
      (h y).2 ((abs_sub_eq_abs_sub_iff hlt.ne).mpr (by linarith)) hne⟩

/-- Below the overflow the nearest magnitude is the one whose interval holds the number. -/
theorem mem_interval_of_isNearest {x : Magnitude} {q : ℚ} (h : x.IsNearest q) (hq : 0 ≤ q)
    (hoverflow : q < greatest.upper) : q ∈ x.interval := by
  obtain ⟨hlower, hlowerEven⟩ := lower_le_of_isNearest h hq
  obtain ⟨hupper, hupperEven⟩ := le_upper_of_isNearest h hoverflow
  exact mem_interval_of_bounds hlower hupper fun heq => heq.elim hlowerEven hupperEven

end Magnitude

end ConfTree
