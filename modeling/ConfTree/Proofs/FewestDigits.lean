import ConfTree.Proofs.DecimalGrid

/-!
The shortest decimal has the fewest digits of all decimals that round to its magnitude, and none
with so few digits lies nearer.  A decimal on a finer grid has as few digits only if a power of ten
lies between the two, and then this power of ten rounds to the magnitude as well.
-/

namespace ConfTree

namespace Decimal

theorem value_ten_mul (coefficient : Nat) (exponent : ℤ) :
    (⟨10 * coefficient, exponent⟩ : Decimal).value =
      (⟨coefficient, exponent + 1⟩ : Decimal).value := by
  rw [value, value, zpow_add_one₀ (by norm_num), Nat.cast_mul, Nat.cast_ofNat]
  ring

theorem value_le_of_exponent_le (coefficient : Nat) {fine coarse : ℤ} (h : fine ≤ coarse) :
    (⟨coefficient, fine⟩ : Decimal).value ≤ (⟨coefficient, coarse⟩ : Decimal).value :=
  mul_le_mul_of_nonneg_left (zpow_le_zpow_right₀ (by norm_num) h) (Nat.cast_nonneg _)

end Decimal

namespace Magnitude

theorem coefficient_pos_of_mem {x : Magnitude} (hx : x.significand ≠ 0) {d : Decimal}
    (h : d.value ∈ x.interval) : 0 < d.coefficient := by
  rw [Nat.pos_iff_ne_zero]
  intro hzero
  rw [Decimal.value, hzero, Nat.cast_zero, zero_mul] at h
  exact zero_notMem_interval hx h

/-- A multiple of ten would be a point of the next coarser grid. -/
theorem not_ten_dvd_shortest {x : Magnitude} (hx : x.significand ≠ 0) :
    ¬10 ∣ x.shortest.coefficient := by
  rintro ⟨coefficient, hcoefficient⟩
  obtain ⟨hclosest, hmisses⟩ := shortest_spec hx
  apply hmisses coefficient
  rw [← Decimal.value_ten_mul, ← hcoefficient]
  exact hclosest.mem

theorem exponent_le_of_mem {x : Magnitude} (hx : x.significand ≠ 0) {other : Decimal}
    (h : other.value ∈ x.interval) : other.exponent ≤ x.shortest.exponent := by
  by_contra hgreater
  exact (shortest_spec hx).2.of_le (Int.lt_of_not_ge hgreater) other.coefficient h

theorem eq_zero_of_pow_mem {x : Magnitude} (hx : x.significand ≠ 0) {count : Nat}
    (h : (⟨10 ^ count, x.shortest.exponent⟩ : Decimal).value ∈ x.interval) : count = 0 := by
  cases count with
  | zero => rfl
  | succ count =>
      rw [pow_succ', Decimal.value_ten_mul] at h
      exact absurd h ((shortest_spec hx).2 _)

theorem shortest_lt_pow {x : Magnitude} (hx : x.significand ≠ 0) {other : Decimal} {count : Nat}
    (hother : other.coefficient < 10 ^ count) (hmem : other.value ∈ x.interval) :
    x.shortest.coefficient < 10 ^ count := by
  by_contra hge
  have hpos := coefficient_pos_of_mem hx hmem
  have hbetween : (⟨10 ^ count, x.shortest.exponent⟩ : Decimal).value ∈ x.interval := by
    refine x.ordConnected_interval.out hmem (shortest_spec hx).1.mem ⟨?_, ?_⟩
    · calc other.value ≤ (⟨10 ^ count, other.exponent⟩ : Decimal).value :=
            Decimal.value_le_value_iff.mpr hother.le
        _ ≤ (⟨10 ^ count, x.shortest.exponent⟩ : Decimal).value :=
            Decimal.value_le_of_exponent_le _ (exponent_le_of_mem hx hmem)
    · exact Decimal.value_le_value_iff.mpr (Nat.le_of_not_lt hge)
  rw [eq_zero_of_pow_mem hx hbetween, pow_zero] at hother
  omega

/-! A power of ten and nine tenths of it round to one magnitude only among the least ones. -/

theorem upper_sub_lower_le (x : Magnitude) : x.upper - x.lower ≤ 2 ^ x.scale / unitsPerOne := by
  have hends : x.upperEnd ≤ x.lowerEnd + 4 * 2 ^ x.scale := by
    rw [upperEnd_eq, lowerEnd_eq, ← Nat.add_mul]
    apply Nat.mul_le_mul_right
    split <;> omega
  have hcast : (x.upperEnd : ℚ) ≤ x.lowerEnd + 4 * 2 ^ x.scale := by exact_mod_cast hends
  have hone := cast_unitsPerOne_pos
  have hscaled := mul_le_mul_of_nonneg_right hcast hone.le
  rw [upper, lower, ← sub_div, div_le_div_iff₀ (mul_pos (by norm_num) hone) hone]
  linarith

theorem scale_eq_zero_of_steps {x : Magnitude} {step : ℚ} (hwidth : step ≤ x.upper - x.lower)
    (hlt : x.rational < 10 * step) : x.scale = 0 := by
  have hone := cast_unitsPerOne_pos
  have hpower : (0 : ℚ) < 2 ^ x.scale := by positivity
  have hstep := hwidth.trans x.upper_sub_lower_le
  have hless : x.rational < 10 * (2 ^ x.scale / unitsPerOne) := hlt.trans_le (by linarith)
  rw [rational, ← mul_div_assoc, div_lt_div_iff_of_pos_right hone, units_eq, Nat.cast_mul,
    Nat.cast_pow, Nat.cast_ofNat, mul_lt_mul_iff_left₀ hpower] at hless
  have hsignificand : x.significand < 10 := by exact_mod_cast hless
  exact x.canonical.resolve_right (by omega)

theorem unitsPerOne_bounds :
    (3 * 10 ^ 324 : ℚ) < 20 * unitsPerOne ∧ (19 * unitsPerOne : ℚ) ≤ 4 * 10 ^ 324 := by
  have hlower : 3 * 10 ^ 324 < 20 * unitsPerOne := by decide +kernel
  have hupper : 19 * unitsPerOne ≤ 4 * 10 ^ 324 := by decide +kernel
  exact ⟨by exact_mod_cast hlower, by exact_mod_cast hupper⟩

theorem ten_zpow_least : (10 : ℚ) ^ (-324 : ℤ) = 1 / 10 ^ 324 := by
  rw [zpow_neg, one_div]
  rfl

theorem eq_of_step_bounds {exponent : ℤ} (hle : (10 : ℚ) ^ exponent ≤ 1 / unitsPerOne)
    (hlt : (1 / unitsPerOne : ℚ) < 10 * 10 ^ exponent) : exponent = -324 := by
  obtain ⟨hlower, hupper⟩ := unitsPerOne_bounds
  have hone := cast_unitsPerOne_pos
  have hpower : (0 : ℚ) < 10 ^ 324 := by positivity
  have hbase := ten_zpow_least
  generalize (10 : ℚ) ^ 324 = power at *
  apply le_antisymm
  · by_contra hgreater
    have hmono : (10 : ℚ) ^ (-324 + 1 : ℤ) ≤ 10 ^ exponent :=
      zpow_le_zpow_right₀ (by norm_num) (by omega)
    rw [zpow_add_one₀ (by norm_num), hbase] at hmono
    have hchain := hmono.trans hle
    rw [div_mul_eq_mul_div, div_le_div_iff₀ hpower hone] at hchain
    linarith
  · by_contra hless
    have hmono : (10 : ℚ) ^ (exponent + 1) ≤ 10 ^ (-324 : ℤ) :=
      zpow_le_zpow_right₀ (by norm_num) (by omega)
    rw [zpow_add_one₀ (by norm_num), mul_comm, hbase] at hmono
    have hchain := hlt.trans_le hmono
    rw [div_lt_div_iff₀ hone hpower] at hchain
    linarith

/-- A power of ten and nine tenths of it round both to a magnitude below them only if this is two
units, which are nearly the power of ten. -/
theorem nineteen_le {x : Magnitude} (hx : x.significand ≠ 0) {exponent : ℤ}
    (hnine : (⟨9, exponent⟩ : Decimal).value ∈ x.interval)
    (hten : (⟨10, exponent⟩ : Decimal).value ∈ x.interval)
    (hlt : x.rational < (⟨10, exponent⟩ : Decimal).value) :
    (⟨19, exponent⟩ : Decimal).value ≤ 2 * x.rational := by
  have hvalue (coefficient : Nat) :
      (⟨coefficient, exponent⟩ : Decimal).value = coefficient * 10 ^ exponent := rfl
  have hone := cast_unitsPerOne_pos
  have hlower := (mem_interval_bounds hnine).1
  have hupper := (mem_interval_bounds hten).2
  rw [hvalue] at hlower hupper hlt ⊢
  push_cast at hlower hupper hlt ⊢
  have hwidth : (10 : ℚ) ^ exponent ≤ x.upper - x.lower := by linarith
  have hscale := scale_eq_zero_of_steps hwidth hlt
  have hstep := hwidth.trans x.upper_sub_lower_le
  rw [hscale, pow_zero] at hstep
  have hunits : x.rational = x.significand / unitsPerOne := by
    rw [rational, units_eq, hscale, pow_zero, Nat.mul_one]
  have hleast : (1 / unitsPerOne : ℚ) ≤ x.rational := by
    rw [hunits, div_le_div_iff_of_pos_right hone]
    exact_mod_cast Nat.one_le_iff_ne_zero.mpr hx
  obtain rfl := eq_of_step_bounds hstep (hleast.trans_lt hlt)
  have hend : x.upper = (4 * x.significand + 2) / (4 * unitsPerOne) := by
    rw [upper, upperEnd_eq, hscale, pow_zero, Nat.mul_one]
    push_cast
    rfl
  obtain ⟨hless, hgreater⟩ := unitsPerOne_bounds
  have hpower : (0 : ℚ) < 10 ^ 324 := by positivity
  rw [ten_zpow_least, hend, mul_one_div,
    div_le_div_iff₀ hpower (mul_pos (by norm_num) hone)] at hupper
  rw [ten_zpow_least, hunits, mul_one_div, ← mul_div_assoc, div_le_div_iff₀ hpower hone]
  generalize (10 : ℚ) ^ 324 = power at *
  have htwo : (2 : ℚ) ≤ x.significand := by
    by_contra hsmall
    have hsignificand : x.significand = 1 := by
      have hcast : x.significand < 2 := by exact_mod_cast not_le.mp hsmall
      omega
    rw [hsignificand, Nat.cast_one] at hupper
    linarith
  have hscaled := mul_le_mul_of_nonneg_right htwo hpower.le
  linarith

/-- A power of ten lies no farther from a magnitude than anything up to nine tenths of it, if both
round to the magnitude. -/
theorem abs_ten_sub_le {x : Magnitude} (hx : x.significand ≠ 0) {q : ℚ} {exponent : ℤ}
    (hmem : q ∈ x.interval) (hnine : q ≤ (⟨9, exponent⟩ : Decimal).value)
    (hten : (⟨10, exponent⟩ : Decimal).value ∈ x.interval) :
    |(⟨10, exponent⟩ : Decimal).value - x.rational| ≤ |q - x.rational| := by
  have hless : (⟨9, exponent⟩ : Decimal).value ≤ (⟨10, exponent⟩ : Decimal).value :=
    Decimal.value_le_value_iff.mpr (by decide)
  rcases le_or_gt (⟨10, exponent⟩ : Decimal).value x.rational with hle | hlt
  · rw [abs_of_nonpos (by linarith), abs_of_nonpos (by linarith)]
    linarith
  · have hmean : (⟨19, exponent⟩ : Decimal).value =
        (⟨9, exponent⟩ : Decimal).value + (⟨10, exponent⟩ : Decimal).value := by
      rw [Decimal.value, Decimal.value, Decimal.value, ← add_mul]
      norm_num
    have hmemNine : (⟨9, exponent⟩ : Decimal).value ∈ x.interval :=
      x.ordConnected_interval.out hmem hten ⟨hnine, hless⟩
    have hnear := nineteen_le hx hmemNine hten hlt
    rw [abs_of_nonneg (by linarith), abs_of_nonpos (by linarith)]
    linarith

theorem abs_shortest_sub_le {x : Magnitude} (hx : x.significand ≠ 0) {other : Decimal}
    {count : Nat} (hother : other.coefficient < 10 ^ count)
    (hcount : 10 ^ (count - 1) ≤ x.shortest.coefficient) (hmem : other.value ∈ x.interval) :
    |x.shortest.value - x.rational| ≤ |other.value - x.rational| := by
  obtain ⟨hclosest, -⟩ := shortest_spec hx
  rcases le_or_gt x.shortest.exponent other.exponent with hcoarse | hfine
  · have hsame := Decimal.value_eq_of_le other.coefficient hcoarse
    rw [hsame] at hmem ⊢
    exact hclosest.le _ hmem
  · have hpos := coefficient_pos_of_mem hx hmem
    obtain ⟨digits, rfl⟩ : ∃ digits, count = digits + 1 := by
      apply Nat.exists_eq_succ_of_ne_zero
      rintro rfl
      rw [pow_zero] at hother
      omega
    have hunit (coefficient : Nat) :
        (⟨10 * coefficient, x.shortest.exponent - 1⟩ : Decimal).value =
          (⟨coefficient, x.shortest.exponent⟩ : Decimal).value := by
      rw [Decimal.value_ten_mul, Int.sub_add_cancel]
    have hbelow : other.value ≤
        (⟨other.coefficient, x.shortest.exponent - 1⟩ : Decimal).value :=
      Decimal.value_le_of_exponent_le _ (by omega)
    -- a power of ten lies between a decimal of a finer grid and the shortest one
    have hpower : (⟨10 ^ digits, x.shortest.exponent⟩ : Decimal).value ∈ x.interval := by
      refine x.ordConnected_interval.out hmem hclosest.mem
        ⟨hbelow.trans ?_, Decimal.value_le_value_iff.mpr hcount⟩
      rw [← hunit, Decimal.value_le_value_iff, ← pow_succ']
      exact hother.le
    obtain rfl := eq_zero_of_pow_mem hx hpower
    have hnine : other.value ≤ (⟨9, x.shortest.exponent - 1⟩ : Decimal).value :=
      hbelow.trans (Decimal.value_le_value_iff.mpr (Nat.le_of_lt_succ hother))
    have hten : (⟨10, x.shortest.exponent - 1⟩ : Decimal).value =
        (⟨1, x.shortest.exponent⟩ : Decimal).value := hunit 1
    rw [pow_zero] at hpower
    have hcloser := hclosest.le 1 hpower
    rw [← hten] at hpower hcloser
    exact hcloser.trans (abs_ten_sub_le hx hmem hnine hpower)

end Magnitude

end ConfTree
