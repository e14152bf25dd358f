import ConfTree.Proofs.FaithfulText
import ConfTree.Proofs.RoundedLiteral

namespace ConfTree

namespace Decimal

theorem value_one (exponent : ℤ) : (⟨1, exponent⟩ : Decimal).value = 10 ^ exponent := by
  rw [value, Nat.cast_one, one_mul]

theorem le_leadingExponent_iff {d : Decimal} (h : 0 < d.coefficient) {exponent : ℤ} :
    exponent ≤ d.leadingExponent ↔ (⟨1, exponent⟩ : Decimal).value ≤ d.value := by
  have hten : (1 : ℚ) < 10 := by norm_num
  obtain ⟨hlower, hupper⟩ := leadingExponent_bounds h
  rw [value_one]
  constructor
  · intro hle
    exact (zpow_le_zpow_right₀ hten.le hle).trans hlower
  · intro hle
    have hless : exponent < d.leadingExponent + 1 :=
      (zpow_lt_zpow_iff_right₀ hten).mp (hle.trans_lt hupper)
    omega

end Decimal

namespace Magnitude

theorem value_one_le_shortest {x : Magnitude} {exponent : ℤ}
    (hle : (⟨1, exponent⟩ : Decimal).value ≤ x.rational) :
    (⟨1, exponent⟩ : Decimal).value ≤ x.shortest.value := by
  have hx : x.significand ≠ 0 := by
    intro hzero
    rw [rational_of_zero hzero, Decimal.value_one] at hle
    exact absurd hle (not_le.mpr (zpow_pos (by norm_num) _))
  by_contra hless
  -- The power lies between the shortest decimal and the magnitude, so it rounds to the magnitude.
  have hmem : (⟨1, exponent⟩ : Decimal).value ∈ x.interval :=
    x.ordConnected_interval.out x.value_shortest_mem x.rational_mem_interval
      ⟨(not_le.mp hless).le, hle⟩
  apply hless
  calc (⟨1, exponent⟩ : Decimal).value
      ≤ (⟨1, x.shortest.exponent⟩ : Decimal).value :=
        Decimal.value_le_of_exponent_le 1 (exponent_le_of_mem hx hmem)
    _ ≤ x.shortest.value :=
        Decimal.value_le_value_iff.mpr (coefficient_pos_of_mem hx x.value_shortest_mem)

theorem value_one_le_shortest_iff {x y : Magnitude} {exponent : ℤ}
    (hmem : (⟨1, exponent⟩ : Decimal).value ∈ y.interval)
    (hy : (⟨1, exponent⟩ : Decimal).value ≤ y.rational) :
    (⟨1, exponent⟩ : Decimal).value ≤ x.shortest.value ↔
      (⟨1, exponent⟩ : Decimal).value ≤ x.rational := by
  refine ⟨fun hle => ?_, value_one_le_shortest⟩
  by_contra hless
  have hx : (⟨1, exponent⟩ : Decimal).value ∈ x.interval :=
    x.ordConnected_interval.out x.rational_mem_interval x.value_shortest_mem
      ⟨(not_le.mp hless).le, hle⟩
  exact hless (eq_of_value_mem hx hmem ▸ hy)

/-- The magnitude nearest to `10 ^ (-4)`. -/
def tenThousandth : Magnitude :=
  ⟨7378697629483821, 1008, by decide, by decide, .inr (by decide)⟩

def tenQuadrillion : Magnitude :=
  ⟨5 * 10 ^ 15, 1075, by decide, by decide, .inr (by decide)⟩

theorem positionalFrom_le_iff (x : Magnitude) (hx : x.significand ≠ 0) :
    -4 ≤ x.shortest.leadingExponent ↔ 1 / 10 ^ 4 ≤ x.rational := by
  have hmem : (⟨1, -4⟩ : Decimal).value ∈ tenThousandth.interval :=
    value_mem_interval_iff.mpr (by decide +kernel)
  have hle : (⟨1, -4⟩ : Decimal).value ≤ tenThousandth.rational :=
    value_le_rational_iff.mpr (by decide +kernel)
  rw [Decimal.le_leadingExponent_iff (coefficient_pos_of_mem hx x.value_shortest_mem),
    value_one_le_shortest_iff hmem hle, Decimal.value_one]
  norm_num

theorem lt_positionalBelow_iff (x : Magnitude) (hx : x.significand ≠ 0) :
    x.shortest.leadingExponent < 16 ↔ x.rational < 10 ^ 16 := by
  have hmem : (⟨1, 16⟩ : Decimal).value ∈ tenQuadrillion.interval :=
    value_mem_interval_iff.mpr (by decide +kernel)
  have hle : (⟨1, 16⟩ : Decimal).value ≤ tenQuadrillion.rational :=
    value_le_rational_iff.mpr (by decide +kernel)
  rw [← not_le, Decimal.le_leadingExponent_iff (coefficient_pos_of_mem hx x.value_shortest_mem),
    value_one_le_shortest_iff hmem hle, Decimal.value_one, not_le]
  norm_num

theorem rational_eq_zero_iff {x : Magnitude} : x.rational = 0 ↔ x.significand = 0 := by
  refine ⟨fun h => ?_, rational_of_zero⟩
  rw [← rational_zero] at h
  rw [rational_injective h]
  rfl

/-- The text of a magnitude has no exponent exactly if the magnitude is zero or in the positional
range. -/
theorem exponent_shortest_eq_none_iff (x : Magnitude) :
    (x.shortest.spelling .standard).exponent = none ↔
      x.rational = 0 ∨ 1 / 10 ^ 4 ≤ x.rational ∧ x.rational < 10 ^ 16 := by
  have hformat : (x.shortest.spelling .standard).exponent = none ↔
      -4 ≤ x.shortest.leadingExponent ∧ x.shortest.leadingExponent < 16 := by
    rw [Decimal.exponent_spelling]
    split
    · exact iff_of_true rfl ‹_›
    · exact iff_of_false (by simp) ‹_›
  rw [hformat, rational_eq_zero_iff]
  by_cases hx : x.significand = 0
  · rw [shortest_of_zero hx]
    exact iff_of_true (by decide) (.inl hx)
  · rw [positionalFrom_le_iff x hx, lt_positionalBelow_iff x hx, or_iff_right hx]

end Magnitude

end ConfTree
