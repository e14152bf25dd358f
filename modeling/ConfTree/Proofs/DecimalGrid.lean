import ConfTree.Proofs.CorrectRounding
import ConfTree.Proofs.DecimalSpelling

namespace ConfTree

namespace Decimal

theorem value_nonneg (d : Decimal) : 0 ≤ d.value :=
  mul_nonneg (Nat.cast_nonneg _) (zpow_nonneg (by norm_num) _)

theorem value_le_value_iff {first second : Nat} {exponent : ℤ} :
    (⟨first, exponent⟩ : Decimal).value ≤ (⟨second, exponent⟩ : Decimal).value ↔
      first ≤ second := by
  rw [value, value, mul_le_mul_iff_left₀ (zpow_pos (by norm_num) _), Nat.cast_le]

theorem value_eq_of_le (coefficient : Nat) {fine coarse : ℤ} (h : fine ≤ coarse) :
    (⟨coefficient, coarse⟩ : Decimal).value =
      (⟨coefficient * 10 ^ (coarse - fine).toNat, fine⟩ : Decimal).value := by
  have hsplit : coarse = ((coarse - fine).toNat : ℤ) + fine := by omega
  rw [value, value, Nat.cast_mul, Nat.cast_pow, Nat.cast_ofNat, mul_assoc, ← zpow_natCast,
    ← zpow_add₀ (by norm_num), ← hsplit]

theorem value_eq_div_units (d : Decimal) : d.value =
    (d.numerator * Magnitude.unitsPerOne : Nat) / (d.denominator * Magnitude.unitsPerOne) := by
  rw [value_eq_div, Nat.cast_mul, mul_div_mul_right _ _ Magnitude.cast_unitsPerOne_pos.ne']

end Decimal

namespace Magnitude

theorem value_mem_interval_iff {x : Magnitude} {d : Decimal} :
    d.value ∈ x.interval ↔ x.Attracts d := by
  rw [attracts_iff_holds, Decimal.value_eq_div_units, mem_interval_iff_holds (denominator_pos d)]

theorem eq_of_value_mem {x y : Magnitude} {d : Decimal} (hx : d.value ∈ x.interval)
    (hy : d.value ∈ y.interval) : x = y :=
  ((attracts_iff_holds x d).mp (value_mem_interval_iff.mp hx)).eq
    ((attracts_iff_holds y d).mp (value_mem_interval_iff.mp hy))
    (denominator_pos d) (denominator_pos d) rfl

theorem value_le_rational_iff {x : Magnitude} {coefficient : Nat} {exponent : ℤ} :
    (⟨coefficient, exponent⟩ : Decimal).value ≤ x.rational ↔
      coefficient ≤ (x.floorDecimal exponent).coefficient := by
  have hdenominator : (0 : ℚ) < (⟨coefficient, exponent⟩ : Decimal).denominator :=
    Nat.cast_pos.mpr (denominator_pos _)
  have hgrid : 0 < unitsPerOne * 10 ^ exponent.toNat :=
    Nat.mul_pos unitsPerOne_pos (Nat.pow_pos (by decide))
  rw [Decimal.value_eq_div, rational, div_le_div_iff₀ hdenominator cast_unitsPerOne_pos,
    floorDecimal, Nat.pow_eq, Nat.pow_eq, Nat.le_div_iff_mul_le hgrid, Nat.mul_comm unitsPerOne,
    ← Nat.mul_assoc]
  exact_mod_cast Iff.rfl

theorem rational_lt_value_succ_floor (x : Magnitude) (exponent : ℤ) :
    x.rational < (⟨(x.floorDecimal exponent).coefficient + 1, exponent⟩ : Decimal).value := by
  rw [← not_le, value_le_rational_iff]
  omega

theorem distance_eq (x : Magnitude) (d : Decimal) :
    (x.distance d : ℚ) = |d.value - x.rational| * (4 * unitsPerOne * d.denominator) := by
  have hone := cast_unitsPerOne_pos.ne'
  have hdenominator : (0 : ℚ) < d.denominator := Nat.cast_pos.mpr (denominator_pos d)
  have hfactor : (0 : ℚ) < 4 * unitsPerOne * d.denominator :=
    mul_pos (mul_pos (by norm_num) cast_unitsPerOne_pos) hdenominator
  rw [← abs_of_pos hfactor, ← abs_mul, distance, Nat.cast_natAbs, Int.cast_abs]
  congr 1
  rw [Decimal.value_eq_div, rational, Decimal.scaledQuarters, quarters]
  push_cast
  field_simp

theorem distance_le_distance_iff {x : Magnitude} {first second : Nat} {exponent : ℤ} :
    x.distance ⟨first, exponent⟩ ≤ x.distance ⟨second, exponent⟩ ↔
      |(⟨first, exponent⟩ : Decimal).value - x.rational| ≤
        |(⟨second, exponent⟩ : Decimal).value - x.rational| := by
  have hdenominator : (0 : ℚ) < (⟨first, exponent⟩ : Decimal).denominator :=
    Nat.cast_pos.mpr (denominator_pos _)
  have hsame : (⟨second, exponent⟩ : Decimal).denominator =
      (⟨first, exponent⟩ : Decimal).denominator := rfl
  rw [← Nat.cast_le (α := ℚ), distance_eq, distance_eq, hsame,
    mul_le_mul_iff_left₀ (mul_pos (mul_pos (by norm_num) cast_unitsPerOne_pos) hdenominator)]

/-! Only the two neighbours of a magnitude on a grid need a test. -/

theorem rational_mem_interval (x : Magnitude) : x.rational ∈ x.interval := by
  refine mem_interval_of_bounds x.lower_le_rational x.rational_lt_upper.le fun hend => ?_
  rcases hend with hend | hend
  · by_cases hx : x.significand = 0
    · rw [hx]
    · exact absurd hend (lower_lt_rational hx).ne
  · exact absurd hend x.rational_lt_upper.ne

theorem floorDecimal_of_mem {x : Magnitude} {coefficient : Nat} {exponent : ℤ}
    (hmem : (⟨coefficient, exponent⟩ : Decimal).value ∈ x.interval)
    (hle : (⟨coefficient, exponent⟩ : Decimal).value ≤ x.rational) :
    (x.floorDecimal exponent).value ∈ x.interval ∧
      |(x.floorDecimal exponent).value - x.rational| ≤
        |(⟨coefficient, exponent⟩ : Decimal).value - x.rational| := by
  have hfloor : (x.floorDecimal exponent).value ≤ x.rational :=
    value_le_rational_iff.mpr le_rfl
  have hbetween : (⟨coefficient, exponent⟩ : Decimal).value ≤ (x.floorDecimal exponent).value :=
    Decimal.value_le_value_iff.mpr (value_le_rational_iff.mp hle)
  refine ⟨x.ordConnected_interval.out hmem x.rational_mem_interval ⟨hbetween, hfloor⟩, ?_⟩
  rw [abs_of_nonpos (by linarith), abs_of_nonpos (by linarith)]
  linarith

theorem succ_floorDecimal_of_mem {x : Magnitude} {coefficient : Nat} {exponent : ℤ}
    (hmem : (⟨coefficient, exponent⟩ : Decimal).value ∈ x.interval)
    (hlt : x.rational < (⟨coefficient, exponent⟩ : Decimal).value) :
    (⟨(x.floorDecimal exponent).coefficient + 1, exponent⟩ : Decimal).value ∈ x.interval ∧
      |(⟨(x.floorDecimal exponent).coefficient + 1, exponent⟩ : Decimal).value - x.rational| ≤
        |(⟨coefficient, exponent⟩ : Decimal).value - x.rational| := by
  have hsucc := x.rational_lt_value_succ_floor exponent
  have hbetween : (⟨(x.floorDecimal exponent).coefficient + 1, exponent⟩ : Decimal).value ≤
      (⟨coefficient, exponent⟩ : Decimal).value := by
    rw [← not_le, value_le_rational_iff, not_le] at hlt
    exact Decimal.value_le_value_iff.mpr hlt
  refine ⟨x.ordConnected_interval.out x.rational_mem_interval hmem ⟨hsucc.le, hbetween⟩, ?_⟩
  rw [abs_of_nonneg (by linarith), abs_of_nonneg (by linarith)]
  linarith

theorem nearer_eq_or (x : Magnitude) (below above : Decimal) :
    x.nearer below above = below ∨ x.nearer below above = above := by
  unfold nearer
  split
  · exact .inl rfl
  · split
    · exact .inr rfl
    · split
      · exact .inl rfl
      · exact .inr rfl

theorem distance_nearer_le (x : Magnitude) (below above : Decimal) :
    x.distance (x.nearer below above) ≤ x.distance below ∧
      x.distance (x.nearer below above) ≤ x.distance above := by
  unfold nearer
  split
  · omega
  · split
    · omega
    · split <;> omega

def Misses (x : Magnitude) (exponent : ℤ) : Prop :=
  ∀ coefficient : Nat, (⟨coefficient, exponent⟩ : Decimal).value ∉ x.interval

/-- A decimal rounds to the magnitude, and no point of its grid that does lies nearer. -/
structure IsClosestOnGrid (x : Magnitude) (d : Decimal) : Prop where
  mem : d.value ∈ x.interval
  le : ∀ coefficient : Nat, (⟨coefficient, d.exponent⟩ : Decimal).value ∈ x.interval →
    |d.value - x.rational| ≤ |(⟨coefficient, d.exponent⟩ : Decimal).value - x.rational|

theorem Misses.of_le {x : Magnitude} {fine coarse : ℤ} (h : x.Misses fine) (hle : fine ≤ coarse) :
    x.Misses coarse := by
  intro coefficient
  rw [Decimal.value_eq_of_le coefficient hle]
  exact h _

theorem misses_of_decimalOnGrid?_eq_none {x : Magnitude} {exponent : ℤ}
    (h : x.decimalOnGrid? exponent = none) : x.Misses exponent := by
  intro coefficient hmem
  rcases le_or_gt (⟨coefficient, exponent⟩ : Decimal).value x.rational with hle | hlt
  · have hbelow := value_mem_interval_iff.mp (floorDecimal_of_mem hmem hle).1
    simp only [decimalOnGrid?, if_pos hbelow] at h
    split at h <;> simp at h
  · have habove := value_mem_interval_iff.mp (succ_floorDecimal_of_mem hmem hlt).1
    simp only [decimalOnGrid?, if_pos habove] at h
    split at h <;> simp at h

theorem attracts_of_decimalOnGrid? {x : Magnitude} {exponent : Int} {d : Decimal}
    (h : x.decimalOnGrid? exponent = some d) : x.Attracts d := by
  simp only [decimalOnGrid?] at h
  split at h
  · rename_i hbelow
    split at h
    · rename_i habove
      rcases nearer_eq_or x (x.floorDecimal exponent)
        ⟨(x.floorDecimal exponent).coefficient + 1, exponent⟩ with hnearer | hnearer
      · rw [hnearer] at h
        exact Option.some.inj h ▸ hbelow
      · rw [hnearer] at h
        exact Option.some.inj h ▸ habove
    · exact Option.some.inj h ▸ hbelow
  · split at h
    · rename_i habove
      exact Option.some.inj h ▸ habove
    · simp at h

/-- A point is a closest one of its grid if neither neighbour of the magnitude is a closer one. -/
theorem isClosestOnGrid_of_neighbours {x : Magnitude} {coefficient : Nat} {exponent : ℤ}
    (hmem : x.Attracts ⟨coefficient, exponent⟩)
    (hbelow : x.Attracts (x.floorDecimal exponent) →
      x.distance ⟨coefficient, exponent⟩ ≤ x.distance (x.floorDecimal exponent))
    (habove : x.Attracts ⟨(x.floorDecimal exponent).coefficient + 1, exponent⟩ →
      x.distance ⟨coefficient, exponent⟩ ≤
        x.distance ⟨(x.floorDecimal exponent).coefficient + 1, exponent⟩) :
    x.IsClosestOnGrid ⟨coefficient, exponent⟩ := by
  refine ⟨value_mem_interval_iff.mpr hmem, fun other hother => ?_⟩
  rcases le_or_gt (⟨other, exponent⟩ : Decimal).value x.rational with hle | hlt
  · obtain ⟨hneighbour, hcloser⟩ := floorDecimal_of_mem hother hle
    have hdistance := hbelow (value_mem_interval_iff.mp hneighbour)
    exact (distance_le_distance_iff.mp hdistance).trans hcloser
  · obtain ⟨hneighbour, hcloser⟩ := succ_floorDecimal_of_mem hother hlt
    have hdistance := habove (value_mem_interval_iff.mp hneighbour)
    exact (distance_le_distance_iff.mp hdistance).trans hcloser

theorem isClosestOnGrid_of_decimalOnGrid? {x : Magnitude} {exponent : ℤ} {d : Decimal}
    (h : x.decimalOnGrid? exponent = some d) : d.exponent = exponent ∧ x.IsClosestOnGrid d := by
  have hattracts := attracts_of_decimalOnGrid? h
  simp only [decimalOnGrid?] at h
  split at h
  · split at h
    · obtain ⟨hbelow, habove⟩ := x.distance_nearer_le (x.floorDecimal exponent)
        ⟨(x.floorDecimal exponent).coefficient + 1, exponent⟩
      rw [Option.some.inj h] at hbelow habove
      rcases x.nearer_eq_or (x.floorDecimal exponent)
        ⟨(x.floorDecimal exponent).coefficient + 1, exponent⟩ with hnearer | hnearer
      · rw [hnearer] at h
        obtain rfl := Option.some.inj h
        exact ⟨rfl, isClosestOnGrid_of_neighbours hattracts (fun _ => hbelow) fun _ => habove⟩
      · rw [hnearer] at h
        obtain rfl := Option.some.inj h
        exact ⟨rfl, isClosestOnGrid_of_neighbours hattracts (fun _ => hbelow) fun _ => habove⟩
    · rename_i habove
      obtain rfl := Option.some.inj h
      exact ⟨rfl, isClosestOnGrid_of_neighbours hattracts (fun _ => le_rfl)
        fun hattracted => absurd hattracted habove⟩
  · rename_i hbelow
    split at h
    · obtain rfl := Option.some.inj h
      exact ⟨rfl, isClosestOnGrid_of_neighbours hattracts
        (fun hattracted => absurd hattracted hbelow) fun _ => le_rfl⟩
    · simp at h

/-! The search goes from the coarsest grid to finer ones, until one is hit. -/

theorem rational_eq_value (x : Magnitude) :
    x.rational = (⟨x.units * 5 ^ 1074, finestExponent⟩ : Decimal).value := by
  have hfinest : finestExponent = -((1074 : Nat) : ℤ) := rfl
  rw [rational, Decimal.value, hfinest, unitsPerOne_eq, zpow_neg, zpow_natCast]
  generalize 1074 = point
  have hten : (10 : ℚ) ^ point = 2 ^ point * 5 ^ point := by
    rw [← mul_pow]
    norm_num
  rw [hten]
  push_cast
  field_simp

theorem value_floorDecimal_finest (x : Magnitude) :
    (x.floorDecimal finestExponent).value = x.rational := by
  apply le_antisymm
  · exact value_le_rational_iff.mpr le_rfl
  · have hle := value_le_rational_iff.mp (rational_eq_value x).ge
    rw [rational_eq_value x]
    exact Decimal.value_le_value_iff.mpr hle

theorem isClosestOnGrid_floorDecimal_finest (x : Magnitude) :
    x.IsClosestOnGrid (x.floorDecimal finestExponent) := by
  constructor
  · rw [value_floorDecimal_finest]
    exact x.rational_mem_interval
  · intro coefficient hmem
    rw [value_floorDecimal_finest, sub_self, abs_zero]
    exact abs_nonneg _

theorem firstDecimal_spec {x : Magnitude} (grids : Nat) {exponent : ℤ}
    (hend : exponent - grids = finestExponent) (hmissed : x.Misses (exponent + 1)) :
    x.IsClosestOnGrid (x.firstDecimal grids exponent) ∧
      x.Misses ((x.firstDecimal grids exponent).exponent + 1) := by
  induction grids generalizing exponent with
  | zero =>
      obtain rfl : exponent = finestExponent := by simpa using hend
      exact ⟨isClosestOnGrid_floorDecimal_finest x, hmissed⟩
  | succ grids ih =>
      rw [firstDecimal]
      cases hgrid : x.decimalOnGrid? exponent with
      | some d =>
          obtain ⟨rfl, hclosest⟩ := isClosestOnGrid_of_decimalOnGrid? hgrid
          exact ⟨hclosest, hmissed⟩
      | none =>
          refine ih (by omega) ?_
          rw [Int.sub_add_cancel]
          exact misses_of_decimalOnGrid?_eq_none hgrid

theorem zero_notMem_interval {x : Magnitude} (hx : x.significand ≠ 0) : 0 ∉ x.interval := by
  have hends : 0 < 4 * x.significand - if x.IsNarrowBelow then 1 else 2 := by
    split <;> omega
  have hlower : 0 < x.lower := by
    rw [lower, lowerEnd_eq]
    exact div_pos (Nat.cast_pos.mpr (Nat.mul_pos hends (Nat.two_pow_pos _)))
      (mul_pos (by norm_num) cast_unitsPerOne_pos)
  exact fun hmem => absurd (mem_interval_bounds hmem).1 (not_le.mpr hlower)

theorem misses_coarsest {x : Magnitude} (hx : x.significand ≠ 0) :
    x.Misses (coarsestExponent + 1) := by
  have hgreatest : greatest.upper ≤ (⟨1, coarsestExponent + 1⟩ : Decimal).value := by
    rw [Decimal.value_eq_div_units, upper, quarters_le_div_iff (denominator_pos _)]
    decide +kernel
  intro coefficient hmem
  rcases Nat.eq_zero_or_pos coefficient with rfl | hpos
  · rw [Decimal.value, Nat.cast_zero, zero_mul] at hmem
    exact zero_notMem_interval hx hmem
  · have hlt := lt_upper_greatest hmem
    have hle : (⟨1, coarsestExponent + 1⟩ : Decimal).value ≤
        (⟨coefficient, coarsestExponent + 1⟩ : Decimal).value :=
      Decimal.value_le_value_iff.mpr hpos
    exact absurd (hgreatest.trans hle) (not_le.mpr hlt)

/-- The shortest decimal lies on the coarsest grid that has a point in the rounding interval, and
no point of this grid that rounds to the magnitude lies nearer. -/
theorem shortest_spec {x : Magnitude} (hx : x.significand ≠ 0) :
    x.IsClosestOnGrid x.shortest ∧ x.Misses (x.shortest.exponent + 1) := by
  rw [shortest, if_neg hx]
  exact firstDecimal_spec _ rfl (misses_coarsest hx)

theorem shortest_of_zero {x : Magnitude} (hx : x.significand = 0) : x.shortest = ⟨0, 0⟩ :=
  if_pos hx

theorem value_shortest_of_zero {x : Magnitude} (hx : x.significand = 0) :
    x.shortest.value = x.rational := by
  rw [shortest_of_zero hx, rational_of_zero hx, Decimal.value, Nat.cast_zero, zero_mul]

theorem value_shortest_mem (x : Magnitude) : x.shortest.value ∈ x.interval := by
  by_cases hx : x.significand = 0
  · rw [value_shortest_of_zero hx]
    exact x.rational_mem_interval
  · exact (shortest_spec hx).1.mem

end Magnitude

end ConfTree
