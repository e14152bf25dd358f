import ConfTree.Proofs.NearestMagnitude

namespace ConfTree

/-! The nearest whole number lies at most half a step away, and is even at half a step. -/

theorem roundHalfEven_bounds (numerator : Nat) {denominator : Nat}
    (hdenominator : 0 < denominator) :
    2 * (roundHalfEven numerator denominator * denominator) ≤ 2 * numerator + denominator ∧
      2 * numerator ≤ 2 * (roundHalfEven numerator denominator * denominator) + denominator := by
  have hsplit := Nat.div_add_mod numerator denominator
  have hmod := Nat.mod_lt numerator hdenominator
  rw [Nat.mul_comm] at hsplit
  rw [roundHalfEven]
  generalize numerator / denominator = quotient at *
  generalize numerator % denominator = remainder at *
  have hsucc : (quotient + 1) * denominator = quotient * denominator + denominator :=
    Nat.succ_mul _ _
  split
  · omega
  · split
    · rcases Nat.mod_two_eq_zero_or_one quotient with heven | hodd
      · rw [heven, Nat.add_zero]
        omega
      · rw [hodd]
        omega
    · omega

theorem roundHalfEven_even (numerator : Nat) {denominator : Nat} (hdenominator : 0 < denominator)
    (htie : 2 * (roundHalfEven numerator denominator * denominator) = 2 * numerator + denominator ∨
      2 * numerator = 2 * (roundHalfEven numerator denominator * denominator) + denominator) :
    roundHalfEven numerator denominator % 2 = 0 := by
  have hsplit := Nat.div_add_mod numerator denominator
  have hmod := Nat.mod_lt numerator hdenominator
  rw [Nat.mul_comm] at hsplit
  rw [roundHalfEven] at htie ⊢
  generalize numerator / denominator = quotient at *
  generalize numerator % denominator = remainder at *
  have hsucc : (quotient + 1) * denominator = quotient * denominator + denominator :=
    Nat.succ_mul _ _
  by_cases hgreater : denominator < 2 * remainder
  · rw [if_pos hgreater] at htie
    omega
  · rw [if_neg hgreater] at htie ⊢
    by_cases hhalf : 2 * remainder = denominator
    · rw [if_pos hhalf]
      omega
    · rw [if_neg hhalf] at htie
      omega

namespace Magnitude

/-! The scale of a quotient leaves it a significand of 53 binary digits, or fewer at scale zero. -/

theorem lt_scaleFor (numerator : Nat) {denominator : Nat} (hdenominator : 0 < denominator) :
    numerator < 2 ^ 53 * (denominator * 2 ^ scaleFor (numerator / denominator)) := by
  have hlt := shiftRight_scaleFor_lt (numerator / denominator)
  rwa [Nat.shiftRight_eq_div_pow, Nat.div_div_eq_div_mul, Nat.one_shiftLeft,
    Nat.div_lt_iff_lt_mul (Nat.mul_pos hdenominator (Nat.two_pow_pos _))] at hlt

theorem scaleFor_eq_zero_or_le (numerator : Nat) {denominator : Nat}
    (hdenominator : 0 < denominator) : scaleFor (numerator / denominator) = 0 ∨
      2 ^ 52 * (denominator * 2 ^ scaleFor (numerator / denominator)) ≤ numerator := by
  refine (scaleFor_eq_zero_or (numerator / denominator)).imp id fun hle => ?_
  rwa [Nat.shiftRight_eq_div_pow, Nat.div_div_eq_div_mul, Nat.one_shiftLeft,
    Nat.le_div_iff_mul_le (Nat.mul_pos hdenominator (Nat.two_pow_pos _))] at hle

theorem holds_of_bounds {x : Magnitude} {numerator denominator : Nat}
    (hdenominator : 0 < denominator)
    (hlower : 2 * (x.significand * (denominator * 2 ^ x.scale)) ≤
      2 * numerator + denominator * 2 ^ x.scale)
    (hupper : 2 * numerator ≤
      2 * (x.significand * (denominator * 2 ^ x.scale)) + denominator * 2 ^ x.scale)
    (heven : 2 * (x.significand * (denominator * 2 ^ x.scale)) =
        2 * numerator + denominator * 2 ^ x.scale ∨
      2 * numerator =
        2 * (x.significand * (denominator * 2 ^ x.scale)) + denominator * 2 ^ x.scale →
      x.significand % 2 = 0)
    (hleast : x.scale = 0 ∨ 2 ^ 52 * (denominator * 2 ^ x.scale) ≤ numerator) :
    x.Holds numerator denominator := by
  have hend := upperEnd_mul x denominator
  have hunit : 0 < denominator * 2 ^ x.scale := Nat.mul_pos hdenominator (Nat.two_pow_pos _)
  by_cases hnarrow : x.IsNarrowBelow
  · have hleast := hleast.resolve_left hnarrow.2.ne'
    have hstart : x.lowerEnd * denominator = (2 ^ 54 - 1) * (denominator * 2 ^ x.scale) := by
      rw [lowerEnd_eq, if_pos hnarrow, hnarrow.1, Nat.one_shiftLeft]
      ring
    have hsignificand : x.significand % 2 = 0 := by
      rw [hnarrow.1]
      rfl
    rw [Holds, if_pos hsignificand]
    omega
  · have hstart : x.lowerEnd * denominator =
        4 * (x.significand * (denominator * 2 ^ x.scale)) - 2 * (denominator * 2 ^ x.scale) := by
      rw [lowerEnd_eq, if_neg hnarrow, Nat.sub_mul, Nat.sub_mul]
      ring_nf
    unfold Holds
    split
    · omega
    · have hpos : denominator * 2 ^ x.scale ≤ x.significand * (denominator * 2 ^ x.scale) :=
        Nat.le_mul_of_pos_left _ (by omega)
      omega

/-- A significand that is rounded up to 54 binary digits is a power of two at the next scale, where
the steps are twice as wide. -/
theorem holds_of_carry {numerator denominator scale : Nat} (hscale : scale + 1 ≤ 2045)
    (hlower : 2 * (2 ^ 53 * (denominator * 2 ^ scale)) ≤ 2 * numerator + denominator * 2 ^ scale)
    (hless : numerator < 2 ^ 53 * (denominator * 2 ^ scale)) :
    (⟨1 <<< 52, scale + 1, by decide, hscale, .inr (Nat.le_refl _)⟩ : Magnitude).Holds
      numerator denominator := by
  have hunit : 2 ^ (scale + 1) * denominator = 2 * (denominator * 2 ^ scale) := by
    rw [pow_succ]
    ring
  have heven : (1 <<< 52) % 2 = 0 := by decide
  rw [Holds, if_pos heven, lowerEnd_eq, if_pos ⟨rfl, Nat.succ_pos _⟩, upperEnd_eq]
  dsimp only
  rw [Nat.mul_assoc, Nat.mul_assoc, hunit, Nat.one_shiftLeft]
  omega

theorem holds_of_nearest? {x : Magnitude} {numerator denominator : Nat}
    (hdenominator : 0 < denominator) (h : nearest? numerator denominator = some x) :
    x.Holds numerator denominator := by
  have hround := significandFor_eq numerator denominator
  have hunit : 0 < denominator * 2 ^ scaleFor (numerator / denominator) :=
    Nat.mul_pos hdenominator (Nat.two_pow_pos _)
  obtain ⟨hlower, hupper⟩ := roundHalfEven_bounds numerator hunit
  have heven := roundHalfEven_even numerator hunit
  have hleast := scaleFor_eq_zero_or_le numerator hdenominator
  have hless := lt_scaleFor numerator hdenominator
  rw [← hround] at hlower hupper heven
  simp only [nearest?] at h
  split at h
  · split at h
    · obtain rfl := Option.some.inj h
      exact holds_of_bounds hdenominator hlower hupper heven hleast
    · simp at h
  · rename_i hcarry
    have hsignificand : significandFor numerator denominator = 2 ^ 53 :=
      Nat.le_antisymm (significandFor_le _ _) (Nat.le_of_not_lt hcarry)
    split at h
    · rename_i hscale
      obtain rfl := Option.some.inj h
      rw [hsignificand] at hlower
      exact holds_of_carry hscale hlower hless
    · simp at h

theorem upperEnd_greatest_mul (denominator : Nat) :
    greatest.upperEnd * denominator = (2 ^ 55 - 2) * (denominator * 2 ^ greatest.scale) := by
  have hsignificand : greatest.significand = 2 ^ 53 - 1 := rfl
  rw [upperEnd_mul, hsignificand]
  omega

theorem upperEnd_greatest_le {numerator denominator : Nat} (hdenominator : 0 < denominator)
    (h : nearest? numerator denominator = none) :
    greatest.upperEnd * denominator ≤ 4 * numerator := by
  have hunit : 0 < denominator * 2 ^ scaleFor (numerator / denominator) :=
    Nat.mul_pos hdenominator (Nat.two_pow_pos _)
  obtain ⟨hlower, -⟩ := roundHalfEven_bounds numerator hunit
  have hleast := scaleFor_eq_zero_or_le numerator hdenominator
  rw [← significandFor_eq] at hlower
  rw [upperEnd_greatest_mul]
  simp only [nearest?] at h
  split at h
  · split at h
    · simp at h
    · rename_i hscale
      have hscale : greatest.scale < scaleFor (numerator / denominator) := Nat.lt_of_not_le hscale
      have hle : 2 * (denominator * 2 ^ greatest.scale) ≤
          denominator * 2 ^ scaleFor (numerator / denominator) := by
        rw [Nat.mul_left_comm]
        exact Nat.mul_le_mul_left _ (two_pow_le hscale)
      omega
  · rename_i hcarry
    have hsignificand : significandFor numerator denominator = 2 ^ 53 :=
      Nat.le_antisymm (significandFor_le _ _) (Nat.le_of_not_lt hcarry)
    split at h
    · simp at h
    · rename_i hscale
      have hscale : greatest.scale ≤ scaleFor (numerator / denominator) :=
        Nat.le_of_lt_succ (Nat.lt_of_not_le hscale)
      have hle : denominator * 2 ^ greatest.scale ≤
          denominator * 2 ^ scaleFor (numerator / denominator) :=
        Nat.mul_le_mul_left _ (Nat.pow_le_pow_right (by decide) hscale)
      rw [hsignificand] at hlower
      omega

theorem rational_le_greatest (x : Magnitude) : x.rational ≤ greatest.rational := by
  have hsignificand : x.significand ≤ greatest.significand := Nat.le_sub_one_of_lt x.significand_lt
  rw [← not_lt, rational_lt_rational_iff, Nat.not_lt, units_eq, units_eq]
  exact Nat.mul_le_mul hsignificand (Nat.pow_le_pow_right (by decide) x.scale_le)

theorem rational_le_iff_lt_upper {x y : Magnitude} {q : ℚ} (h : q ∈ x.interval)
    (hodd : y.significand % 2 ≠ 0) : x.rational ≤ y.rational ↔ q < y.upper := by
  obtain ⟨hlower, hupper⟩ := mem_interval_bounds h
  constructor
  · intro hle
    rcases hle.eq_or_lt with heq | hlt
    · obtain rfl := rational_injective heq
      exact lt_of_le_of_ne hupper fun hend => hodd (even_of_mem_interval h (.inr hend))
    · linarith [upper_le_add_rational hlt, rational_lt_upper y]
  · intro hless
    by_contra hgreater
    have hlt : y.rational < x.rational := not_le.mp hgreater
    linarith [add_rational_le_lower hlt, upper_le_add_rational hlt]

theorem lt_upper_greatest {x : Magnitude} {q : ℚ} (h : q ∈ x.interval) : q < greatest.upper :=
  (rational_le_iff_lt_upper h (by decide)).mp (rational_le_greatest x)

theorem nearest?_eq_none_iff {numerator denominator : Nat} (hdenominator : 0 < denominator) :
    nearest? numerator denominator = none ↔
      greatest.upper ≤ numerator / (denominator * unitsPerOne) := by
  constructor
  · intro h
    exact (quarters_le_div_iff hdenominator).mpr (upperEnd_greatest_le hdenominator h)
  · intro hle
    cases hnearest : nearest? numerator denominator with
    | none => rfl
    | some x =>
        have hmem := (mem_interval_iff_holds hdenominator).mpr
          (holds_of_nearest? hdenominator hnearest)
        exact absurd hle (not_le.mpr (lt_upper_greatest hmem))

end Magnitude

namespace Binary64

/-- Half a step above the greatest magnitude.  From there on numbers are rounded to an infinity. -/
def overflowStart : ℚ :=
  (2 ^ 54 - 1) * 2 ^ 970

/-- A number is the correct rounding of the rational number with a given sign and absolute value:
the nearest magnitude, of two equally near ones the one with the even significand, and beyond all
magnitudes the infinity. -/
def IsRounded (negative : Bool) (q : ℚ) : Binary64 → Prop
  | .nan => False
  | .infinity sign => sign = negative ∧ overflowStart ≤ q
  | .finite sign x => sign = negative ∧ q < overflowStart ∧ x.IsNearest q

theorem upper_greatest : Magnitude.greatest.upper = overflowStart := by
  have hone : (4 * Magnitude.unitsPerOne : ℚ) ≠ 0 :=
    (mul_pos (by norm_num) Magnitude.cast_unitsPerOne_pos).ne'
  have hsignificand : Magnitude.greatest.significand = 2 ^ 53 - 1 := rfl
  have hscale : Magnitude.greatest.scale = 970 + 1 + 1074 := rfl
  have hend : Magnitude.greatest.upperEnd =
      (2 ^ 54 - 1) * 2 ^ 970 * (4 * Magnitude.unitsPerOne) := by
    rw [Magnitude.upperEnd_eq, hsignificand, hscale, pow_add, ← Magnitude.unitsPerOne_eq,
      pow_succ 2 970]
    generalize 2 ^ 970 = power
    generalize Magnitude.unitsPerOne = one
    norm_num
    ring
  rw [Magnitude.upper, hend, Nat.cast_mul, Nat.cast_mul 4, Nat.cast_ofNat,
    mul_div_cancel_right₀ _ hone, overflowStart, Nat.cast_mul, Nat.cast_pow, Nat.cast_ofNat]
  norm_num

/-- The rounding of a quotient of units is correct, and nothing else is. -/
theorem isRounded_iff {negative : Bool} {numerator denominator : Nat} {x : Binary64}
    (hdenominator : 0 < denominator) :
    IsRounded negative (numerator / (denominator * Magnitude.unitsPerOne)) x ↔
      nearest negative numerator denominator = x := by
  have hnonneg : (0 : ℚ) ≤ numerator / (denominator * Magnitude.unitsPerOne) :=
    div_nonneg (Nat.cast_nonneg _)
      (mul_nonneg (Nat.cast_nonneg _) Magnitude.cast_unitsPerOne_pos.le)
  constructor
  · intro h
    cases x with
    | nan => exact h.elim
    | infinity sign =>
        obtain ⟨rfl, hle⟩ := h
        rw [← upper_greatest] at hle
        rw [nearest, (Magnitude.nearest?_eq_none_iff hdenominator).mpr hle]
    | finite sign x =>
        obtain ⟨rfl, hlt, hnearest⟩ := h
        rw [← upper_greatest] at hlt
        have hmem := Magnitude.mem_interval_of_isNearest hnearest hnonneg hlt
        rw [nearest, Magnitude.nearest?_eq hdenominator
          ((Magnitude.mem_interval_iff_holds hdenominator).mp hmem)]
  · rintro rfl
    unfold nearest
    split
    · rename_i x hnearest
      have hmem := (Magnitude.mem_interval_iff_holds hdenominator).mpr
        (Magnitude.holds_of_nearest? hdenominator hnearest)
      exact ⟨rfl, upper_greatest ▸ Magnitude.lt_upper_greatest hmem,
        Magnitude.isNearest_of_mem_interval hmem⟩
    · rename_i hnearest
      exact ⟨rfl, upper_greatest ▸ (Magnitude.nearest?_eq_none_iff hdenominator).mp hnearest⟩

theorem isRounded_finite_iff {negative sign : Bool} {q : ℚ} {x : Magnitude} (hq : 0 ≤ q) :
    IsRounded negative q (.finite sign x) ↔ sign = negative ∧ q ∈ x.interval := by
  constructor
  · rintro ⟨hsign, hlt, hnearest⟩
    rw [← upper_greatest] at hlt
    exact ⟨hsign, Magnitude.mem_interval_of_isNearest hnearest hq hlt⟩
  · rintro ⟨hsign, hmem⟩
    exact ⟨hsign, upper_greatest ▸ Magnitude.lt_upper_greatest hmem,
      Magnitude.isNearest_of_mem_interval hmem⟩

def rational? : Binary64 → Option ℚ
  | .finite negative x => some (if negative then -x.rational else x.rational)
  | _ => none

theorem IsRounded.exists_le {negative : Bool} {q : ℚ} {x : Binary64} {y : Magnitude}
    (h : IsRounded negative q x) (hle : q ≤ y.rational) :
    ∃ magnitude, x = .finite negative magnitude ∧ magnitude.rational ≤ y.rational := by
  cases x with
  | nan => exact h.elim
  | infinity sign =>
      have hlt := (Magnitude.rational_le_greatest y).trans_lt Magnitude.greatest.rational_lt_upper
      rw [upper_greatest] at hlt
      exact absurd (h.2.trans hle) (not_le.mpr hlt)
  | finite sign x =>
      obtain ⟨rfl, -, hnearest⟩ := h
      refine ⟨x, rfl, not_lt.mp fun hlt => ?_⟩
      have hsum := (Magnitude.abs_sub_le_abs_sub_of_lt hlt).mp (hnearest y).1
      linarith

theorem IsRounded.eq_finite {negative : Bool} {x : Binary64} {y : Magnitude}
    (h : IsRounded negative y.rational x) : x = .finite negative y := by
  obtain ⟨x, rfl, -⟩ := h.exists_le le_rfl
  obtain ⟨-, -, hnearest⟩ := h
  have hzero := (hnearest y).1
  rw [sub_self, abs_zero, abs_nonpos_iff, sub_eq_zero] at hzero
  rw [Magnitude.rational_injective hzero]

end Binary64

end ConfTree
