import ConfTree.Binary64.Rounding
import ConfTree.Decimal.Shortest
import Mathlib.Tactic.Linarith
import Mathlib.Tactic.Ring

namespace ConfTree

theorem roundHalfEven_eq {numerator denominator n : Nat} (hdenominator : 0 < denominator)
    (hlow : 2 * (n * denominator) ≤ 2 * numerator + denominator)
    (hhigh : 2 * numerator ≤ 2 * (n * denominator) + denominator)
    (hlowTie : 2 * (n * denominator) = 2 * numerator + denominator → n % 2 = 0)
    (hhighTie : 2 * numerator = 2 * (n * denominator) + denominator → n % 2 = 0) :
    roundHalfEven numerator denominator = n := by
  have hsplit := Nat.div_add_mod numerator denominator
  have hmod := Nat.mod_lt numerator hdenominator
  rw [roundHalfEven]
  generalize numerator / denominator = quotient at *
  generalize numerator % denominator = remainder at *
  have hcases : quotient = n ∨ quotient + 1 = n := by
    rcases Nat.lt_trichotomy (quotient + 1) n with h | h | h
    · have hmul : (quotient + 2) * denominator ≤ n * denominator :=
        Nat.mul_le_mul_right denominator h
      rw [Nat.add_mul] at hmul
      rw [Nat.mul_comm] at hsplit
      omega
    · exact .inr h
    · rcases Nat.lt_or_ge n quotient with hlt | hge
      · have hmul : (n + 1) * denominator ≤ quotient * denominator :=
          Nat.mul_le_mul_right denominator hlt
        rw [Nat.add_mul] at hmul
        rw [Nat.mul_comm] at hsplit
        omega
      · exact .inl (by omega)
  rw [Nat.mul_comm] at hsplit
  rcases hcases with rfl | rfl
  · split
    · omega
    · split
      · have heven := hhighTie (by omega)
        omega
      · rfl
  · rw [Nat.add_mul] at hlow hhigh hlowTie
    split
    · rfl
    · split
      · have heven := hlowTie (by omega)
        omega
      · omega

namespace Magnitude

theorem scaleFor_eq {wholeUnits scale : Nat}
    (hlow : scale = 0 ∨ 2 ^ (52 + scale) ≤ wholeUnits) (hhigh : wholeUnits < 2 ^ (53 + scale)) :
    scaleFor wholeUnits = scale := by
  rcases Nat.eq_zero_or_pos scale with rfl | hpos
  · exact if_pos hhigh
  · have hlow : 2 ^ (52 + scale) ≤ wholeUnits := hlow.resolve_left (by omega)
    have hge : 2 ^ 53 ≤ wholeUnits :=
      Nat.le_trans (Nat.pow_le_pow_right (by decide) (by omega)) hlow
    have hne : wholeUnits ≠ 0 := by omega
    have hlog : wholeUnits.log2 = 52 + scale := by
      apply Nat.le_antisymm
      · apply Nat.le_of_lt_succ
        rw [Nat.log2_lt hne]
        exact hhigh.trans_eq (by congr 1; omega)
      · exact (Nat.le_log2 hne).mpr hlow
    rw [scaleFor, if_neg (by omega), hlog]
    omega

theorem scaleFor_div_eq {numerator denominator scale : Nat} (hdenominator : 0 < denominator)
    (hlow : scale = 0 ∨ 2 ^ 52 * (denominator * 2 ^ scale) ≤ numerator)
    (hhigh : numerator < 2 ^ 53 * (denominator * 2 ^ scale)) :
    scaleFor (numerator / denominator) = scale := by
  refine scaleFor_eq (hlow.imp id fun h => ?_) ?_
  · rw [Nat.le_div_iff_mul_le hdenominator, Nat.pow_add]
    linarith
  · rw [Nat.div_lt_iff_lt_mul hdenominator, Nat.pow_add]
    linarith

/-- A quotient of units lies in the rounding interval, whose ends belong to the even
significands. -/
def Holds (x : Magnitude) (numerator denominator : Nat) : Prop :=
  if x.significand % 2 = 0 then
    x.lowerEnd * denominator ≤ 4 * numerator ∧ 4 * numerator ≤ x.upperEnd * denominator
  else
    x.lowerEnd * denominator < 4 * numerator ∧ 4 * numerator < x.upperEnd * denominator

theorem Holds.bounds {x : Magnitude} {numerator denominator : Nat}
    (h : x.Holds numerator denominator) :
    x.lowerEnd * denominator ≤ 4 * numerator ∧ 4 * numerator ≤ x.upperEnd * denominator := by
  unfold Holds at h
  split at h
  · exact h
  · exact ⟨Nat.le_of_lt h.1, Nat.le_of_lt h.2⟩

theorem Holds.even_of_eq {x : Magnitude} {numerator denominator : Nat}
    (h : x.Holds numerator denominator)
    (heq : x.lowerEnd * denominator = 4 * numerator ∨ 4 * numerator = x.upperEnd * denominator) :
    x.significand % 2 = 0 := by
  unfold Holds at h
  split at h
  · assumption
  · omega

theorem holds_mul_right_iff {x : Magnitude} {numerator denominator factor : Nat}
    (hfactor : 0 < factor) :
    x.Holds (numerator * factor) (denominator * factor) ↔ x.Holds numerator denominator := by
  unfold Holds
  simp only [← Nat.mul_assoc, Nat.mul_le_mul_right_iff hfactor, Nat.mul_lt_mul_right hfactor]

theorem lowerEnd_eq (x : Magnitude) : x.lowerEnd =
    (4 * x.significand - if x.IsNarrowBelow then 1 else 2) * 2 ^ x.scale :=
  Nat.shiftLeft_eq _ _

theorem upperEnd_eq (x : Magnitude) : x.upperEnd = (4 * x.significand + 2) * 2 ^ x.scale :=
  Nat.shiftLeft_eq _ _

theorem significandFor_eq (numerator denominator : Nat) :
    significandFor numerator denominator =
      roundHalfEven numerator (denominator * 2 ^ scaleFor (numerator / denominator)) := by
  rw [significandFor, Nat.shiftLeft_eq]

theorem lowerEnd_mul_add {x : Magnitude} (denominator : Nat) :
    4 * (x.significand * (denominator * 2 ^ x.scale)) ≤
      x.lowerEnd * denominator + 2 * (denominator * 2 ^ x.scale) := by
  have hends : 4 * x.significand ≤ (4 * x.significand - if x.IsNarrowBelow then 1 else 2) + 2 := by
    split <;> omega
  calc 4 * (x.significand * (denominator * 2 ^ x.scale))
      = 4 * x.significand * (denominator * 2 ^ x.scale) := by ring
    _ ≤ ((4 * x.significand - if x.IsNarrowBelow then 1 else 2) + 2) *
          (denominator * 2 ^ x.scale) := Nat.mul_le_mul_right _ hends
    _ = x.lowerEnd * denominator + 2 * (denominator * 2 ^ x.scale) := by
      rw [lowerEnd_eq]
      ring

theorem upperEnd_mul (x : Magnitude) (denominator : Nat) :
    x.upperEnd * denominator = 4 * (x.significand * (denominator * 2 ^ x.scale)) +
      2 * (denominator * 2 ^ x.scale) := by
  rw [upperEnd_eq]
  ring

theorem nearest?_eq_of_le {x : Magnitude} {numerator denominator : Nat}
    (hdenominator : 0 < denominator) (h : x.Holds numerator denominator)
    (hlow : x.scale = 0 ∨ 2 ^ 52 * (denominator * 2 ^ x.scale) ≤ numerator) :
    nearest? numerator denominator = some x := by
  obtain ⟨hlower, hupper⟩ := h.bounds
  have heven := h.even_of_eq
  have hbelow := lowerEnd_mul_add (x := x) denominator
  have hunit : 0 < denominator * 2 ^ x.scale := Nat.mul_pos hdenominator (Nat.two_pow_pos _)
  have hsignificand : x.significand * (denominator * 2 ^ x.scale) ≤
      (2 ^ 53 - 1) * (denominator * 2 ^ x.scale) :=
    Nat.mul_le_mul_right _ (Nat.le_sub_one_of_lt x.significand_lt)
  rw [upperEnd_mul] at hupper heven
  have hscale : scaleFor (numerator / denominator) = x.scale :=
    scaleFor_div_eq hdenominator hlow (by omega)
  have hround : significandFor numerator denominator = x.significand := by
    rw [significandFor_eq, hscale]
    exact roundHalfEven_eq hunit (by omega) (by omega) (fun _ => heven (.inl (by omega)))
      (fun _ => heven (.inr (by omega)))
  simp only [nearest?, hround, hscale, x.significand_lt, x.scale_le, dite_true]

/-- A quotient in the interval of a least significand that is below it: it rounds up to it from the
scale below. -/
theorem nearest?_eq_of_lt {x : Magnitude} {numerator denominator : Nat}
    (hdenominator : 0 < denominator) (h : x.Holds numerator denominator)
    (hscale : x.scale ≠ 0) (hhigh : numerator < 2 ^ 52 * (denominator * 2 ^ x.scale)) :
    nearest? numerator denominator = some x := by
  obtain ⟨hlower, -⟩ := h.bounds
  have hnarrow : x.IsNarrowBelow := by
    refine ⟨?_, Nat.pos_of_ne_zero hscale⟩
    apply Nat.le_antisymm _ (x.canonical.resolve_left hscale)
    by_contra hgreater
    have hbelow := lowerEnd_mul_add (x := x) denominator
    have hmul : (2 ^ 52 + 1) * (denominator * 2 ^ x.scale) ≤
        x.significand * (denominator * 2 ^ x.scale) := Nat.mul_le_mul_right _ (by omega)
    omega
  obtain ⟨scale, hsucc⟩ : ∃ scale, x.scale = scale + 1 := Nat.exists_eq_succ_of_ne_zero hscale
  have hpow : 2 ^ (scale + 1) = 2 ^ scale * 2 := pow_succ 2 scale
  have hend : (2 ^ 54 - 1) * (2 * (denominator * 2 ^ scale)) ≤ 4 * numerator := by
    have hfactor : 2 ^ scale * 2 * denominator = 2 * (denominator * 2 ^ scale) := by ring
    rw [lowerEnd_eq, if_pos hnarrow, hnarrow.1, Nat.one_shiftLeft, hsucc, hpow, Nat.mul_assoc,
      hfactor] at hlower
    omega
  have hless : numerator < 2 ^ 53 * (denominator * 2 ^ scale) := by
    rw [hsucc, hpow] at hhigh
    linarith
  have hunit : 0 < denominator * 2 ^ scale := Nat.mul_pos hdenominator (Nat.two_pow_pos _)
  have hscaleFor : scaleFor (numerator / denominator) = scale :=
    scaleFor_div_eq hdenominator (.inr (by omega)) hless
  have hround : significandFor numerator denominator = 1 <<< 53 := by
    rw [significandFor_eq, hscaleFor, Nat.one_shiftLeft]
    exact roundHalfEven_eq hunit (by omega) (by omega) (fun _ => rfl) (fun _ => rfl)
  have hscaleLe : scale + 1 ≤ 2045 := hsucc ▸ x.scale_le
  have hx : x = ⟨1 <<< 52, scale + 1, by decide, hscaleLe, .inr (Nat.le_refl _)⟩ := by
    rcases x with ⟨significand, scale, hsignificand, hscaleLe, hcanonical⟩
    simp only [Magnitude.mk.injEq]
    exact ⟨hnarrow.1, hsucc⟩
  simp only [nearest?, hround, hscaleFor, hscaleLe, Nat.lt_irrefl, dite_true, dite_false, hx]

theorem nearest?_eq {x : Magnitude} {numerator denominator : Nat} (hdenominator : 0 < denominator)
    (h : x.Holds numerator denominator) : nearest? numerator denominator = some x := by
  by_cases hscale : x.scale = 0
  · exact nearest?_eq_of_le hdenominator h (.inl hscale)
  · rcases Nat.lt_or_ge numerator (2 ^ 52 * (denominator * 2 ^ x.scale)) with hlt | hge
    · exact nearest?_eq_of_lt hdenominator h hscale hlt
    · exact nearest?_eq_of_le hdenominator h (.inr hge)

theorem Holds.eq {x y : Magnitude} {numerator denominator otherNumerator otherDenominator : Nat}
    (hx : x.Holds numerator denominator) (hy : y.Holds otherNumerator otherDenominator)
    (hdenominator : 0 < denominator) (hother : 0 < otherDenominator)
    (heq : numerator * otherDenominator = otherNumerator * denominator) : x = y := by
  have hx' := (holds_mul_right_iff hother).mpr hx
  have hy' := (holds_mul_right_iff hdenominator).mpr hy
  rw [← heq, Nat.mul_comm otherDenominator] at hy'
  have hnearest := nearest?_eq (Nat.mul_pos hdenominator hother) hx'
  rw [nearest?_eq (Nat.mul_pos hdenominator hother) hy'] at hnearest
  exact (Option.some.inj hnearest).symm

theorem units_eq (x : Magnitude) : x.units = x.significand * 2 ^ x.scale :=
  Nat.shiftLeft_eq _ _

theorem unitsPerOne_eq : unitsPerOne = 2 ^ 1074 := by
  rw [unitsPerOne, Nat.one_shiftLeft]

theorem holds_of_exact {x : Magnitude} {numerator denominator : Nat} (hx : x.significand ≠ 0)
    (hdenominator : 0 < denominator) (hexact : numerator = x.units * denominator) :
    x.Holds numerator denominator := by
  have hunit : 0 < 2 ^ x.scale * denominator := Nat.mul_pos (Nat.two_pow_pos _) hdenominator
  have hlower : x.lowerEnd * denominator < 4 * numerator := by
    have hends : (4 * x.significand - if x.IsNarrowBelow then 1 else 2) < 4 * x.significand := by
      split <;> omega
    calc x.lowerEnd * denominator
        = (4 * x.significand - if x.IsNarrowBelow then 1 else 2) * (2 ^ x.scale * denominator) := by
          rw [lowerEnd_eq]
          ring
      _ < 4 * x.significand * (2 ^ x.scale * denominator) := Nat.mul_lt_mul_of_pos_right hends hunit
      _ = 4 * numerator := by
          rw [hexact, units_eq]
          ring
  have hupper : 4 * numerator < x.upperEnd * denominator := by
    calc 4 * numerator = 4 * x.significand * (2 ^ x.scale * denominator) := by
          rw [hexact, units_eq]
          ring
      _ < (4 * x.significand + 2) * (2 ^ x.scale * denominator) :=
          Nat.mul_lt_mul_of_pos_right (by omega) hunit
      _ = x.upperEnd * denominator := by
          rw [upperEnd_eq]
          ring
  unfold Holds
  split
  · exact ⟨Nat.le_of_lt hlower, Nat.le_of_lt hupper⟩
  · exact ⟨hlower, hupper⟩

theorem denominator_pos (d : Decimal) : 0 < d.denominator :=
  Nat.pow_pos (by decide)

theorem attracts_iff_holds (x : Magnitude) (d : Decimal) :
    x.Attracts d ↔ x.Holds (d.numerator * unitsPerOne) d.denominator := by
  have hquarters : d.scaledQuarters = 4 * (d.numerator * unitsPerOne) := by
    rw [Decimal.scaledQuarters]
    ring
  rw [Attracts, Holds, hquarters]

end Magnitude

end ConfTree
