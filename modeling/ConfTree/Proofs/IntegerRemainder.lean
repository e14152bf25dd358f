import ConfTree.Expression.Operator
import ConfTree.Proofs.CorrectRounding
import Mathlib.Algebra.Order.Group.Unbundled.Int
import Mathlib.Data.Int.Cast.Lemmas

/-!
The remainder of two numbers.  Both are narrowed to integers, and a narrowed number still has a
significand of 53 binary digits, unless it was too great and became the greatest integer of 64 bits.
Remainders of such integers need no more digits, so that only a dividend that was too great leaves a
remainder that is rounded.
-/

namespace ConfTree

/-- A whole number has a significand of at most 53 binary digits. -/
def FitsSignificand (n : Nat) : Prop :=
  ∃ significand scale, significand < 2 ^ 53 ∧ n = significand * 2 ^ scale

/-- Of two whole numbers with short significands the smaller power of two divides the remainder,
and what is left of it is less than one of the significands. -/
theorem FitsSignificand.mod {n m : Nat} (hn : FitsSignificand n) (hm : FitsSignificand m) :
    FitsSignificand (n % m) := by
  obtain ⟨first, scale, hfirst, rfl⟩ := hn
  obtain ⟨second, other, hsecond, rfl⟩ := hm
  rcases Nat.le_total scale other with hle | hle
  · refine ⟨first % (second * 2 ^ (other - scale)), scale, (Nat.mod_le _ _).trans_lt hfirst, ?_⟩
    rw [← Nat.mul_mod_mul_right, Nat.mul_assoc second, ← Nat.pow_add, Nat.sub_add_cancel hle]
  · rcases Nat.eq_zero_or_pos second with rfl | hpos
    · rw [Nat.zero_mul, Nat.mod_zero]
      exact ⟨first, scale, hfirst, rfl⟩
    · refine ⟨first * 2 ^ (scale - other) % second, other, (Nat.mod_lt _ hpos).trans hsecond, ?_⟩
      rw [← Nat.mul_mod_mul_right, Nat.mul_assoc first, ← Nat.pow_add, Nat.sub_add_cancel hle]

namespace Magnitude

theorem exists_units_eq {significand scale : Nat} (hsignificand : significand < 2 ^ 53)
    (hbound : significand * 2 ^ scale ≤ greatest.units) :
    ∃ x : Magnitude, x.units = significand * 2 ^ scale := by
  induction scale generalizing significand with
  | zero => exact ⟨⟨significand, 0, hsignificand, Nat.zero_le _, .inl rfl⟩, units_eq _⟩
  | succ scale ih =>
      rcases Nat.lt_or_ge significand (2 ^ 52) with hless | hge
      · have hshift : significand * 2 ^ (scale + 1) = 2 * significand * 2 ^ scale := by
          rw [pow_succ]
          ring
        rw [hshift] at hbound ⊢
        exact ih (by omega) hbound
      · have hgreatest : greatest.units < 2 ^ 52 * 2 ^ (greatest.scale + 1) := by
          have hpos : 0 < 2 ^ greatest.scale := Nat.two_pow_pos _
          have hsignificand : greatest.significand = 2 ^ 53 - 1 := rfl
          rw [units_eq, hsignificand, pow_succ]
          omega
        have hpow : 2 ^ (scale + 1) < 2 ^ (greatest.scale + 1) :=
          Nat.lt_of_mul_lt_mul_left
            (((Nat.mul_le_mul_right _ hge).trans hbound).trans_lt hgreatest)
        have hscale := (Nat.pow_lt_pow_iff_right (by decide)).mp hpow
        exact ⟨⟨significand, scale + 1, hsignificand, Nat.le_of_lt_succ hscale, .inr hge⟩,
          units_eq _⟩

theorem leastSignificand_lt : 1 <<< 52 < 1 <<< 53 := by
  decide

def leastAt (scale : Nat) (hscale : scale ≤ 2045) : Magnitude :=
  ⟨1 <<< 52, scale, leastSignificand_lt, hscale, .inr (Nat.le_refl _)⟩

theorem natCast_le_rational_iff {n : Nat} {x : Magnitude} :
    (n : ℚ) ≤ x.rational ↔ n ≤ x.units / unitsPerOne := by
  rw [rational, le_div_iff₀ cast_unitsPerOne_pos, Nat.le_div_iff_mul_le unitsPerOne_pos]
  exact_mod_cast Iff.rfl

theorem fitsSignificand_units_div (x : Magnitude) : FitsSignificand (x.units / unitsPerOne) := by
  have hlt := x.significand_lt
  rw [units_eq, unitsPerOne_eq]
  generalize 1074 = point
  rcases Nat.le_total point x.scale with hle | hle
  · obtain ⟨count, hcount⟩ := Nat.exists_eq_add_of_le hle
    refine ⟨x.significand, count, hlt, ?_⟩
    rw [hcount, Nat.add_comm, Nat.pow_add, ← Nat.mul_assoc]
    exact Nat.mul_div_cancel _ (Nat.two_pow_pos _)
  · obtain ⟨count, rfl⟩ := Nat.exists_eq_add_of_le hle
    refine ⟨x.significand / 2 ^ count, 0, (Nat.div_le_self _ _).trans_lt hlt, ?_⟩
    rw [Nat.add_comm, Nat.pow_add, Nat.mul_div_mul_right _ _ (Nat.two_pow_pos _), pow_zero,
      Nat.mul_one]

end Magnitude

theorem FitsSignificand.exists_rational_eq {n : Nat} (h : FitsSignificand n) (hn : n ≤ 2 ^ 63) :
    ∃ x : Magnitude, x.rational = n := by
  obtain ⟨significand, scale, hsignificand, rfl⟩ := h
  have hgreatest : 2 ^ 63 * Magnitude.unitsPerOne ≤ Magnitude.greatest.units := by decide +kernel
  have hunits : significand * 2 ^ scale * Magnitude.unitsPerOne =
      significand * 2 ^ (scale + 1074) := by
    rw [Magnitude.unitsPerOne_eq, Nat.pow_add, Nat.mul_assoc]
  obtain ⟨x, hx⟩ := Magnitude.exists_units_eq hsignificand
    (hunits ▸ (Nat.mul_le_mul_right _ hn).trans hgreatest)
  refine ⟨x, ?_⟩
  rw [Magnitude.rational, hx, ← hunits, Nat.cast_mul,
    mul_div_cancel_right₀ _ Magnitude.cast_unitsPerOne_pos.ne']

namespace Binary64

theorem isRounded_ofInt (z : ℤ) : IsRounded (z < 0) z.natAbs (ofInt z) := by
  have hone : (Magnitude.unitsPerOne : ℤ) > 0 := Int.natCast_pos.mpr Magnitude.unitsPerOne_pos
  have hquotient : (z.natAbs : ℚ) =
      (z.natAbs * Magnitude.unitsPerOne : Nat) / ((1 : Nat) * Magnitude.unitsPerOne) := by
    rw [Nat.cast_mul, Nat.cast_one, one_mul,
      mul_div_cancel_right₀ _ Magnitude.cast_unitsPerOne_pos.ne']
  rw [hquotient, isRounded_iff Nat.one_pos, ofInt, ofUnits]
  split
  · rename_i hzero
    obtain rfl := (mul_eq_zero.mp hzero).resolve_right hone.ne'
    decide +kernel
  · have hsign : z * Magnitude.unitsPerOne < 0 ↔ z < 0 := by
      rw [← not_le, ← not_le, mul_nonneg_iff_of_pos_right hone]
    rw [Int.natAbs_mul, Int.natAbs_natCast, decide_eq_decide.mpr hsign]

theorem rational?_ofInt {z : ℤ} (h : FitsSignificand z.natAbs) (hz : z.natAbs ≤ 2 ^ 63) :
    (ofInt z).rational? = some ↑z := by
  obtain ⟨x, hx⟩ := h.exists_rational_eq hz
  have hrounded := isRounded_ofInt z
  rw [← hx] at hrounded
  rw [hrounded.eq_finite, rational?, hx]
  congr 1
  split
  · rename_i hnegative
    have habs : -(z.natAbs : ℤ) = z := by
      have hnegative := of_decide_eq_true hnegative
      omega
    rw [← Int.cast_natCast, ← Int.cast_neg, habs]
  · rename_i hnonneg
    have habs : (z.natAbs : ℤ) = z := by
      have hnonneg := mt decide_eq_true hnonneg
      omega
    rw [← Int.cast_natCast, habs]

def IsAtLeast (bound : ℚ) : Binary64 → Prop
  | .nan => False
  | .infinity negative => negative = false
  | .finite negative x => bound ≤ if negative then -x.rational else x.rational

theorem isAtLeast_finite_false_iff {x : Magnitude} :
    IsAtLeast (2 ^ 63) (.finite false x) ↔ 2 ^ 63 ≤ x.units / Magnitude.unitsPerOne := by
  rw [← Magnitude.natCast_le_rational_iff, Nat.cast_pow, Nat.cast_ofNat]
  exact Iff.rfl

theorem not_isAtLeast_finite_true (x : Magnitude) : ¬IsAtLeast (2 ^ 63) (.finite true x) := by
  have hnonneg := x.rational_nonneg
  have hpos : (0 : ℚ) < 2 ^ 63 := by norm_num
  intro h
  have hle : 2 ^ 63 ≤ -x.rational := h
  linarith

theorem toLong_finite (negative : Bool) (x : Magnitude) :
    (finite negative x).toLong =
      max (-2 ^ 63) (min (2 ^ 63 - 1) (signed negative (x.units / Magnitude.unitsPerOne))) :=
  rfl

theorem toLong_of_isAtLeast {a : Binary64} (h : a.IsAtLeast (2 ^ 63)) :
    a.toLong = 2 ^ 63 - 1 := by
  cases a with
  | nan => exact h.elim
  | infinity negative =>
      obtain rfl : negative = false := h
      rfl
  | finite negative x =>
      cases negative with
      | false =>
          have hle := isAtLeast_finite_false_iff.mp h
          rw [toLong_finite, signed, if_neg Bool.false_ne_true]
          omega
      | true => exact absurd h (not_isAtLeast_finite_true x)

theorem fitsSignificand_toLong {a : Binary64} (h : ¬a.IsAtLeast (2 ^ 63)) :
    FitsSignificand a.toLong.natAbs := by
  have hleast : FitsSignificand (2 ^ 63) := ⟨1, 63, by decide, by decide⟩
  cases a with
  | nan => exact ⟨0, 0, by decide, rfl⟩
  | infinity negative =>
      cases negative with
      | false => exact absurd rfl h
      | true => exact hleast
  | finite negative x =>
      have hfits := x.fitsSignificand_units_div
      rw [toLong_finite]
      cases negative with
      | false =>
          rw [isAtLeast_finite_false_iff] at h
          rw [signed, if_neg Bool.false_ne_true]
          generalize x.units / Magnitude.unitsPerOne = whole at *
          have habs : (max (-2 ^ 63) (min (2 ^ 63 - 1) (whole : ℤ))).natAbs = whole := by omega
          rwa [habs]
      | true =>
          rw [signed, if_pos rfl]
          generalize x.units / Magnitude.unitsPerOne = whole at *
          rcases Nat.le_total whole (2 ^ 63) with hle | hle
          · have habs : (max (-2 ^ 63) (min (2 ^ 63 - 1) (-(whole : ℤ)))).natAbs = whole := by omega
            rwa [habs]
          · have habs : (max (-2 ^ 63) (min (2 ^ 63 - 1) (-(whole : ℤ)))).natAbs = 2 ^ 63 := by
              omega
            rwa [habs]

theorem toLong_bounds (a : Binary64) : -2 ^ 63 ≤ a.toLong ∧ a.toLong ≤ 2 ^ 63 - 1 := by
  cases a with
  | nan => decide
  | infinity negative => cases negative <;> decide
  | finite negative x =>
      rw [toLong_finite]
      omega

theorem natAbs_toLong_le (a : Binary64) : a.toLong.natAbs ≤ 2 ^ 63 := by
  obtain ⟨hlower, hupper⟩ := toLong_bounds a
  omega

theorem fitsSignificand_toLong_mod {a : Binary64} (h : ¬a.IsAtLeast (2 ^ 63)) (b : Binary64) :
    FitsSignificand (a.toLong.natAbs % b.toLong.natAbs) := by
  have ha := fitsSignificand_toLong h
  by_cases hb : b.IsAtLeast (2 ^ 63)
  · have hle := natAbs_toLong_le a
    have habs : (2 ^ 63 - 1 : ℤ).natAbs = 2 ^ 63 - 1 := rfl
    rw [toLong_of_isAtLeast hb, habs]
    rcases Nat.lt_trichotomy a.toLong.natAbs (2 ^ 63 - 1) with hlt | heq | hgt
    · rwa [Nat.mod_eq_of_lt hlt]
    · rw [heq, Nat.mod_self]
      exact ⟨0, 0, by decide, rfl⟩
    · have heq : a.toLong.natAbs = 2 ^ 63 := by omega
      rw [heq]
      exact ⟨1, 0, by decide, by decide⟩
  · exact ha.mod (fitsSignificand_toLong hb)

/-- The result is the remainder that a division of integers rounding towards zero leaves, and it is
not rounded.  A zero has no minus sign, and any other remainder has the sign of the dividend. -/
structure IsExactRemainder (dividend divisor : ℤ) (r : Binary64) : Prop where
  exact : ∃ z : ℤ, r.rational? = some ↑z ∧ divisor ∣ dividend - z ∧ |z| < |divisor|
  sign : r = .finite false .zero ∨ ∃ x, x ≠ .zero ∧ r = .finite (dividend < 0) x

theorem natAbs_tmod_lt (dividend : ℤ) {divisor : ℤ} (hdivisor : divisor ≠ 0) :
    (dividend.tmod divisor).natAbs < divisor.natAbs := by
  rw [Int.natAbs_tmod]
  exact Nat.mod_lt _ (Int.natAbs_pos.mpr hdivisor)

theorem isExactRemainder_remainder {dividend divisor : ℤ} (hdivisor : divisor ≠ 0)
    (hbound : divisor.natAbs ≤ 2 ^ 63)
    (hfits : FitsSignificand (dividend.natAbs % divisor.natAbs)) :
    IsExactRemainder dividend divisor (remainder dividend divisor) := by
  have hlt := natAbs_tmod_lt dividend hdivisor
  rw [← Int.natAbs_tmod] at hfits
  constructor
  · refine ⟨dividend.tmod divisor, rational?_ofInt hfits (by omega), Int.dvd_self_sub_tmod, ?_⟩
    rw [← Int.natCast_natAbs, ← Int.natCast_natAbs]
    exact_mod_cast hlt
  · by_cases hzero : dividend.tmod divisor = 0
    · left
      rw [remainder, hzero]
      decide +kernel
    · right
      obtain ⟨x, hx⟩ := hfits.exists_rational_eq (by omega)
      have hrounded := isRounded_ofInt (dividend.tmod divisor)
      rw [← hx] at hrounded
      refine ⟨x, ?_, ?_⟩
      · rintro rfl
        rw [Magnitude.rational_zero, eq_comm, Nat.cast_eq_zero, Int.natAbs_eq_zero] at hx
        exact hzero hx
      · rw [remainder, hrounded.eq_finite]
        congr 1
        rw [decide_eq_decide, ← Int.sign_eq_neg_one_iff_neg, ← Int.sign_eq_neg_one_iff_neg,
          Int.sign_tmod, if_neg (mt Int.tmod_eq_zero_of_dvd hzero)]

theorem remainder_of_isAtLeast {a b : Binary64} (ha : a.IsAtLeast (2 ^ 63)) (hb : b.toLong ≠ 0) :
    IsRounded false (a.toLong.natAbs % b.toLong.natAbs : Nat) (remainder a.toLong b.toLong) ∧
      ∃ x, remainder a.toLong b.toLong = .finite false x ∧ x.rational ≤ b.toLong.natAbs := by
  have hdividend := toLong_of_isAtLeast ha
  have hnonneg : ¬a.toLong.tmod b.toLong < 0 := by
    rw [hdividend]
    exact not_lt.mpr (Int.tmod_nonneg _ (by decide))
  have hrounded := isRounded_ofInt (a.toLong.tmod b.toLong)
  rw [decide_eq_false hnonneg, Int.natAbs_tmod] at hrounded
  refine ⟨hrounded, ?_⟩
  by_cases hsaturated : b.IsAtLeast (2 ^ 63)
  · refine ⟨.zero, ?_, ?_⟩
    · rw [hdividend, toLong_of_isAtLeast hsaturated]
      decide +kernel
    · rw [Magnitude.rational_zero]
      exact Nat.cast_nonneg _
  · obtain ⟨y, hy⟩ := (fitsSignificand_toLong hsaturated).exists_rational_eq (natAbs_toLong_le b)
    rw [← hy]
    apply hrounded.exists_le
    rw [hy, Nat.cast_le]
    exact (Nat.mod_lt _ (Int.natAbs_pos.mpr hb)).le

end Binary64

namespace Operator

theorem evaluate_mod_number (a b : Binary64) : evaluate .mod (.number a) (.number b) =
    if b.toLong = 0 then .error .divisionByZero
    else .ok (.number (.remainder a.toLong b.toLong)) :=
  rfl

theorem message_invalidOperands_ne (left right : Kind) :
    (ExpressionError.invalidOperands .mod left right).message ≠
      "division by zero in mod()".toList := by
  cases left <;> cases right <;> decide

theorem evaluate_mod_eq_error_iff {left right : Value} :
    (∃ error, evaluate .mod left right = .error error ∧
        error.message = "division by zero in mod()".toList) ↔
      ∃ a b, left = .number a ∧ right = .number b ∧ b.toLong = 0 := by
  constructor
  · rintro ⟨error, herror, hmessage⟩
    by_cases hnumbers : ∃ a b, left = .number a ∧ right = .number b
    · obtain ⟨a, b, rfl, rfl⟩ := hnumbers
      rw [evaluate_mod_number] at herror
      split at herror
      · exact ⟨a, b, rfl, rfl, ‹_›⟩
      · simp at herror
    · have hkinds : evaluate .mod left right =
          .error (.invalidOperands .mod left.kind right.kind) := by
        unfold evaluate
        split
        · contradiction
        · exact absurd ⟨_, _, rfl, rfl⟩ hnumbers
        · rfl
      rw [hkinds] at herror
      obtain rfl := Except.error.inj herror
      exact absurd hmessage (message_invalidOperands_ne _ _)
  · rintro ⟨a, b, rfl, rfl, hb⟩
    exact ⟨.divisionByZero, by rw [evaluate_mod_number, if_pos hb], rfl⟩

/-- A quotient of the greatest integer by `2 ^ 62` leaves an integer of 62 binary digits, all of
them ones, and the number nearest to it is the divisor. -/
theorem evaluate_mod_saturated :
    evaluate .mod (.number (.finite false (.leastAt 1085 (by decide))))
        (.number (.finite false (.leastAt 1084 (by decide)))) =
      .ok (.number (.finite false (.leastAt 1084 (by decide)))) := by
  have hnarrowed : (Binary64.finite false (.leastAt 1084 (by decide))).toLong ≠ 0 := by
    decide +kernel
  have hremainder : Binary64.remainder
        (Binary64.finite false (.leastAt 1085 (by decide))).toLong
        (Binary64.finite false (.leastAt 1084 (by decide))).toLong =
      .finite false (.leastAt 1084 (by decide)) := by decide +kernel
  rw [evaluate_mod_number, if_neg hnarrowed, hremainder]

/-- The operator leaves the exact remainder of the narrowed operands, of a dividend that is too
great the correctly rounded one, which may be the divisor, and it refuses exactly the divisors that
are narrowed to zero. -/
theorem mod_exact_unless_saturated :
    (∀ a b : Binary64, b.toLong ≠ 0 → ∃ r,
      evaluate .mod (.number a) (.number b) = .ok (.number r) ∧
      r ≠ .finite true .zero ∧ r.rational? ≠ none ∧
      (¬a.IsAtLeast (2 ^ 63) → r.IsExactRemainder a.toLong b.toLong) ∧
      (a.IsAtLeast (2 ^ 63) → a.toLong = 2 ^ 63 - 1 ∧
        Binary64.IsRounded false (a.toLong.natAbs % b.toLong.natAbs : Nat) r ∧
        ∃ q, r.rational? = some q ∧ 0 ≤ q ∧ q ≤ |(b.toLong : ℚ)|)) ∧
    (∃ a b r : Binary64, a.IsAtLeast (2 ^ 63) ∧ b.toLong ≠ 0 ∧
      evaluate .mod (.number a) (.number b) = .ok (.number r) ∧
      r.rational? = some |(b.toLong : ℚ)|) ∧
    ∀ left right : Value,
      (∃ error, evaluate .mod left right = .error error ∧
          error.message = "division by zero in mod()".toList) ↔
        ∃ a b, left = .number a ∧ right = .number b ∧ b.toLong = 0 := by
  refine ⟨fun a b hb => ⟨.remainder a.toLong b.toLong, ?_, ?_⟩, ?_, fun _ _ =>
    evaluate_mod_eq_error_iff⟩
  · rw [evaluate_mod_number, if_neg hb]
  · by_cases ha : a.IsAtLeast (2 ^ 63)
    · obtain ⟨hrounded, x, hx, hle⟩ := Binary64.remainder_of_isAtLeast ha hb
      rw [Nat.cast_natAbs, Int.cast_abs] at hle
      rw [hx] at hrounded ⊢
      exact ⟨by simp, by simp [Binary64.rational?], fun h => absurd ha h, fun _ =>
        ⟨Binary64.toLong_of_isAtLeast ha, hrounded, x.rational, rfl, x.rational_nonneg, hle⟩⟩
    · have hexact := Binary64.isExactRemainder_remainder hb (Binary64.natAbs_toLong_le b)
        (Binary64.fitsSignificand_toLong_mod ha b)
      obtain ⟨z, hz, -, -⟩ := hexact.exact
      refine ⟨?_, by simp [hz], fun _ => hexact, fun h => absurd h ha⟩
      intro hr
      rcases hexact.sign with hzero | ⟨x, hx, hsign⟩
      · rw [hr] at hzero
        simp at hzero
      · rw [hr] at hsign
        exact hx (Binary64.finite.inj hsign).2.symm
  · refine ⟨_, _, _, ?_, ?_, evaluate_mod_saturated, ?_⟩
    · rw [Binary64.isAtLeast_finite_false_iff]
      decide +kernel
    · decide +kernel
    · have hnarrowed : (Binary64.finite false (.leastAt 1084 (by decide))).toLong = 2 ^ 62 := by
        decide +kernel
      have hunits : (Magnitude.leastAt 1084 (by decide)).units =
          2 ^ 62 * Magnitude.unitsPerOne := by decide +kernel
      rw [hnarrowed, Binary64.rational?, Magnitude.rational, hunits, Nat.cast_mul,
        mul_div_cancel_right₀ _ Magnitude.cast_unitsPerOne_pos.ne']
      norm_num

theorem mod_exact_of_negative_dividend :
    (Binary64.ofInt 3).toLong = 3 ∧ ∃ r,
      evaluate .mod (.number (.finite true (.leastAt 1084 (by decide)))) (.number (.ofInt 3)) =
        .ok (.number r) ∧ r.IsExactRemainder (-2 ^ 62) 3 := by
  have hdividend : (Binary64.finite true (.leastAt 1084 (by decide))).toLong = -2 ^ 62 := by
    decide +kernel
  have hdivisor : (Binary64.ofInt 3).toLong = 3 := by decide +kernel
  obtain ⟨r, hr, -, -, hexact, -⟩ := mod_exact_unless_saturated.1
    (.finite true (.leastAt 1084 (by decide))) (.ofInt 3) (by rw [hdivisor]; decide)
  rw [hdividend, hdivisor] at hexact
  exact ⟨hdivisor, r, hr, hexact (Binary64.not_isAtLeast_finite_true _)⟩

end Operator

end ConfTree
