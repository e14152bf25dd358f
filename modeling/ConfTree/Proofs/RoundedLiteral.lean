import ConfTree.Proofs.CorrectRounding
import ConfTree.Proofs.DecimalSpelling
import ConfTree.Proofs.LeafReading
import ConfTree.Proofs.PostfixEvaluation

namespace ConfTree

namespace Magnitude

/-! The ends of the range: below the least normal magnitude, and around zero. -/

def greatestSubnormal : Magnitude :=
  ⟨2 ^ 52 - 1, 0, by decide, zero.scale_le, .inl rfl⟩

theorem exponentField_eq_zero_iff {x : Magnitude} :
    x.exponentField = 0 ↔ x.rational ≤ greatestSubnormal.rational := by
  have hgreatest : greatestSubnormal.units = 2 ^ 52 - 1 := rfl
  rw [← not_lt, rational_lt_rational_iff, hgreatest, Nat.not_lt, units_eq, exponentField]
  by_cases hless : x.significand < 1 <<< 52
  · have hscale : x.scale = 0 := x.canonical.resolve_right (Nat.not_le.mpr hless)
    rw [if_pos hless, hscale, pow_zero, Nat.mul_one]
    exact iff_of_true rfl (Nat.le_sub_one_of_lt hless)
  · have hle : x.significand ≤ x.significand * 2 ^ x.scale :=
      Nat.le_mul_of_pos_right _ (Nat.two_pow_pos _)
    rw [if_neg hless]
    exact iff_of_false (Nat.succ_ne_zero _) (by omega)

theorem upper_of_scale_eq_zero {x : Magnitude} (h : x.scale = 0) :
    x.upper = (2 * x.significand + 1) / 2 ^ 1075 := by
  have hends : x.upperEnd = 2 * (2 * x.significand + 1) := by
    rw [upperEnd_eq, h, pow_zero]
    omega
  have hpower : (4 * unitsPerOne : ℚ) = 2 * 2 ^ 1075 := by
    rw [unitsPerOne_eq, pow_succ 2 1074, Nat.cast_pow, Nat.cast_ofNat]
    generalize (2 : ℚ) ^ 1074 = power
    ring
  rw [upper, hends, hpower, Nat.cast_mul, Nat.cast_ofNat, mul_div_mul_left _ _ (by norm_num)]
  push_cast
  rfl

theorem mem_interval_zero_iff {q : ℚ} (hq : 0 ≤ q) : q ∈ zero.interval ↔ q ≤ 1 / 2 ^ 1075 := by
  have hlower : zero.lower = 0 := by
    rw [lower, lowerEnd_eq, show zero.significand = 0 from rfl, Nat.mul_zero, Nat.zero_sub,
      Nat.zero_mul, Nat.cast_zero, zero_div]
  have hupper : zero.upper = 1 / 2 ^ 1075 := by
    rw [upper_of_scale_eq_zero rfl, show zero.significand = 0 from rfl, Nat.cast_zero, mul_zero,
      zero_add]
  have heven : zero.significand % 2 = 0 := rfl
  rw [interval, if_pos heven, Set.mem_Icc, hlower, hupper]
  exact and_iff_right hq

end Magnitude

namespace NumberLiteral

def isNegative (literal : NumberLiteral) : Bool :=
  literal.sign = .minus

def absolute (literal : NumberLiteral) : ℚ :=
  Nat.ofDigitChars 10 literal.whole 0 +
    Nat.ofDigitChars 10 literal.fractionDigits 0 / 10 ^ literal.fractionDigits.length

theorem absolute_nonneg (literal : NumberLiteral) : 0 ≤ literal.absolute :=
  add_nonneg (Nat.cast_nonneg _) (div_nonneg (Nat.cast_nonneg _) (by positivity))

theorem denominator_eq (literal : NumberLiteral) :
    literal.denominator = 10 ^ literal.fractionDigits.length :=
  Nat.pow_eq

theorem absolute_eq_div (literal : NumberLiteral) :
    literal.absolute = literal.numerator / literal.denominator := by
  have hpower : (10 : ℚ) ^ literal.fractionDigits.length ≠ 0 := by positivity
  have hdigits : literal.numerator = 10 ^ literal.fractionDigits.length *
      Nat.ofDigitChars 10 literal.whole 0 + Nat.ofDigitChars 10 literal.fractionDigits 0 := by
    rw [numerator, Nat.ofDigitChars_append, Nat.ofDigitChars_eq_ofDigitChars_zero]
  rw [absolute, hdigits, denominator_eq]
  push_cast
  field_simp

theorem isRounded_iff_eq_value {literal : NumberLiteral} {x : Binary64} :
    Binary64.IsRounded literal.isNegative literal.absolute x ↔ x = literal.value := by
  have hone := Magnitude.cast_unitsPerOne_pos.ne'
  have hdenominator : 0 < literal.denominator := by
    rw [denominator_eq]
    exact Nat.pow_pos (by decide)
  have hquotient : literal.absolute = (literal.numerator * Magnitude.unitsPerOne : Nat) /
      (literal.denominator * Magnitude.unitsPerOne) := by
    rw [absolute_eq_div, Nat.cast_mul, mul_div_mul_right _ _ hone]
  rw [hquotient, Binary64.isRounded_iff hdenominator, eq_comm]
  rfl

theorem value_eq_finite_iff {literal : NumberLiteral} {x : Magnitude} :
    literal.value = .finite literal.isNegative x ↔ literal.absolute ∈ x.interval := by
  rw [eq_comm, ← isRounded_iff_eq_value,
    Binary64.isRounded_finite_iff literal.absolute_nonneg, and_iff_right rfl]

theorem value_eq_infinity_iff {literal : NumberLiteral} :
    literal.value = .infinity literal.isNegative ↔ Binary64.overflowStart ≤ literal.absolute := by
  rw [eq_comm, ← isRounded_iff_eq_value, Binary64.IsRounded, and_iff_right rfl]

theorem exists_subnormal_iff {literal : NumberLiteral} :
    (∃ x : Magnitude, literal.value = .finite literal.isNegative x ∧ x.exponentField = 0) ↔
      literal.absolute < (2 ^ 53 - 1) / 2 ^ 1075 := by
  -- The significand is odd, so the end of the interval belongs to the least normal magnitude.
  have hodd : Magnitude.greatestSubnormal.significand % 2 ≠ 0 := by decide
  have hend : Magnitude.greatestSubnormal.upper = (2 ^ 53 - 1) / 2 ^ 1075 := by
    rw [Magnitude.upper_of_scale_eq_zero rfl]
    norm_num [Magnitude.greatestSubnormal]
  rw [← hend]
  constructor
  · rintro ⟨x, hvalue, hfield⟩
    exact (Magnitude.rational_le_iff_lt_upper (value_eq_finite_iff.mp hvalue) hodd).mp
      (Magnitude.exponentField_eq_zero_iff.mp hfield)
  · intro hless
    have hgreatest : Magnitude.greatestSubnormal.rational < Magnitude.greatest.rational := by
      rw [Magnitude.rational_lt_rational_iff]
      decide +kernel
    have hle : literal.absolute ≤ Magnitude.greatest.rational := by
      linarith [Magnitude.upper_le_add_rational hgreatest]
    obtain ⟨x, hvalue, -⟩ := (isRounded_iff_eq_value.mpr rfl).exists_le hle
    exact ⟨x, hvalue, Magnitude.exponentField_eq_zero_iff.mpr
      ((Magnitude.rational_le_iff_lt_upper (value_eq_finite_iff.mp hvalue) hodd).mpr hless)⟩

theorem value_eq_zero_iff {literal : NumberLiteral} :
    literal.value = .finite literal.isNegative .zero ↔ literal.absolute ≤ 1 / 2 ^ 1075 := by
  rw [value_eq_finite_iff, Magnitude.mem_interval_zero_iff literal.absolute_nonneg]

/-- A literal with zeros put before its digits and, if it has a fraction, behind them. -/
def pad (literal : NumberLiteral) (leading trailing : Nat) : NumberLiteral where
  sign := literal.sign
  whole := Decimal.zeros leading ++ literal.whole
  fraction := literal.fraction.map (· ++ Decimal.zeros trailing)

theorem WellFormed.pad {literal : NumberLiteral} (h : literal.WellFormed)
    (leading trailing : Nat) : (literal.pad leading trailing).WellFormed := by
  have hzeros (count : Nat) : ∀ c ∈ Decimal.zeros count, Text.isDigit c = true :=
    fun _ => Decimal.isDigit_of_mem_zeros
  refine ⟨Decimal.isDigitRun_append (by simp [h.1.1]) (hzeros leading) h.1.2, ?_⟩
  intro fraction hfraction
  obtain ⟨digits, hdigits, rfl⟩ := Option.map_eq_some_iff.mp hfraction
  obtain ⟨hne, hrun⟩ := h.2 digits hdigits
  exact Decimal.isDigitRun_append (by simp [hne]) hrun (hzeros trailing)

theorem absolute_pad (literal : NumberLiteral) (leading trailing : Nat) :
    (literal.pad leading trailing).absolute = literal.absolute := by
  have hwhole : Nat.ofDigitChars 10 (Decimal.zeros leading ++ literal.whole) 0 =
      Nat.ofDigitChars 10 literal.whole 0 := by
    rw [Decimal.zeros, Nat.ofDigitChars_append, Nat.ofDigitChars_replicate_zero, Nat.mul_zero]
  rcases literal with ⟨sign, whole, fraction⟩
  cases fraction with
  | none => simp only [absolute, NumberLiteral.pad, fractionDigits, hwhole, Option.map_none]
  | some digits =>
      have hdigits : Nat.ofDigitChars 10 (digits ++ Decimal.zeros trailing) 0 =
          10 ^ trailing * Nat.ofDigitChars 10 digits 0 := by
        rw [Decimal.zeros, Nat.ofDigitChars_append, Nat.ofDigitChars_replicate_zero]
      have hlength : (digits ++ Decimal.zeros trailing).length = digits.length + trailing := by
        rw [List.length_append, Decimal.zeros, List.length_replicate]
      simp only [absolute, NumberLiteral.pad, fractionDigits, hwhole, Option.map_some,
        Option.getD_some, hdigits, hlength]
      push_cast
      rw [pow_add, mul_comm, mul_div_mul_right _ _ (by positivity)]

/-- A literal is read as a number in both places where it may stand: as a value in front of a text
that does not go on with it, and as a word of an expression. -/
structure ReadsAs (literal : NumberLiteral) (x : Binary64) : Prop where
  number : ∀ (fractionRequired : Bool) (rest : Text),
    (fractionRequired = true → literal.fraction ≠ none) →
    (Term.number literal).StopsBefore rest →
    Reading.Takes (Reading.number fractionRequired) literal.text rest (.number x)
  word : ∀ (constants : Constants) (stack : OperandStack),
    Evaluation.feed constants literal.text stack = .ok () (.number x :: stack)

theorem WellFormed.readsAs {literal : NumberLiteral} (h : literal.WellFormed) :
    literal.ReadsAs literal.value where
  number := fun _ _ hrequired hstops => Reading.takes_number h hrequired hstops
  word := fun constants stack => Evaluation.feed_word constants (.leaf (.number literal)) h stack

theorem ReadsAs.eq {literal : NumberLiteral} {x y : Binary64} (hx : literal.ReadsAs x)
    (hy : literal.ReadsAs y) : x = y := by
  have hword := hx.word [] []
  rw [hy.word] at hword
  simpa using hword.symm

theorem WellFormed.readsAs_iff {literal : NumberLiteral} (h : literal.WellFormed) {x : Binary64} :
    literal.ReadsAs x ↔ Binary64.IsRounded literal.isNegative literal.absolute x := by
  rw [isRounded_iff_eq_value]
  constructor
  · exact fun hreads => hreads.eq h.readsAs
  · rintro rfl
    exact h.readsAs

/-- Every literal is read as the number nearest to the exact one that it spells, an exact half as
the one with the even significand.  From half a step above the greatest magnitude on this is the
infinity with the sign of the literal, below half a step under the least normal magnitude a
subnormal number or a zero with this sign, and up to half the least magnitude the zero.  Literals
with the same sign and the same exact number are read as the same number, so zeros at the ends do
not matter.  Nothing else is read as a number literal. -/
theorem readsAs_nearest :
    (∀ literal : NumberLiteral, literal.WellFormed → ∃ x : Binary64, literal.ReadsAs x ∧ x ≠ .nan ∧
      (∀ y, Binary64.IsRounded literal.isNegative literal.absolute y ↔ y = x) ∧
      (x = .infinity literal.isNegative ↔ Binary64.overflowStart ≤ literal.absolute) ∧
      ((∃ magnitude : Magnitude, x = .finite literal.isNegative magnitude ∧
        magnitude.exponentField = 0) ↔ literal.absolute < (2 ^ 53 - 1) / 2 ^ 1075) ∧
      (x = .finite literal.isNegative .zero ↔ literal.absolute ≤ 1 / 2 ^ 1075)) ∧
    (∀ literal other : NumberLiteral, literal.WellFormed → other.WellFormed →
      literal.isNegative = other.isNegative → literal.absolute = other.absolute →
      ∀ x, literal.ReadsAs x → other.ReadsAs x) ∧
    (∀ (literal : NumberLiteral) (leading trailing : Nat), literal.WellFormed →
      ∀ x, literal.ReadsAs x → (literal.pad leading trailing).ReadsAs x) ∧
    (∀ (fractionRequired : Bool) (cursor after : Cursor) (result : Value),
      Reading.number fractionRequired cursor = .ok result after →
      ∃ (literal : NumberLiteral) (x : Binary64), literal.WellFormed ∧
        (fractionRequired = true → literal.fraction ≠ none) ∧ cursor.Moves literal.text after ∧
        literal.ReadsAs x ∧ result = .number x) ∧
    ∀ (word : Text) (literal : NumberLiteral),
      Token.ofWord word = .ok (.leaf (.number literal)) ↔
        literal.WellFormed ∧ literal.text = word := by
  refine ⟨fun literal hwell => ⟨literal.value, hwell.readsAs, ?_, fun y => isRounded_iff_eq_value,
    value_eq_infinity_iff, exists_subnormal_iff, value_eq_zero_iff⟩, ?_, ?_, ?_,
    fun word literal => Token.ofWord_eq_ok_iff⟩
  · intro hnan
    have hrounded : Binary64.IsRounded literal.isNegative literal.absolute .nan :=
      isRounded_iff_eq_value.mpr hnan.symm
    exact hrounded
  · intro literal other hwell hother hsign habsolute x hreads
    rw [hother.readsAs_iff, ← hsign, ← habsolute]
    exact hwell.readsAs_iff.mp hreads
  · intro literal leading trailing hwell x hreads
    rw [(hwell.pad leading trailing).readsAs_iff, absolute_pad]
    exact hwell.readsAs_iff.mp hreads
  · intro fractionRequired cursor after result hread
    obtain ⟨_, hmoves, literal, hwell, hrequired, rfl, rfl, -⟩ :=
      Reading.ensures_number fractionRequired cursor after result hread
    exact ⟨literal, literal.value, hwell, hrequired, hmoves, hwell.readsAs, rfl⟩

theorem readsAs_nearest_padded_half :
    (⟨.minus, "0009007199254740993".toList, some "000".toList⟩ : NumberLiteral).ReadsAs
      (.finite true ⟨2 ^ 52, 1075, by decide, by decide, .inr (by decide)⟩) := by
  have hspelled : ofText? "-9007199254740993.0".toList =
      some ⟨.minus, "9007199254740993".toList, some "0".toList⟩ := by decide
  have hvalue : value ⟨.minus, "9007199254740993".toList, some "0".toList⟩ =
      .finite true ⟨2 ^ 52, 1075, by decide, by decide, .inr (by decide)⟩ := by decide +kernel
  have hwell := (ofText?_eq_some_iff.mp hspelled).1
  exact readsAs_nearest.2.2.1 _ 3 2 hwell _ (hvalue ▸ hwell.readsAs)

end NumberLiteral

end ConfTree
