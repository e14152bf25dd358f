import ConfTree.Decimal.NumberText
import ConfTree.Proofs.LiteralSpelling
import Mathlib.Algebra.Order.Field.Rat
import Mathlib.Algebra.Order.Ring.Cast
import Mathlib.Tactic.FieldSimp
import Mathlib.Tactic.NormNum
import Mathlib.Tactic.Ring

namespace ConfTree

namespace Text

theorem isDigit_of_mem_decimal {n : Nat} {c : Char} (h : c ∈ decimal n) : isDigit c = true := by
  have hdigit := Nat.isDigit_of_mem_toDigits (by decide) (by decide) h
  simpa [Char.isDigit, isDigit, Char.le_def] using hdigit

theorem decimal_ne_nil (n : Nat) : decimal n ≠ [] :=
  Nat.toDigits_ne_nil

theorem ofDigitChars_decimal (n : Nat) : Nat.ofDigitChars 10 (decimal n) 0 = n :=
  Nat.ofDigitChars_ten_toDigits

theorem ofDigitChars_fill (width n : Nat) :
    Nat.ofDigitChars 10 (fill width (decimal n)) 0 = n := by
  rw [fill, Nat.ofDigitChars_append, Nat.ofDigitChars_replicate_zero, Nat.mul_zero,
    ofDigitChars_decimal]

end Text

/-- A decimal as it is spelled: the digits before and behind the point, and the exponent if one is
written. -/
structure DecimalSpelling where
  whole : Text
  fraction : Text
  exponent : Option Int

namespace DecimalSpelling

def exponentText (width : Nat) : Option Int → Text
  | none => []
  | some exponent =>
      'e' :: (if exponent < 0 then '-' else '+') :: Text.fill width (Text.decimal exponent.natAbs)

def text (width : Nat) (spelling : DecimalSpelling) : Text :=
  spelling.whole ++ '.' :: (spelling.fraction ++ exponentText width spelling.exponent)

def WellFormed (spelling : DecimalSpelling) : Prop :=
  NumberLiteral.IsDigitRun spelling.whole ∧ NumberLiteral.IsDigitRun spelling.fraction

def value (spelling : DecimalSpelling) : ℚ :=
  Nat.ofDigitChars 10 (spelling.whole ++ spelling.fraction) 0 *
    10 ^ (spelling.exponent.getD 0 - spelling.fraction.length)

theorem exponentText_injective {width : Nat} {first second : Option Int}
    (h : exponentText width first = exponentText width second) : first = second := by
  cases first with
  | none =>
      cases second with
      | none => rfl
      | some exponent => simp [exponentText] at h
  | some first =>
      cases second with
      | none => simp [exponentText] at h
      | some second =>
          simp only [exponentText, List.cons.injEq, true_and] at h
          rcases h with ⟨hsign, hdigits⟩
          have habs : first.natAbs = second.natAbs := by
            rw [← Text.ofDigitChars_fill width first.natAbs, hdigits, Text.ofDigitChars_fill]
          have hsame : first < 0 ↔ second < 0 := by
            by_cases hfirst : first < 0
            · by_cases hsecond : second < 0
              · simp [hfirst, hsecond]
              · simp [hfirst, hsecond] at hsign
            · by_cases hsecond : second < 0
              · simp [hfirst, hsecond] at hsign
              · simp [hfirst, hsecond]
          congr 1
          omega

theorem endsRun_exponentText (width : Nat) (exponent : Option Int) :
    Text.EndsRun Text.isDigit (exponentText width exponent) := by
  cases exponent with
  | none => exact Text.endsRun_nil _
  | some exponent => exact Text.endsRun_cons (by decide)

theorem text_injective {width : Nat} {first second : DecimalSpelling} (hfirst : first.WellFormed)
    (hsecond : second.WellFormed) (h : first.text width = second.text width) : first = second := by
  obtain ⟨hwhole, hrest⟩ := Text.eq_of_run_append_eq hfirst.1.2 hsecond.1.2
    (Text.endsRun_cons (by decide)) (Text.endsRun_cons (by decide)) h
  obtain ⟨hfraction, hexponent⟩ := Text.eq_of_run_append_eq hfirst.2.2 hsecond.2.2
    (endsRun_exponentText width _) (endsRun_exponentText width _) (List.cons.inj hrest).2
  rcases first with ⟨_, _, _⟩
  rcases second with ⟨_, _, _⟩
  simp only [DecimalSpelling.mk.injEq]
  exact ⟨hwhole, hfraction, exponentText_injective hexponent⟩

end DecimalSpelling

namespace Decimal

def value (d : Decimal) : ℚ :=
  d.coefficient * 10 ^ d.exponent

theorem value_eq_div (d : Decimal) : d.value = d.numerator / d.denominator := by
  have hsplit : d.exponent = (d.exponent.toNat : ℤ) - ((-d.exponent).toNat : ℤ) := by omega
  rw [value, numerator, denominator, Nat.pow_eq, Nat.pow_eq, hsplit, zpow_sub₀ (by norm_num),
    zpow_natCast, zpow_natCast]
  push_cast
  rw [← hsplit]
  ring

def positionalSpelling (d : Decimal) : DecimalSpelling :=
  if d.leadingExponent < 0 then
    ⟨['0'], zeros (-d.leadingExponent - 1).toNat ++ d.digits, none⟩
  else if d.exponent < 0 then
    ⟨d.digits.take (d.leadingExponent + 1).toNat, d.digits.drop (d.leadingExponent + 1).toNat, none⟩
  else
    ⟨d.digits ++ zeros d.exponent.toNat, ['0'], none⟩

def scientificSpelling (d : Decimal) : DecimalSpelling :=
  ⟨d.digits.take 1, if d.digits.drop 1 = [] then ['0'] else d.digits.drop 1,
    some d.leadingExponent⟩

def spelling (format : NumberFormat) (d : Decimal) : DecimalSpelling :=
  if format.positionalFrom ≤ d.leadingExponent ∧ d.leadingExponent < format.positionalBelow then
    d.positionalSpelling
  else
    d.scientificSpelling

theorem text_eq (format : NumberFormat) (d : Decimal) :
    d.text format = (d.spelling format).text format.exponentWidth := by
  unfold text spelling
  split
  · unfold positional positionalSpelling
    split
    · simp [DecimalSpelling.text, DecimalSpelling.exponentText]
    · split
      · simp [DecimalSpelling.text, DecimalSpelling.exponentText]
      · simp [DecimalSpelling.text, DecimalSpelling.exponentText]
  · simp [scientific, scientificSpelling, DecimalSpelling.text, DecimalSpelling.exponentText]

theorem length_digits_pos (d : Decimal) : 0 < d.digits.length :=
  List.length_pos_of_ne_nil (Text.decimal_ne_nil _)

theorem isDigitRun_digits (d : Decimal) : NumberLiteral.IsDigitRun d.digits :=
  ⟨Text.decimal_ne_nil _, fun _ => Text.isDigit_of_mem_decimal⟩

theorem isDigit_of_mem_zeros {count : Nat} {c : Char} (h : c ∈ zeros count) :
    Text.isDigit c = true := by
  rw [List.eq_of_mem_replicate h]
  decide

theorem isDigitRun_zero : NumberLiteral.IsDigitRun ['0'] :=
  ⟨by simp, by simp [Text.isDigit]⟩

theorem isDigitRun_append {first second : Text} (hne : first ++ second ≠ [])
    (hfirst : ∀ c ∈ first, Text.isDigit c = true) (hsecond : ∀ c ∈ second, Text.isDigit c = true) :
    NumberLiteral.IsDigitRun (first ++ second) := by
  refine ⟨hne, fun c hc => ?_⟩
  rcases List.mem_append.mp hc with hc | hc
  · exact hfirst c hc
  · exact hsecond c hc

theorem wellFormed_positionalSpelling (d : Decimal) : d.positionalSpelling.WellFormed := by
  have hlength := d.length_digits_pos
  have hdigits := d.isDigitRun_digits
  unfold positionalSpelling
  split
  · exact ⟨isDigitRun_zero, isDigitRun_append (by simp [hdigits.1])
      (fun _ => isDigit_of_mem_zeros) hdigits.2⟩
  · rename_i hleading
    split
    · have hcount : (d.leadingExponent + 1).toNat < d.digits.length := by
        unfold leadingExponent at hleading ⊢
        omega
      refine ⟨⟨?_, fun c hc => hdigits.2 c (List.mem_of_mem_take hc)⟩,
        ⟨?_, fun c hc => hdigits.2 c (List.mem_of_mem_drop hc)⟩⟩
      · apply List.ne_nil_of_length_pos
        rw [List.length_take]
        omega
      · apply List.ne_nil_of_length_pos
        rw [List.length_drop]
        omega
    · exact ⟨isDigitRun_append (by simp [hdigits.1]) hdigits.2 (fun _ => isDigit_of_mem_zeros),
        isDigitRun_zero⟩

theorem wellFormed_scientificSpelling (d : Decimal) : d.scientificSpelling.WellFormed := by
  have hdigits := d.isDigitRun_digits
  refine ⟨⟨?_, fun c hc => hdigits.2 c (List.mem_of_mem_take hc)⟩, ?_⟩
  · simp [scientificSpelling, hdigits.1]
  · simp only [scientificSpelling]
    split
    · exact isDigitRun_zero
    · rename_i hne
      exact ⟨hne, fun c hc => hdigits.2 c (List.mem_of_mem_drop hc)⟩

theorem wellFormed_spelling (format : NumberFormat) (d : Decimal) :
    (d.spelling format).WellFormed := by
  unfold spelling
  split
  · exact d.wellFormed_positionalSpelling
  · exact d.wellFormed_scientificSpelling

theorem ofDigitChars_digits (d : Decimal) : Nat.ofDigitChars 10 d.digits 0 = d.coefficient :=
  Text.ofDigitChars_decimal _

theorem ofDigitChars_digits_zeros (d : Decimal) (count : Nat) :
    Nat.ofDigitChars 10 (d.digits ++ zeros count) 0 = 10 ^ count * d.coefficient := by
  rw [Nat.ofDigitChars_append, ofDigitChars_digits, zeros, Nat.ofDigitChars_replicate_zero]

/-- A spelling has the value of a decimal if its digits are those of the decimal, with so many
zeros behind them as its point stands further back. -/
theorem value_eq_of_digits {d : Decimal} {spelling : DecimalSpelling} (count : Nat)
    (hdigits : Nat.ofDigitChars 10 (spelling.whole ++ spelling.fraction) 0 =
      10 ^ count * d.coefficient)
    (hexponent : spelling.exponent.getD 0 - spelling.fraction.length = d.exponent - count) :
    spelling.value = d.value := by
  rw [DecimalSpelling.value, value, hdigits, hexponent, zpow_sub₀ (by norm_num), zpow_natCast]
  push_cast
  field_simp

theorem value_positionalSpelling (d : Decimal) : d.positionalSpelling.value = d.value := by
  have hlength := d.length_digits_pos
  unfold positionalSpelling
  split
  · rename_i hleading
    apply value_eq_of_digits 0
    · change Nat.ofDigitChars 10 (List.replicate 1 '0' ++ (zeros _ ++ d.digits)) 0 = _
      rw [zeros, ← List.append_assoc, List.replicate_append_replicate, Nat.ofDigitChars_append,
        Nat.ofDigitChars_replicate_zero, Nat.mul_zero, ofDigitChars_digits, pow_zero, one_mul]
    · unfold leadingExponent at hleading ⊢
      simp only [Option.getD_none, zeros, List.length_append, List.length_replicate]
      omega
  · rename_i hleading
    split
    · apply value_eq_of_digits 0
      · change Nat.ofDigitChars 10 (d.digits.take _ ++ d.digits.drop _) 0 = _
        rw [List.take_append_drop, ofDigitChars_digits, pow_zero, one_mul]
      · unfold leadingExponent at hleading ⊢
        simp only [Option.getD_none, List.length_drop]
        omega
    · apply value_eq_of_digits (d.exponent.toNat + 1)
      · have hzeros : d.digits ++ zeros d.exponent.toNat ++ ['0'] =
            d.digits ++ zeros (d.exponent.toNat + 1) := by
          rw [List.append_assoc, zeros, zeros, List.replicate_succ']
        change Nat.ofDigitChars 10 (d.digits ++ zeros d.exponent.toNat ++ ['0']) 0 = _
        rw [hzeros, ofDigitChars_digits_zeros]
      · simp only [Option.getD_none, List.length_singleton]
        omega

theorem value_scientificSpelling (d : Decimal) : d.scientificSpelling.value = d.value := by
  have hlength := d.length_digits_pos
  have hsplit : d.digits.take 1 ++ d.digits.drop 1 = d.digits := List.take_append_drop 1 d.digits
  unfold scientificSpelling
  split
  · rename_i hnil
    have hone : d.digits.length = 1 := by
      have hdrop := congrArg List.length hnil
      simp only [List.length_drop, List.length_nil] at hdrop
      omega
    apply value_eq_of_digits 1
    · change Nat.ofDigitChars 10 (d.digits.take 1 ++ zeros 1) 0 = _
      rw [hnil, List.append_nil] at hsplit
      rw [hsplit, ofDigitChars_digits_zeros]
    · simp only [leadingExponent, hone, Option.getD_some, List.length_singleton]
      omega
  · apply value_eq_of_digits 0
    · change Nat.ofDigitChars 10 (d.digits.take 1 ++ d.digits.drop 1) 0 = _
      rw [hsplit, ofDigitChars_digits, pow_zero, one_mul]
    · simp only [leadingExponent, Option.getD_some, List.length_drop]
      omega

theorem value_spelling (format : NumberFormat) (d : Decimal) :
    (d.spelling format).value = d.value := by
  unfold spelling
  split
  · exact d.value_positionalSpelling
  · exact d.value_scientificSpelling

end Decimal

end ConfTree
