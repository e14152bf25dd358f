import ConfTree.Proofs.FewestDigits
import ConfTree.Proofs.PrintedNumber
import Mathlib.Data.List.DropRight

namespace ConfTree

namespace Text

def stripZeros (text : Text) : Text :=
  (text.dropWhile (· == '0')).rdropWhile (· == '0')

theorem stripZeros_of_zeros {text : Text} (h : ∀ c ∈ text, c = '0') : text.stripZeros = [] := by
  have hzeros : text.dropWhile (· == '0') = [] :=
    List.dropWhile_eq_nil_iff.mpr fun c hc => beq_iff_eq.mpr (h c hc)
  rw [stripZeros, hzeros, List.rdropWhile_nil]

theorem stripZeros_append {before run behind : Text} (hbefore : ∀ c ∈ before, c = '0')
    (hbehind : ∀ c ∈ behind, c = '0') (hne : run ≠ []) (hhead : run.head? ≠ some '0')
    (hlast : run.getLast? ≠ some '0') : (before ++ (run ++ behind)).stripZeros = run := by
  have hstart : EndsRun (· == '0') (run ++ behind) := by
    intro c hc
    rw [List.head?_append_of_ne_nil _ hne] at hc
    exact beq_false_of_ne fun heq => hhead (heq ▸ hc)
  have hend : EndsRun (· == '0') run.reverse := by
    intro c hc
    rw [List.head?_reverse] at hc
    exact beq_false_of_ne fun heq => hlast (heq ▸ hc)
  have hreverse : ∀ c ∈ behind.reverse, (c == '0') = true :=
    fun c hc => beq_iff_eq.mpr (hbehind c (List.mem_reverse.mp hc))
  rw [stripZeros, dropWhile_run_append (fun c hc => beq_iff_eq.mpr (hbefore c hc)) hstart,
    List.rdropWhile, List.reverse_append, dropWhile_run_append hreverse hend, List.reverse_reverse]

theorem digitChar_ne_zero {n : Nat} (hpos : 0 < n) (hlt : n < 10) : n.digitChar ≠ '0' := by
  have hall : ∀ n < 10, 0 < n → n.digitChar ≠ '0' := by decide
  exact hall n hlt hpos

theorem head?_decimal {n : Nat} (hn : 0 < n) : (decimal n).head? ≠ some '0' := by
  induction n using Nat.strongRecOn with
  | ind n ih =>
      unfold decimal at ih ⊢
      rcases Nat.lt_or_ge n 10 with hlt | hge
      · rw [Nat.toDigits_of_lt_base hlt]
        exact fun h => digitChar_ne_zero hn hlt (Option.some.inj h)
      · rw [Nat.toDigits_of_base_le (by decide) hge,
          List.head?_append_of_ne_nil _ Nat.toDigits_ne_nil]
        exact ih (n / 10) (Nat.div_lt_self hn (by decide)) (Nat.div_pos hge (by decide))

theorem getLast?_decimal {n : Nat} (hn : ¬10 ∣ n) : (decimal n).getLast? ≠ some '0' := by
  have hlast : (decimal n).getLast? = some (n % 10).digitChar := by
    unfold decimal
    rcases Nat.lt_or_ge n 10 with hlt | hge
    · rw [Nat.toDigits_of_lt_base hlt, Nat.mod_eq_of_lt hlt, List.getLast?_singleton]
    · rw [Nat.toDigits_of_base_le (by decide) hge, List.getLast?_concat]
  rw [hlast]
  exact fun h => digitChar_ne_zero (Nat.pos_of_ne_zero (mt Nat.dvd_of_mod_eq_zero hn))
    (Nat.mod_lt _ (by decide)) (Option.some.inj h)

theorem length_decimal_le_iff {n count : Nat} (hn : 0 < n) :
    (decimal n).length ≤ count ↔ n < 10 ^ count := by
  rcases Nat.eq_zero_or_pos count with rfl | hpos
  · have hlength := List.length_pos_of_ne_nil (decimal_ne_nil n)
    rw [pow_zero]
    omega
  · exact Nat.length_toDigits_le_iff (by decide) hpos

end Text

/-- The digits of a spelling from the first one that is not zero to the last one that is not. -/
def DecimalSpelling.significantDigits (spelling : DecimalSpelling) : Text :=
  (spelling.whole ++ spelling.fraction).stripZeros

namespace Decimal

theorem exists_zeros_around_digits (format : NumberFormat) (d : Decimal) :
    ∃ before behind, (d.spelling format).whole ++ (d.spelling format).fraction =
      zeros before ++ (d.digits ++ zeros behind) := by
  unfold spelling
  split
  · unfold positionalSpelling
    split
    · refine ⟨(-d.leadingExponent - 1).toNat + 1, 0, ?_⟩
      simp [zeros, List.replicate_succ]
    · split
      · refine ⟨0, 0, ?_⟩
        simp [zeros]
      · refine ⟨0, d.exponent.toNat + 1, ?_⟩
        simp [zeros, List.replicate_succ']
  · have hsplit := List.take_append_drop 1 d.digits
    unfold scientificSpelling
    split
    · rename_i hnil
      rw [hnil, List.append_nil] at hsplit
      exact ⟨0, 1, congrArg (· ++ ['0']) hsplit⟩
    · exact ⟨0, 0, by simpa [zeros] using hsplit⟩

theorem length_significantDigits_le_iff (format : NumberFormat) {d : Decimal}
    (h : d.coefficient = 0 ∨ ¬10 ∣ d.coefficient) {count : Nat} :
    (d.spelling format).significantDigits.length ≤ count ↔ d.coefficient < 10 ^ count := by
  have hzeros {count : Nat} : ∀ c ∈ zeros count, c = '0' := fun c => List.eq_of_mem_replicate
  obtain ⟨before, behind, hdigits⟩ := d.exists_zeros_around_digits format
  rw [DecimalSpelling.significantDigits, hdigits]
  rcases h with hzero | hten
  · have hdecimal : d.digits = zeros 1 := by
      rw [digits, hzero]
      rfl
    rw [hzero, hdecimal, Text.stripZeros_of_zeros]
    · exact iff_of_true (Nat.zero_le _) (Nat.pow_pos (by decide))
    · intro c hc
      rcases List.mem_append.mp hc with hc | hc
      · exact hzeros c hc
      · exact (List.mem_append.mp hc).elim (hzeros c) (hzeros c)
  · have hpos : 0 < d.coefficient := Nat.pos_of_ne_zero fun hzero => hten (hzero ▸ dvd_zero 10)
    rw [Text.stripZeros_append hzeros hzeros d.isDigitRun_digits.1 (Text.head?_decimal hpos)
      (Text.getLast?_decimal hten)]
    exact Text.length_decimal_le_iff hpos

theorem leadingExponent_bounds {d : Decimal} (h : 0 < d.coefficient) :
    10 ^ d.leadingExponent ≤ d.value ∧ d.value < 10 ^ (d.leadingExponent + 1) := by
  have hpower : (0 : ℚ) < 10 ^ d.exponent := zpow_pos (by norm_num) _
  obtain ⟨count, hcount⟩ := Nat.exists_eq_succ_of_ne_zero d.length_digits_pos.ne'
  have hleading : d.leadingExponent = count + d.exponent := by
    rw [leadingExponent, hcount]
    omega
  have hlower : 10 ^ count ≤ d.coefficient := by
    rw [← not_lt, ← Text.length_decimal_le_iff h]
    exact fun hle => absurd (hcount ▸ hle) (Nat.not_succ_le_self count)
  have hupper : d.coefficient < 10 ^ (count + 1) :=
    (Text.length_decimal_le_iff h).mp hcount.le
  have hten : (10 : ℚ) ≠ 0 := by norm_num
  rw [hleading, add_right_comm, zpow_add₀ hten, zpow_add₀ hten, value,
    mul_le_mul_iff_left₀ hpower, mul_lt_mul_iff_left₀ hpower]
  exact ⟨by exact_mod_cast hlower, by exact_mod_cast hupper⟩

theorem exponent_spelling (format : NumberFormat) (d : Decimal) :
    (d.spelling format).exponent =
      if format.positionalFrom ≤ d.leadingExponent ∧ d.leadingExponent < format.positionalBelow then
        none
      else
        some d.leadingExponent := by
  unfold spelling
  split
  · unfold positionalSpelling
    split
    · rfl
    · split <;> rfl
  · rfl

theorem length_whole_of_exponent (format : NumberFormat) {d : Decimal} {exponent : ℤ}
    (h : (d.spelling format).exponent = some exponent) :
    (d.spelling format).whole.length = 1 := by
  have hlength := d.length_digits_pos
  rw [exponent_spelling] at h
  split at h
  · simp at h
  · rename_i hscientific
    rw [spelling, if_neg hscientific, scientificSpelling, List.length_take]
    omega

end Decimal

namespace Magnitude

theorem length_significantDigits_shortest_le_iff (format : NumberFormat) (x : Magnitude)
    {count : Nat} : (x.shortest.spelling format).significantDigits.length ≤ count ↔
      x.shortest.coefficient < 10 ^ count := by
  apply Decimal.length_significantDigits_le_iff
  by_cases hx : x.significand = 0
  · rw [shortest_of_zero hx]
    exact .inl rfl
  · exact .inr (not_ten_dvd_shortest hx)

/-- No decimal that rounds to a magnitude has fewer significant digits than the one that is spelled,
and none with as few lies nearer. -/
theorem spelling_shortest_le (format : NumberFormat) {x : Magnitude} {other : Decimal}
    {count : Nat} (hother : other.coefficient < 10 ^ count) (hmem : other.value ∈ x.interval) :
    (x.shortest.spelling format).significantDigits.length ≤ count ∧
      ((x.shortest.spelling format).significantDigits.length = count →
        |x.shortest.value - x.rational| ≤ |other.value - x.rational|) := by
  by_cases hx : x.significand = 0
  · rw [length_significantDigits_shortest_le_iff, value_shortest_of_zero hx, sub_self, abs_zero,
      shortest_of_zero hx]
    exact ⟨Nat.pow_pos (by decide), fun _ => abs_nonneg _⟩
  · rw [length_significantDigits_shortest_le_iff]
    refine ⟨shortest_lt_pow hx hother hmem, fun hcount => abs_shortest_sub_le hx hother ?_ hmem⟩
    have hpos := coefficient_pos_of_mem hx x.value_shortest_mem
    rw [← not_lt, ← length_significantDigits_shortest_le_iff format, hcount]
    intro hle
    obtain rfl : count = 0 := by omega
    have hzero := (length_significantDigits_shortest_le_iff format x).mp hcount.le
    rw [pow_zero] at hzero
    omega

theorem leadingExponent_shortest (x : Magnitude) :
    if x.shortest.value = 0 then x.shortest.leadingExponent = 0
    else 10 ^ x.shortest.leadingExponent ≤ x.shortest.value ∧
      x.shortest.value < 10 ^ (x.shortest.leadingExponent + 1) := by
  by_cases hx : x.significand = 0
  · rw [if_pos ((value_shortest_of_zero hx).trans (rational_of_zero hx)), shortest_of_zero hx]
    decide
  · have hpos := coefficient_pos_of_mem hx x.value_shortest_mem
    have hbounds := Decimal.leadingExponent_bounds hpos
    have hne : x.shortest.value ≠ 0 := ((zpow_pos (by norm_num) _).trans_le hbounds.1).ne'
    rwa [if_neg hne]

end Magnitude

namespace Binary64

/-- The text of a finite number is its sign and a decimal with a digit on both sides of the point
and with at least two digits in its exponent, if it has one.  The decimal rounds to the number, none
with fewer significant digits does, and of those with as many none lies nearer.  It has no exponent
exactly if the leading digit stands for a power of ten from `10 ^ (-4)` up to `10 ^ 15`.  Different
numbers have different texts. -/
theorem text_faithful_and_shortest :
    (∀ (negative : Bool) (x : Magnitude), ∃ spelling : DecimalSpelling,
      (finite negative x).text = signText negative ++ spelling.text 2 ∧
      spelling.WellFormed ∧
      (∀ exponent, spelling.exponent = some exponent → spelling.whole.length = 1) ∧
      IsRounded negative spelling.value (.finite negative x) ∧
      (∀ (sign : Bool) (other : Decimal) (count : Nat), other.coefficient < 10 ^ count →
        IsRounded sign other.value (.finite negative x) →
        spelling.significantDigits.length ≤ count ∧
        (spelling.significantDigits.length = count →
          |spelling.value - x.rational| ≤ |other.value - x.rational|)) ∧
      ∃ leading : ℤ,
        (if spelling.value = 0 then leading = 0
          else 10 ^ leading ≤ spelling.value ∧ spelling.value < 10 ^ (leading + 1)) ∧
        spelling.exponent = if -4 ≤ leading ∧ leading < 16 then none else some leading) ∧
    ∀ x y : Binary64, x.text = y.text → x = y := by
  refine ⟨fun negative x => ⟨x.shortest.spelling .standard, ?_,
    x.shortest.wellFormed_spelling _, fun _ => Decimal.length_whole_of_exponent _, ?_⟩,
    fun _ _ => eq_of_text_eq⟩
  · rw [text_eq, unsignedText, Decimal.text_eq]
    rfl
  · rw [Decimal.value_spelling]
    refine ⟨(isRounded_finite_iff (Decimal.value_nonneg _)).mpr ⟨rfl, x.value_shortest_mem⟩,
      fun sign other count hother hrounded => ?_, x.shortest.leadingExponent,
      x.leadingExponent_shortest, Decimal.exponent_spelling _ _⟩
    obtain ⟨-, hmem⟩ := (isRounded_finite_iff (Decimal.value_nonneg _)).mp hrounded
    exact Magnitude.spelling_shortest_le _ hother hmem

example : (finite true ⟨1, 0, by decide, by decide, .inl rfl⟩).text = "-5.0e-324".toList := by
  decide +kernel

end Binary64

end ConfTree
