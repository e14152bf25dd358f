import ConfTree.Proofs.DecimalGrid

namespace ConfTree

theorem Magnitude.eq_of_value_shortest_eq {x y : Magnitude}
    (h : x.shortest.value = y.shortest.value) : x = y :=
  eq_of_value_mem x.value_shortest_mem (h ▸ y.value_shortest_mem)

theorem Magnitude.eq_of_text_shortest_eq {format : NumberFormat} {x y : Magnitude}
    (h : x.shortest.text format = y.shortest.text format) : x = y := by
  rw [Decimal.text_eq, Decimal.text_eq] at h
  have hspelling := DecimalSpelling.text_injective (Decimal.wellFormed_spelling format _)
    (Decimal.wellFormed_spelling format _) h
  apply eq_of_value_shortest_eq
  rw [← Decimal.value_spelling format x.shortest, hspelling, Decimal.value_spelling]

theorem Decimal.exists_cons_of_text (format : NumberFormat) (d : Decimal) :
    ∃ c rest, d.text format = c :: rest ∧ Text.isDigit c = true := by
  obtain ⟨hwhole, -⟩ := d.wellFormed_spelling format
  obtain ⟨c, whole, hcons, hc⟩ := Text.exists_cons_of_run hwhole
  rw [text_eq, DecimalSpelling.text, hcons]
  exact ⟨c, _, rfl, hc⟩

namespace Binary64

def signText (negative : Bool) : Text :=
  if negative then ['-'] else []

theorem eq_of_signText_append_eq {first second : Bool} {text other : Text}
    (htext : text.head? ≠ some '-') (hother : other.head? ≠ some '-')
    (h : signText first ++ text = signText second ++ other) : first = second ∧ text = other := by
  cases first with
  | false =>
      cases second with
      | false => exact ⟨rfl, h⟩
      | true =>
          have h : text = '-' :: other := h
          simp [h] at htext
  | true =>
      cases second with
      | false =>
          have h : '-' :: text = other := h
          simp [← h] at hother
      | true => exact ⟨rfl, (List.cons.inj h).2⟩

def isNegative : Binary64 → Bool
  | .nan => false
  | .infinity negative => negative
  | .finite negative _ => negative

def unsignedText : Binary64 → Text
  | .nan => ".nan".toList
  | .infinity _ => ".inf".toList
  | .finite _ magnitude => magnitude.shortest.text .standard

theorem text_eq (x : Binary64) : x.text = signText x.isNegative ++ x.unsignedText := by
  cases x <;> rfl

theorem head?_unsignedText (x : Binary64) : x.unsignedText.head? ≠ some '-' := by
  cases x with
  | nan => simp [unsignedText]
  | infinity negative => simp [unsignedText]
  | finite negative magnitude =>
      obtain ⟨c, rest, htext, hc⟩ := magnitude.shortest.exists_cons_of_text .standard
      have hne : c ≠ '-' := Text.ne_of_class hc (by decide)
      simpa [unsignedText, htext] using hne

theorem unsignedText_finite_ne (negative : Bool) (magnitude : Magnitude) (rest : Text) :
    unsignedText (.finite negative magnitude) ≠ '.' :: rest := by
  obtain ⟨c, tail, htext, hc⟩ := magnitude.shortest.exists_cons_of_text .standard
  have hne : c ≠ '.' := Text.ne_of_class hc (by decide)
  intro h
  rw [unsignedText, htext] at h
  exact hne (List.cons.inj h).1

theorem eq_of_text_eq {x y : Binary64} (h : x.text = y.text) : x = y := by
  rw [text_eq, text_eq] at h
  obtain ⟨hsign, htext⟩ :=
    eq_of_signText_append_eq (head?_unsignedText x) (head?_unsignedText y) h
  cases x with
  | nan =>
      cases y with
      | nan => rfl
      | infinity negative => simp [unsignedText] at htext
      | finite negative magnitude => exact absurd htext.symm (unsignedText_finite_ne _ _ _)
  | infinity negative =>
      cases y with
      | nan => simp [unsignedText] at htext
      | infinity other => exact congrArg infinity hsign
      | finite other magnitude => exact absurd htext.symm (unsignedText_finite_ne _ _ _)
  | finite negative magnitude =>
      cases y with
      | nan => exact absurd htext (unsignedText_finite_ne _ _ _)
      | infinity other => exact absurd htext (unsignedText_finite_ne _ _ _)
      | finite other otherMagnitude =>
          rw [Magnitude.eq_of_text_shortest_eq htext]
          exact congrArg (finite · otherMagnitude) hsign

def isNumberCharacter (c : Char) : Bool :=
  Text.isDigit c || ['.', '+', '-', 'e', 'n', 'a', 'i', 'f'].contains c

theorem isNumberCharacter_of_isDigit {c : Char} (h : Text.isDigit c = true) :
    isNumberCharacter c = true := by
  simp [isNumberCharacter, h]

theorem isNumberCharacter_of_mem_fill {width n : Nat} {c : Char}
    (h : c ∈ Text.fill width (Text.decimal n)) : isNumberCharacter c = true := by
  rcases List.mem_append.mp h with h | h
  · rw [List.eq_of_mem_replicate h]
    decide
  · exact isNumberCharacter_of_isDigit (Text.isDigit_of_mem_decimal h)

theorem isNumberCharacter_of_mem_exponentText {width : Nat} {exponent : Option Int} {c : Char}
    (h : c ∈ DecimalSpelling.exponentText width exponent) : isNumberCharacter c = true := by
  cases exponent with
  | none => simp [DecimalSpelling.exponentText] at h
  | some exponent =>
      rcases List.mem_cons.mp h with rfl | h
      · decide
      · rcases List.mem_cons.mp h with rfl | h
        · split <;> decide
        · exact isNumberCharacter_of_mem_fill h

theorem isNumberCharacter_of_mem_unsignedText {x : Binary64} {c : Char}
    (h : c ∈ x.unsignedText) : isNumberCharacter c = true := by
  cases x with
  | nan =>
      have hall : ∀ c ∈ ".nan".toList, isNumberCharacter c = true :=
        List.all_eq_true.mp (by decide)
      exact hall c h
  | infinity negative =>
      have hall : ∀ c ∈ ".inf".toList, isNumberCharacter c = true :=
        List.all_eq_true.mp (by decide)
      exact hall c h
  | finite negative magnitude =>
      obtain ⟨hwhole, hfraction⟩ := magnitude.shortest.wellFormed_spelling .standard
      rw [unsignedText, Decimal.text_eq] at h
      rcases List.mem_append.mp h with h | h
      · exact isNumberCharacter_of_isDigit (hwhole.2 c h)
      · rcases List.mem_cons.mp h with rfl | h
        · decide
        · rcases List.mem_append.mp h with h | h
          · exact isNumberCharacter_of_isDigit (hfraction.2 c h)
          · exact isNumberCharacter_of_mem_exponentText h

theorem isNumberCharacter_of_mem_text {x : Binary64} {c : Char} (h : c ∈ x.text) :
    isNumberCharacter c = true := by
  rw [text_eq] at h
  rcases List.mem_append.mp h with h | h
  · rw [signText] at h
    split at h
    · rw [List.mem_singleton.mp h]
      decide
    · simp at h
  · exact isNumberCharacter_of_mem_unsignedText h

end Binary64

end ConfTree
