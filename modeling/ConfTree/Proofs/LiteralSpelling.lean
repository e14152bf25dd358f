import ConfTree.Decimal.Literal
import ConfTree.Proofs.TextRun

namespace ConfTree

namespace Sign

theorem leading_text_append (sign : Sign) {c : Char} (rest : Text)
    (hc : Text.isDigit c = true) : leading (sign.text ++ c :: rest) = sign := by
  have hplus : c ≠ '+' := Text.ne_of_class hc (by decide)
  have hminus : c ≠ '-' := Text.ne_of_class hc (by decide)
  cases sign <;> simp [text, leading, hplus, hminus]

theorem leading_text_append_drop (word : Text) :
    (leading word).text ++ word.drop (leading word).text.length = word := by
  unfold leading
  split <;> simp [text]

end Sign

namespace NumberLiteral

theorem isDigitRun_takeWhile {text : Text} (h : text.takeWhile Text.isDigit ≠ []) :
    IsDigitRun (text.takeWhile Text.isDigit) :=
  ⟨h, Text.forall_mem_takeWhile⟩

def pointText (literal : NumberLiteral) : Text :=
  match literal.fraction with
  | none => []
  | some fraction => '.' :: fraction

theorem text_eq (literal : NumberLiteral) :
    literal.text = literal.sign.text ++ (literal.whole ++ literal.pointText) := by
  rcases literal with ⟨sign, whole, fraction⟩
  cases fraction <;> simp [text, pointText]

theorem endsRun_pointText (literal : NumberLiteral) :
    Text.EndsRun Text.isDigit literal.pointText := by
  unfold pointText
  split
  · exact Text.endsRun_nil _
  · exact Text.endsRun_cons (by decide)

theorem leading_text {literal : NumberLiteral} (h : literal.WellFormed) (rest : Text) :
    Sign.leading (literal.text ++ rest) = literal.sign := by
  obtain ⟨c, whole, hwhole, hc⟩ := Text.exists_cons_of_run h.1
  rw [text_eq, hwhole]
  simpa using Sign.leading_text_append literal.sign (whole ++ literal.pointText ++ rest) hc

theorem ofText?_text {literal : NumberLiteral} (h : literal.WellFormed) :
    ofText? literal.text = some literal := by
  have hsign : Sign.leading literal.text = literal.sign := by
    simpa using leading_text h []
  have hdrop : literal.text.drop literal.sign.text.length = literal.whole ++ literal.pointText := by
    rw [text_eq, List.drop_left]
  have htake : (literal.whole ++ literal.pointText).takeWhile Text.isDigit = literal.whole :=
    Text.takeWhile_run_append h.1.2 literal.endsRun_pointText
  have hrest : (literal.whole ++ literal.pointText).dropWhile Text.isDigit = literal.pointText :=
    Text.dropWhile_run_append h.1.2 literal.endsRun_pointText
  simp only [ofText?, hsign, hdrop, htake, hrest, h.1.1, if_false]
  rcases literal with ⟨sign, whole, fraction⟩
  cases fraction with
  | none => rfl
  | some fraction =>
      have hfraction : IsDigitRun fraction := h.2 fraction rfl
      simp only [pointText]
      rw [if_pos ⟨hfraction.1, List.all_eq_true.mpr hfraction.2⟩]

theorem wellFormed_and_text_of_ofText? {word : Text} {literal : NumberLiteral}
    (h : ofText? word = some literal) : literal.WellFormed ∧ literal.text = word := by
  have hsign := Sign.leading_text_append_drop word
  have hsplit := List.takeWhile_append_dropWhile (p := Text.isDigit)
    (l := word.drop (Sign.leading word).text.length)
  simp only [ofText?] at h
  split at h
  · simp at h
  · rename_i hwhole
    have hrun := isDigitRun_takeWhile hwhole
    split at h
    · rename_i hdrop
      obtain rfl := Option.some.inj h
      rw [hdrop, List.append_nil] at hsplit
      refine ⟨⟨hrun, by simp⟩, ?_⟩
      rw [text_eq]
      simpa [pointText, hsplit] using hsign
    · rename_i fraction hdrop
      split at h
      · rename_i hfraction
        obtain rfl := Option.some.inj h
        rw [hdrop] at hsplit
        refine ⟨⟨hrun, ?_⟩, ?_⟩
        · rintro _ ⟨⟩
          exact ⟨hfraction.1, List.all_eq_true.mp hfraction.2⟩
        · rw [text_eq]
          simpa [pointText, hsplit] using hsign
      · simp at h
    · simp at h

theorem ofText?_eq_some_iff {word : Text} {literal : NumberLiteral} :
    ofText? word = some literal ↔ literal.WellFormed ∧ literal.text = word := by
  constructor
  · exact wellFormed_and_text_of_ofText?
  · rintro ⟨h, rfl⟩
    exact ofText?_text h

end NumberLiteral

end ConfTree
