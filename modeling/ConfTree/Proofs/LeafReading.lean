import ConfTree.Proofs.ReadingStep
import ConfTree.Proofs.WrittenTerm

namespace ConfTree.Reading

variable {rest : Text}

/-! Quoted texts. -/

theorem takes_quotedText {content : Text} (h : '"' ∉ content) :
    Takes quotedText (Term.text content).written rest (.text content) := by
  change Takes quotedText (['@'] ++ (['"'] ++ (content ++ ['"']))) rest _
  unfold quotedText
  refine Takes.bind (takes_expect Gap.isInner_nil ?_) ?_
  · exact Insignificant.isAbsent_cons _ (by decide) (by decide) (by decide)
  refine (takes_next? _).bind_nil ?_
  refine Takes.bind (takes_advance ['"'] _) ?_
  refine Takes.bind (takes_run (Text.forall_ne_of_notMem h) (Text.endsRun_ne (.inr rfl))) ?_
  refine (takes_atEnd _).bind_nil ?_
  exact (takes_advance ['"'] rest).bind_last (takes_pure _ rest)

theorem ensures_quotedText :
    Ensures quotedText fun text _ result => ∃ (gap : Gap) (content : Text), gap.IsInner ∧
      '"' ∉ content ∧ text = gap.text ++ (Term.text content).written ∧ result = .text content := by
  intro cursor after result h
  obtain ⟨_, opened, hat, h⟩ := exists_of_bind_eq_ok h
  obtain ⟨_, hopened, gap, hgap, rfl⟩ := ensures_expect '@' cursor opened _ hat
  obtain ⟨next, _, hnext, h⟩ := exists_of_bind_eq_ok h
  obtain ⟨rfl, rfl⟩ := eq_of_next? hnext
  by_cases hquote : opened.rest.head? = some '"'
  · rw [if_pos hquote] at h
    obtain ⟨tail, htail⟩ := List.head?_eq_some_iff.mp hquote
    obtain ⟨_, inside, hadvance, h⟩ := exists_of_bind_eq_ok h
    obtain ⟨hinside, -⟩ := moves_of_advance ['"'] hadvance htail
    obtain ⟨content, closing, hrun, h⟩ := exists_of_bind_eq_ok h
    obtain ⟨_, hclosing, rfl, hcontent, hends⟩ := ensures_run _ inside closing _ hrun
    obtain ⟨ended, _, hended, h⟩ := exists_of_bind_eq_ok h
    obtain ⟨rfl, rfl⟩ := eq_of_atEnd hended
    cases hrest : closing.rest with
    | nil =>
        simp only [hrest, List.isEmpty_nil, if_true] at h
        exact absurd h not_fail_eq_ok
    | cons c rest =>
        have hc : c = '"' := by simpa using hends c (by simp [hrest])
        subst hc
        simp only [hrest, List.isEmpty_cons, Bool.false_eq_true, if_false] at h
        obtain ⟨_, closed, hadvance, h⟩ := exists_of_bind_eq_ok h
        obtain ⟨hclosed, -⟩ := moves_of_advance ['"'] hadvance hrest
        obtain ⟨rfl, rfl⟩ := eq_of_pure h
        refine ⟨_, ((hopened.trans hinside).trans hclosing).trans hclosed, gap, content, hgap, ?_,
          ?_, rfl⟩
        · intro hmem
          simpa using hcontent '"' hmem
        · simp [Term.written]
  · rw [if_neg hquote] at h
    exact absurd h not_fail_eq_ok

/-! Numbers. -/

theorem leading_cons (c : Char) (tail : Text) : Sign.leading [c] = Sign.leading (c :: tail) := by
  by_cases hplus : c = '+'
  · simp [hplus, Sign.leading]
  · by_cases hminus : c = '-'
    · simp [hminus, Sign.leading]
    · simp [Sign.leading, hplus, hminus]

theorem takes_sign {written : Sign} (hrest : written.text ++ rest ≠ [])
    (h : Sign.leading (written.text ++ rest) = written) :
    Takes sign written.text rest written := by
  obtain ⟨c, tail, htail⟩ := List.exists_cons_of_ne_nil hrest
  rw [htail, ← leading_cons] at h
  have hcurrent : Takes current [] (written.text ++ rest) c := by
    intro cursor hcursor
    rw [List.nil_append, htail] at hcursor
    simp [current, hcursor]
  unfold sign
  apply hcurrent.bind_nil
  rw [h]
  exact (takes_advance _ rest).bind_last (takes_pure written rest)

theorem takes_number {literal : NumberLiteral} {fractionRequired : Bool}
    (hwell : literal.WellFormed) (hrequired : fractionRequired = true → literal.fraction ≠ none)
    (hrest : (Term.number literal).StopsBefore rest) :
    Takes (number fractionRequired) literal.text rest (.number literal.value) := by
  have hleading := NumberLiteral.leading_text hwell rest
  rcases literal with ⟨written, whole, fraction⟩
  have hwhole : whole ≠ [] := hwell.1.1
  rw [NumberLiteral.text_eq] at hleading ⊢
  simp only [List.append_assoc] at hleading
  unfold number
  refine Takes.bind (takes_sign (by simp [hwhole]) (by simpa using hleading)) ?_
  cases fraction with
  | none =>
      refine Takes.bind (takes_run hwell.1.2 hrest.1) ?_
      refine (takes_next? _).bind_nil ?_
      have hnotRequired : fractionRequired ≠ true := fun h => hrequired h rfl
      change Takes (if rest.head? = some '.' then _ else
        if fractionRequired = true then _ else if whole = [] then _ else _) [] rest _
      rw [if_neg (hrest.2 rfl), if_neg hnotRequired, if_neg hwhole]
      exact takes_pure _ rest
  | some fraction =>
      have hfraction : NumberLiteral.IsDigitRun fraction := hwell.2 fraction rfl
      refine Takes.bind (takes_run hwell.1.2 (Text.endsRun_cons (by decide))) ?_
      refine (takes_next? _).bind_nil ?_
      change Takes _ (['.'] ++ fraction) rest _
      rw [if_pos (by rfl)]
      refine Takes.bind (takes_advance ['.'] _) ?_
      refine (takes_run hfraction.2 hrest.1).bind_last ?_
      rw [if_neg (by simp [hwhole, hfraction.1])]
      exact takes_pure _ rest

theorem ensures_sign :
    Ensures sign fun text rest result => text = result.text ∧
      result = Sign.leading (text ++ rest) := by
  intro cursor after result h
  obtain ⟨c, between, hcurrent, h⟩ := exists_of_bind_eq_ok h
  cases hrest : cursor.rest with
  | nil => simp [current, hrest] at hcurrent
  | cons d tail =>
      obtain ⟨rfl, rfl⟩ : d = c ∧ cursor = between := by simpa [current, hrest] using hcurrent
      obtain ⟨_, moved, hadvance, h⟩ := exists_of_bind_eq_ok h
      obtain ⟨rfl, rfl⟩ := eq_of_pure h
      have hsplit := Sign.leading_text_append_drop (d :: tail)
      rw [leading_cons d tail] at hadvance ⊢
      obtain ⟨hmoves, hafter⟩ := moves_of_advance _ hadvance (hrest.trans hsplit.symm)
      refine ⟨_, hmoves, rfl, ?_⟩
      rw [hafter, hsplit]

theorem ensures_number (fractionRequired : Bool) :
    Ensures (number fractionRequired) fun text rest result => ∃ literal : NumberLiteral,
      literal.WellFormed ∧ (fractionRequired = true → literal.fraction ≠ none) ∧
        text = literal.text ∧ result = .number literal.value ∧
        (Term.number literal).StopsBefore rest := by
  intro cursor after result h
  obtain ⟨written, signed, hsign, h⟩ := exists_of_bind_eq_ok h
  obtain ⟨_, hsigned, rfl, -⟩ := ensures_sign cursor signed written hsign
  obtain ⟨whole, between, hwhole, h⟩ := exists_of_bind_eq_ok h
  obtain ⟨_, hbetween, rfl, hdigits, hends⟩ := ensures_run _ signed between whole hwhole
  obtain ⟨next, _, hnext, h⟩ := exists_of_bind_eq_ok h
  obtain ⟨rfl, rfl⟩ := eq_of_next? hnext
  by_cases hpoint : between.rest.head? = some '.'
  · rw [if_pos hpoint] at h
    obtain ⟨tail, htail⟩ := List.head?_eq_some_iff.mp hpoint
    obtain ⟨_, behind, hadvance, h⟩ := exists_of_bind_eq_ok h
    obtain ⟨hbehind, -⟩ := moves_of_advance ['.'] hadvance htail
    obtain ⟨fraction, last, hfraction, h⟩ := exists_of_bind_eq_ok h
    obtain ⟨_, hlast, rfl, hfractionDigits, hfractionEnds⟩ :=
      ensures_run _ behind last fraction hfraction
    by_cases hempty : whole = [] ∨ fraction = []
    · rw [if_pos hempty] at h
      exact absurd h not_fail_eq_ok
    · rw [if_neg hempty] at h
      obtain ⟨rfl, rfl⟩ := eq_of_pure h
      obtain ⟨hwholeNe, hfractionNe⟩ := not_or.mp hempty
      refine ⟨_, ((hsigned.trans hbetween).trans hbehind).trans hlast,
        ⟨written, whole, some fraction⟩, ⟨⟨hwholeNe, hdigits⟩, ?_⟩, by simp, ?_, rfl,
        hfractionEnds, by simp⟩
      · rintro _ ⟨⟩
        exact ⟨hfractionNe, hfractionDigits⟩
      · simp [NumberLiteral.text_eq, NumberLiteral.pointText]
  · rw [if_neg hpoint] at h
    by_cases hrequired : fractionRequired = true
    · rw [if_pos hrequired] at h
      exact absurd h not_fail_eq_ok
    · rw [if_neg hrequired] at h
      by_cases hwholeNe : whole = []
      · rw [if_pos hwholeNe] at h
        exact absurd h not_fail_eq_ok
      · rw [if_neg hwholeNe] at h
        obtain ⟨rfl, rfl⟩ := eq_of_pure h
        refine ⟨_, hsigned.trans hbetween, ⟨written, whole, none⟩, ⟨⟨hwholeNe, hdigits⟩, by simp⟩,
          fun h => absurd h hrequired, ?_, rfl, hends, fun _ => hpoint⟩
        simp [NumberLiteral.text_eq, NumberLiteral.pointText]

/-! References. -/

theorem takes_name {written : Text} (hname : Text.IsName written)
    (hrest : Text.EndsRun Text.isNameLetter rest) : Takes name written rest written :=
  takes_run hname.2 hrest

theorem ensures_reference (constants : Constants) :
    Ensures (reference constants) fun text rest result =>
      constants.valueOf? text = some result ∧ (∀ c ∈ text, Text.isNameLetter c = true) ∧
        Text.EndsRun Text.isNameLetter rest := by
  intro cursor after result h
  obtain ⟨written, between, hname, h⟩ := exists_of_bind_eq_ok h
  obtain ⟨_, hmoves, rfl, hletters, hends⟩ := ensures_run _ cursor between written hname
  cases hvalue : constants.valueOf? written with
  | none =>
      simp only [hvalue] at h
      exact absurd h not_fail_eq_ok
  | some value =>
      simp only [hvalue] at h
      obtain ⟨rfl, rfl⟩ := eq_of_pure h
      exact ⟨_, hmoves, hvalue, hletters, hends⟩

end ConfTree.Reading
