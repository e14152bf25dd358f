import ConfTree.Proofs.ExpressionLoop
import ConfTree.Proofs.ReadingAnswer

namespace ConfTree.Reading

variable {α : Type} {rest : Text} (constants : Constants)

theorem expressionValue_eq (body : Text) :
    Term.expressionValue constants body =
      expressionOutcome (Evaluation.feedAll constants (Term.wordsOf body) []) :=
  rfl

theorem Settles.answers {isDeep : Prop} {reading : Reading α} {text : Text} {count : Nat}
    {expected : Except Cause α}
    (h : reading.Settles (text ++ rest) count (expected.mapError .refused))
    (hcount : ∀ value, expected = .ok value → count = text.length) :
    Answers isDeep reading text rest expected := by
  intro cursor hcursor
  rw [h cursor hcursor]
  cases expected with
  | ok value => exact ⟨rfl, by rw [hcount value rfl]⟩
  | error cause => exact ⟨rfl, rfl⟩

theorem answers_expression {gap : Gap} {body : Text} (hgap : gap.IsInner) (hbody : '|' ∉ body) :
    Answers False (expression constants) (gap.text ++ (Term.expression body).written) rest
      (Term.expressionValue constants body) := by
  obtain ⟨count, hsettles, hcount⟩ := exists_wordsSettle_closed rest hbody
  have hwritten : gap.text ++ (Term.expression body).written ++ rest =
      gap.text ++ '|' :: (body ++ '|' :: rest) := by simp [Term.written]
  refine Settles.answers (hwritten ▸ hsettles.expression_behind hgap) fun value hvalue => ?_
  rw [hcount value hvalue]
  simp only [Term.written, List.length_append, List.length_cons, List.length_nil]
  omega

/-! Backwards. -/

theorem Settles.eq_of_ok {reading : Reading α} {text : Text} {count : Nat}
    {expected : Except Cause α} {cursor after : Cursor} {result : α}
    (h : reading.Settles text count (expected.mapError .refused)) (hcursor : cursor.rest = text)
    (hok : reading cursor = .ok result after) :
    expected = .ok result ∧ after = cursor.advance count := by
  rw [h cursor hcursor] at hok
  cases expected with
  | ok value =>
      cases hok
      exact ⟨rfl, rfl⟩
  | error cause => cases hok

theorem ensures_expression :
    Ensures (expression constants) fun text _ result => ∃ (gap : Gap) (body : Text),
      gap.IsInner ∧ '|' ∉ body ∧ text = gap.text ++ (Term.expression body).written ∧
        Term.expressionValue constants body = .ok result := by
  intro cursor after result h
  obtain ⟨_, opened, hbar, h⟩ := exists_of_bind_eq_ok h
  obtain ⟨_, hopened, gap, hgap, rfl⟩ := ensures_expect '|' cursor opened _ hbar
  have h : words constants opened.rest.length [] opened = .ok result after := h
  by_cases hmem : '|' ∈ opened.rest
  · obtain ⟨body, behind, hsplit, hbody⟩ := List.eq_append_cons_of_mem hmem
    obtain ⟨count, hsettles, hcount⟩ := exists_wordsSettle_closed behind hbody
    have hbound := Nat.le_of_eq (congrArg List.length hsplit.symm)
    obtain ⟨houtcome, rfl⟩ := (hsettles _ hbound).eq_of_ok hsplit h
    have hclosed : opened.Moves (body ++ ['|']) (opened.advance count) := by
      have hlength : count = (body ++ ['|']).length := by
        rw [hcount result houtcome, List.length_append, List.length_singleton]
      rw [hlength]
      exact Cursor.moves_advance _ (by rw [hsplit, List.append_assoc, List.singleton_append])
    refine ⟨_, hopened.trans hclosed, gap, body, hgap, hbody, by simp [Term.written], ?_⟩
    rw [expressionValue_eq]
    exact houtcome
  · obtain ⟨count, cause, hsettles⟩ := exists_wordsSettle_unclosed hmem
    have hrefused : (words constants opened.rest.length []).Settles opened.rest count
        ((Except.error cause).mapError .refused) := hsettles _ le_rfl
    exact absurd (hrefused.eq_of_ok rfl h).1 nofun

end ConfTree.Reading
