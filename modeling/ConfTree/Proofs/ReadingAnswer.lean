import ConfTree.Proofs.ReadingStep

namespace ConfTree.Reading

variable {α β : Type} {isDeep : Prop} {text more rest : Text}

/-- A reading of a text agrees with an outcome that is expected. -/
def Answers (isDeep : Prop) (reading : Reading α) (text rest : Text)
    (expected : Except Cause α) : Prop :=
  ∀ cursor : Cursor, cursor.rest = text ++ rest →
    match reading cursor with
    | .ok result after => expected = .ok result ∧ after = cursor.advance text.length
    | .error (.located cause position) after =>
        expected = .error cause ∧ position = after.position
    | .error .nestingTooDeep _ => isDeep
    | .error .pastEnd _ => False

theorem Takes.answers {reading : Reading α} {result : α} (h : Takes reading text rest result) :
    Answers isDeep reading text rest (.ok result) := by
  intro cursor hcursor
  rw [h cursor hcursor]
  exact ⟨rfl, rfl⟩

theorem answers_fail (cause : Cause) :
    Answers isDeep (fail cause : Reading α) text rest (.error cause) := by
  intro cursor _
  exact ⟨rfl, rfl⟩

theorem answers_nestingTooDeep {expected : Except Cause α} (h : isDeep) :
    Answers isDeep (nestingTooDeep : Reading α) text rest expected := by
  intro cursor _
  exact h

theorem Answers.mono {isDeeper : Prop} {reading : Reading α} {expected : Except Cause α}
    (h : Answers isDeep reading text rest expected) (hdeep : isDeep → isDeeper) :
    Answers isDeeper reading text rest expected := by
  intro cursor hcursor
  have hanswer := h cursor hcursor
  split
  · rename_i hreading
    rwa [hreading] at hanswer
  · rename_i hreading
    rwa [hreading] at hanswer
  · rename_i hreading
    rw [hreading] at hanswer
    exact hdeep hanswer
  · rename_i hreading
    rwa [hreading] at hanswer

theorem Takes.bind_answers {first : Reading α} {next : α → Reading β} {value : α}
    {expected : Except Cause β} (hfirst : Takes first text (more ++ rest) value)
    (hnext : Answers isDeep (next value) more rest expected) :
    Answers isDeep (first >>= next) (text ++ more) rest expected := by
  intro cursor hcursor
  rw [List.append_assoc] at hcursor
  have hanswer := hnext _ (Cursor.rest_advance_append hcursor)
  rw [bind_of_ok (hfirst cursor hcursor), ← Cursor.advance_append]
  exact hanswer

theorem Takes.bind_nil_answers {first : Reading α} {next : α → Reading β} {value : α}
    {expected : Except Cause β} (hfirst : Takes first [] (text ++ rest) value)
    (hnext : Answers isDeep (next value) text rest expected) :
    Answers isDeep (first >>= next) text rest expected := by
  simpa using Takes.bind_answers hfirst hnext

theorem Answers.bind {first : Reading α} {next : α → Reading β} {expected : Except Cause α}
    {outcome : α → Except Cause β} (hfirst : Answers isDeep first text (more ++ rest) expected)
    (hnext : ∀ value, Answers isDeep (next value) more rest (outcome value)) :
    Answers isDeep (first >>= next) (text ++ more) rest (expected >>= outcome) := by
  intro cursor hcursor
  rw [List.append_assoc] at hcursor
  have hanswer := hfirst cursor hcursor
  cases hvalue : first cursor with
  | ok value between =>
      rw [hvalue] at hanswer
      rcases hanswer with ⟨rfl, rfl⟩
      rw [bind_of_ok hvalue, ← Cursor.advance_append]
      exact hnext value _ (Cursor.rest_advance_append hcursor)
  | error error after =>
      rw [hvalue] at hanswer
      rw [bind_of_error hvalue]
      cases error with
      | located cause position =>
          rcases hanswer with ⟨rfl, rfl⟩
          exact ⟨rfl, rfl⟩
      | nestingTooDeep => exact hanswer
      | pastEnd => exact hanswer

theorem Answers.bind_last {first : Reading α} {next : α → Reading β} {expected : Except Cause α}
    {outcome : α → Except Cause β} (hfirst : Answers isDeep first text rest expected)
    (hnext : ∀ value, Answers isDeep (next value) [] rest (outcome value)) :
    Answers isDeep (first >>= next) text rest (expected >>= outcome) := by
  have hfirst : Answers isDeep first text ([] ++ rest) expected := hfirst
  simpa using Answers.bind hfirst hnext

theorem Answers.map {reading : Reading α} {expected : Except Cause α} (f : α → β)
    (h : Answers isDeep reading text rest expected) :
    Answers isDeep (f <$> reading) text rest (f <$> expected) := by
  have hlast : Answers isDeep (reading >>= fun value => pure (f value)) text rest
      (expected >>= fun value => .ok (f value)) :=
    h.bind_last fun value => (takes_pure (f value) rest).answers
  cases expected <;> exact hlast

theorem Answers.eq_ok {reading : Reading α} {result : α}
    (h : Answers isDeep reading text rest (.ok result)) (hdeep : ¬isDeep)
    {cursor : Cursor} (hcursor : cursor.rest = text ++ rest) :
    reading cursor = .ok result (cursor.advance text.length) := by
  have hanswer := h cursor hcursor
  cases hreading : reading cursor with
  | ok found after =>
      rw [hreading] at hanswer
      rw [Except.ok.inj hanswer.1, hanswer.2]
  | error error after =>
      rw [hreading] at hanswer
      cases error with
      | located cause position => simp at hanswer
      | nestingTooDeep => exact absurd hanswer hdeep
      | pastEnd => exact hanswer.elim

theorem Answers.exists_eq_error {reading : Reading α} {cause : Cause}
    (h : Answers isDeep reading text rest (.error cause)) (hdeep : ¬isDeep)
    {cursor : Cursor} (hcursor : cursor.rest = text ++ rest) :
    ∃ after, reading cursor = .error (.located cause after.position) after := by
  have hanswer := h cursor hcursor
  cases hreading : reading cursor with
  | ok found after =>
      rw [hreading] at hanswer
      simp at hanswer
  | error error after =>
      rw [hreading] at hanswer
      cases error with
      | located found position =>
          rw [Except.error.inj hanswer.1, hanswer.2]
          exact ⟨after, rfl⟩
      | nestingTooDeep => exact absurd hanswer hdeep
      | pastEnd => exact hanswer.elim

end ConfTree.Reading
