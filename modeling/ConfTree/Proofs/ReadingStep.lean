import ConfTree.Proofs.InsignificantPrefix
import ConfTree.Proofs.TextRun
import ConfTree.Source.Reading

/-!
What the steps of reading do.  Forwards, a step takes a text in front of a certain rest.
Backwards, whenever a step succeeds it has taken a text that its result and the rest are related
to.  Both views are kept by sequencing, so the facts about larger readings are put together from
those about their steps.
-/

namespace ConfTree

theorem Cursor.rest_advance_append {cursor : Cursor} {text rest : Text}
    (h : cursor.rest = text ++ rest) : (cursor.advance text.length).rest = rest := by
  rw [rest_advance, h, List.drop_left]

theorem Cursor.advance_append (cursor : Cursor) (first second : Text) :
    (cursor.advance first.length).advance second.length =
      cursor.advance (first ++ second).length := by
  rw [advance_advance, List.length_append]

@[simp]
theorem Cursor.advance_zero (cursor : Cursor) : cursor.advance 0 = cursor := by
  simp [advance, Position.past]

def Cursor.Moves (cursor : Cursor) (text : Text) (after : Cursor) : Prop :=
  cursor.rest = text ++ after.rest ∧ after = cursor.advance text.length

theorem Cursor.moves_advance {cursor : Cursor} (text : Text) {rest : Text}
    (h : cursor.rest = text ++ rest) : cursor.Moves text (cursor.advance text.length) :=
  ⟨by rw [rest_advance_append h, h], rfl⟩

theorem Cursor.Moves.trans {first second third : Cursor} {text more : Text}
    (h : first.Moves text second) (hmore : second.Moves more third) :
    first.Moves (text ++ more) third := by
  rcases h with ⟨hfirst, rfl⟩
  rcases hmore with ⟨hsecond, rfl⟩
  refine ⟨?_, advance_append first text more⟩
  rw [hfirst, hsecond, List.append_assoc]

namespace Reading

variable {α β : Type} {text rest : Text}

section

variable {σ : Type} {first : EStateM ReadError σ α} {start between after : σ} {value : α}
  {error : ReadError}

theorem bind_of_ok (h : first start = .ok value between) (next : α → EStateM ReadError σ β) :
    (first >>= next) start = next value between := by
  change EStateM.bind first next start = _
  rw [EStateM.bind, h]

theorem bind_of_error (h : first start = .error error after) (next : α → EStateM ReadError σ β) :
    (first >>= next) start = .error error after := by
  change EStateM.bind first next start = _
  rw [EStateM.bind, h]

theorem exists_of_bind_eq_ok {next : α → EStateM ReadError σ β} {result : β}
    (h : (first >>= next) start = .ok result after) :
    ∃ value between, first start = .ok value between ∧ next value between = .ok result after := by
  cases hfirst : first start with
  | ok value between => exact ⟨value, between, rfl, by rwa [bind_of_ok hfirst] at h⟩
  | error error between => simp [bind_of_error hfirst] at h

theorem exists_of_bind_eq_error {next : α → EStateM ReadError σ β}
    (h : (first >>= next) start = .error error after) :
    first start = .error error after ∨
      ∃ value between, first start = .ok value between ∧
        next value between = .error error after := by
  cases hfirst : first start with
  | ok value between =>
      rw [bind_of_ok hfirst] at h
      exact .inr ⟨value, between, rfl, h⟩
  | error early between =>
      rw [bind_of_error hfirst] at h
      cases h
      exact .inl rfl

theorem error_of_map {f : α → β} (h : (f <$> first) start = .error error after) :
    first start = .error error after := by
  rw [map_eq_pure_bind] at h
  rcases exists_of_bind_eq_error h with hfirst | ⟨_, _, -, hpure⟩
  · exact hfirst
  · cases hpure

end

/-! Forwards. -/

/-- In front of a text with a certain rest behind it, a reading takes the text and gives a
result. -/
def Takes (reading : Reading α) (text rest : Text) (result : α) : Prop :=
  ∀ cursor : Cursor, cursor.rest = text ++ rest →
    reading cursor = .ok result (cursor.advance text.length)

theorem takes_pure (result : α) (rest : Text) : Takes (pure result) [] rest result := by
  intro cursor _
  simp [pure, EStateM.pure]

theorem Takes.bind {first : Reading α} {next : α → Reading β} {more : Text} {value : α}
    {result : β} (hfirst : Takes first text (more ++ rest) value)
    (hnext : Takes (next value) more rest result) :
    Takes (first >>= next) (text ++ more) rest result := by
  intro cursor hcursor
  rw [List.append_assoc] at hcursor
  rw [bind_of_ok (hfirst cursor hcursor), hnext _ (Cursor.rest_advance_append hcursor),
    Cursor.advance_append]

theorem Takes.bind_nil {first : Reading α} {next : α → Reading β} {value : α} {result : β}
    (hfirst : Takes first [] (text ++ rest) value) (hnext : Takes (next value) text rest result) :
    Takes (first >>= next) text rest result := by
  simpa using Takes.bind hfirst hnext

theorem Takes.bind_last {first : Reading α} {next : α → Reading β} {value : α} {result : β}
    (hfirst : Takes first text rest value) (hnext : Takes (next value) [] rest result) :
    Takes (first >>= next) text rest result := by
  have hfirst : Takes first text ([] ++ rest) value := hfirst
  simpa using Takes.bind hfirst hnext

theorem takes_advance (text rest : Text) : Takes (advance text.length) text rest () := by
  intro cursor _
  rfl

theorem takes_next? (rest : Text) : Takes next? [] rest rest.head? := by
  intro cursor hcursor
  simp [next?, hcursor]

theorem takes_atEnd (rest : Text) : Takes atEnd [] rest rest.isEmpty := by
  intro cursor hcursor
  simp [atEnd, hcursor]

theorem takes_run {inClass : Char → Bool} (hrun : ∀ c ∈ text, inClass c = true)
    (hrest : Text.EndsRun inClass rest) : Takes (run inClass) text rest text := by
  intro cursor hcursor
  simp only [run, hcursor, Text.takeWhile_run_append hrun hrest]

theorem skip_eq_of_some {cursor : Cursor} {count : Nat}
    (h : Insignificant.length? .between cursor.rest = some count) :
    skip cursor = advance count cursor := by
  have hget : (get : Reading Cursor) cursor = .ok cursor cursor := rfl
  rw [skip, bind_of_ok hget, h]

theorem skip_eq_of_none {cursor : Cursor}
    (h : Insignificant.length? .between cursor.rest = none) :
    skip cursor = (advance cursor.rest.length >>= fun _ => fail .unterminatedComment) cursor := by
  have hget : (get : Reading Cursor) cursor = .ok cursor cursor := rfl
  rw [skip, bind_of_ok hget, h]

theorem skip_of_unclosed {cursor : Cursor}
    (h : Insignificant.length? .between cursor.rest = none) :
    skip cursor = .error
      (.located .unterminatedComment (cursor.advance cursor.rest.length).position)
      (cursor.advance cursor.rest.length) :=
  skip_eq_of_none h

theorem skip_eq_of_append {cursor : Cursor} {text rest : Text} (hrest : cursor.rest = text ++ rest)
    (hlength : Insignificant.length? .between (text ++ rest) =
      (Insignificant.length? .between rest).map (· + text.length)) :
    skip cursor = skip (cursor.advance text.length) := by
  have hmoved : (cursor.advance text.length).rest = rest := Cursor.rest_advance_append hrest
  cases hcount : Insignificant.length? .between rest with
  | some count =>
      rw [hcount, ← hrest] at hlength
      rw [skip_eq_of_some hlength, skip_eq_of_some (hmoved.symm ▸ hcount)]
      simp only [advance, Cursor.advance_advance, Nat.add_comm]
  | none =>
      rw [hcount, ← hrest] at hlength
      rw [skip_eq_of_none hlength, skip_eq_of_none (hmoved.symm ▸ hcount), hmoved, hrest]
      change EStateM.bind _ _ _ = EStateM.bind _ _ _
      simp only [EStateM.bind, advance, Cursor.advance_advance, List.length_append]

theorem takes_skip {gap : Gap} (hgap : gap.MayPrecede rest)
    (hrest : Insignificant.IsAbsent rest) : Takes skip gap.text rest () := by
  intro cursor hcursor
  have hlength : Insignificant.length? .between cursor.rest = some gap.text.length := by
    rw [hcursor]
    exact Gap.length?_text_of_isAbsent hgap hrest
  rw [skip_eq_of_some hlength]
  rfl

theorem takes_peek {gap : Gap} (hgap : gap.MayPrecede rest)
    (hrest : Insignificant.IsAbsent rest) (c : Char) :
    Takes (peek c) gap.text rest (rest.head? = some c) := by
  have htail : Takes (next? >>= fun next => pure (decide (next = some c))) [] rest
      (decide (rest.head? = some c)) := (takes_next? rest).bind_nil (takes_pure _ rest)
  exact (takes_skip hgap hrest).bind_last htail

theorem takes_accept {gap : Gap} {c : Char} (hgap : gap.IsInner)
    (hc : Insignificant.IsAbsent (c :: rest)) : Takes (accept c) (gap.text ++ [c]) rest true := by
  have hpeek : Takes (peek c) gap.text ([c] ++ rest) true := by
    simpa using takes_peek (hgap.mayPrecede _) hc c
  exact Takes.bind hpeek ((takes_advance [c] rest).bind_last (takes_pure true rest))

theorem takes_accept_of_ne {gap : Gap} {c : Char} (hgap : gap.MayPrecede rest)
    (hrest : Insignificant.IsAbsent rest) (hc : rest.head? ≠ some c) :
    Takes (accept c) gap.text rest false := by
  have hpeek : Takes (peek c) gap.text rest false := by
    simpa [hc] using takes_peek hgap hrest c
  exact hpeek.bind_last (takes_pure false rest)

theorem takes_expect {gap : Gap} {c : Char} (hgap : gap.IsInner)
    (hc : Insignificant.IsAbsent (c :: rest)) : Takes (expect c) (gap.text ++ [c]) rest () := by
  have hpeek : Takes (peek c) gap.text ([c] ++ rest) true := by
    simpa using takes_peek (hgap.mayPrecede _) hc c
  exact Takes.bind hpeek (takes_advance [c] rest)

/-! Backwards. -/

/-- Whenever a reading succeeds, the text that it has taken, the rest and the result are
related. -/
def Ensures (reading : Reading α) (relation : Text → Text → α → Prop) : Prop :=
  ∀ (cursor after : Cursor) (result : α), reading cursor = .ok result after →
    ∃ text, cursor.Moves text after ∧ relation text after.rest result

theorem eq_of_pure {cursor after : Cursor} {value result : α}
    (h : (pure value : Reading α) cursor = .ok result after) : value = result ∧ cursor = after := by
  simpa [pure, EStateM.pure] using h

theorem not_fail_eq_ok {cursor after : Cursor} {cause : Cause} {result : α} :
    (fail cause : Reading α) cursor ≠ .ok result after := by
  simp [fail]

theorem eq_of_next? {cursor after : Cursor} {result : Option Char}
    (h : next? cursor = .ok result after) : cursor.rest.head? = result ∧ cursor = after := by
  simpa [next?] using h

theorem eq_of_atEnd {cursor after : Cursor} {result : Bool}
    (h : atEnd cursor = .ok result after) : cursor.rest.isEmpty = result ∧ cursor = after := by
  simpa [atEnd] using h

theorem moves_of_advance (text : Text) {cursor after : Cursor} {result : Unit}
    (h : advance text.length cursor = .ok result after) (hrest : cursor.rest = text ++ rest) :
    cursor.Moves text after ∧ after.rest = rest := by
  obtain rfl : cursor.advance text.length = after := by simpa [advance] using h
  exact ⟨Cursor.moves_advance _ hrest, Cursor.rest_advance_append hrest⟩

theorem ensures_run (inClass : Char → Bool) :
    Ensures (run inClass) fun text rest result =>
      result = text ∧ (∀ c ∈ text, inClass c = true) ∧ Text.EndsRun inClass rest := by
  intro cursor after result h
  obtain ⟨rfl, rfl⟩ : cursor.rest.takeWhile inClass = result ∧
      cursor.advance (cursor.rest.takeWhile inClass).length = after := by
    simpa [run] using h
  have hsplit : cursor.rest = cursor.rest.takeWhile inClass ++ cursor.rest.dropWhile inClass :=
    List.takeWhile_append_dropWhile.symm
  refine ⟨_, Cursor.moves_advance _ hsplit, rfl, Text.forall_mem_takeWhile, ?_⟩
  rw [Cursor.rest_advance_append hsplit]
  exact Text.endsRun_dropWhile inClass cursor.rest

theorem ensures_skip :
    Ensures skip fun text rest _ => ∃ gap : Gap, text = gap.text ∧ gap.MayPrecede rest ∧
      Insignificant.IsAbsent rest := by
  intro cursor after result h
  cases hcount : Insignificant.length? .between cursor.rest with
  | some count =>
      rw [skip_eq_of_some hcount] at h
      obtain ⟨gap, rest, hstarts, rfl⟩ := Gap.exists_starts_of_length? hcount
      obtain ⟨hmoves, rfl⟩ := moves_of_advance _ h hstarts.text_eq
      exact ⟨gap.text, hmoves, gap, rfl, hstarts.mayPrecede, hstarts.absent⟩
  | none =>
      rw [skip_eq_of_none hcount] at h
      obtain ⟨_, _, _, hfail⟩ := exists_of_bind_eq_ok h
      exact absurd hfail not_fail_eq_ok

theorem ensures_peek (c : Char) :
    Ensures (peek c) fun text rest result => ∃ gap : Gap, text = gap.text ∧ gap.MayPrecede rest ∧
      result = decide (rest.head? = some c) := by
  intro cursor after result h
  obtain ⟨_, skipped, hskip, h⟩ := exists_of_bind_eq_ok h
  obtain ⟨_, hmoves, gap, rfl, hgap, -⟩ := ensures_skip cursor skipped _ hskip
  obtain ⟨next, _, hnext, h⟩ := exists_of_bind_eq_ok h
  obtain ⟨rfl, rfl⟩ := eq_of_next? hnext
  obtain ⟨rfl, rfl⟩ := eq_of_pure h
  exact ⟨gap.text, hmoves, gap, rfl, hgap, rfl⟩

theorem moves_of_peek_true {c : Char} {cursor between : Cursor}
    (h : peek c cursor = .ok true between) :
    ∃ gap : Gap, gap.IsInner ∧ cursor.Moves (gap.text ++ [c]) (between.advance 1) := by
  obtain ⟨_, hmoves, gap, rfl, hgap, hfound⟩ := ensures_peek c cursor between true h
  have hhead : between.rest.head? = some c := by simpa using hfound.symm
  obtain ⟨rest, hrest⟩ := List.head?_eq_some_iff.mp hhead
  have hnext : between.Moves [c] (between.advance 1) := Cursor.moves_advance [c] hrest
  exact ⟨gap, hgap.isInner (by simp [hrest]), hmoves.trans hnext⟩

theorem ensures_accept (c : Char) :
    Ensures (accept c) fun text rest result => ∃ gap : Gap,
      (result = true ∧ gap.IsInner ∧ text = gap.text ++ [c]) ∨
        (result = false ∧ gap.MayPrecede rest ∧ text = gap.text) := by
  intro cursor after result h
  obtain ⟨found, between, hpeek, h⟩ := exists_of_bind_eq_ok h
  cases found with
  | true =>
      have h : EStateM.Result.ok true (between.advance 1) = .ok result after := h
      obtain ⟨rfl, rfl⟩ : true = result ∧ between.advance 1 = after := by simpa using h
      obtain ⟨gap, hgap, hmoves⟩ := moves_of_peek_true hpeek
      exact ⟨_, hmoves, gap, .inl ⟨rfl, hgap, rfl⟩⟩
  | false =>
      obtain ⟨rfl, rfl⟩ := eq_of_pure h
      obtain ⟨_, hmoves, gap, rfl, hgap, -⟩ := ensures_peek c cursor between false hpeek
      exact ⟨_, hmoves, gap, .inr ⟨rfl, hgap, rfl⟩⟩

theorem ensures_expect (c : Char) :
    Ensures (expect c) fun text _ _ => ∃ gap : Gap, gap.IsInner ∧ text = gap.text ++ [c] := by
  intro cursor after result h
  obtain ⟨found, between, hpeek, h⟩ := exists_of_bind_eq_ok h
  cases found with
  | true =>
      have h : EStateM.Result.ok () (between.advance 1) = .ok result after := h
      obtain rfl : between.advance 1 = after := by simpa using h
      obtain ⟨gap, hgap, hmoves⟩ := moves_of_peek_true hpeek
      exact ⟨_, hmoves, gap, hgap, rfl⟩
  | false => exact absurd h not_fail_eq_ok

end Reading

end ConfTree
