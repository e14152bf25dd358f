import ConfTree.Proofs.DeclarationOpening
import ConfTree.Proofs.TermReading
import ConfTree.Proofs.WrittenDocument

namespace ConfTree.Reading

variable {settings : Settings} {constants : Constants} {rest : Text}

/-- What follows the gap behind a name, where a declaration may have begun at a cursor. -/
def afterGap (settings : Settings) (constants : Constants) (start : Cursor) (name : Text) :
    Reading (Option (Text × Value)) := do
  if (← get).startsWith bindingMarker then
    advance bindingMarker.length
    let value ← value settings constants
    pure (some (name, value))
  else
    set start
    pure none

def afterName (settings : Settings) (constants : Constants) (start : Cursor) (name : Text) :
    Reading (Option (Text × Value)) :=
  if name = [] then pure none
  else do
    skip
    afterGap settings constants start name

theorem declaration?_eq (cursor : Cursor) :
    declaration? settings constants cursor =
      (name >>= afterName settings constants cursor) cursor := rfl

theorem afterGap_of_marker {cursor : Cursor} (start : Cursor) (name : Text)
    (h : bindingMarker <+: cursor.rest) :
    afterGap settings constants start name cursor =
      (advance bindingMarker.length >>= fun _ => value settings constants >>= fun value =>
        pure (some (name, value))) cursor := by
  change (if cursor.startsWith bindingMarker then _ else _ : Reading _) cursor = _
  rw [if_pos (startsWith_bindingMarker_iff.mpr h)]

theorem afterGap_of_not_marker {cursor : Cursor} (start : Cursor) (name : Text)
    (h : ¬bindingMarker <+: cursor.rest) :
    afterGap settings constants start name cursor = .ok none start := by
  change (if cursor.startsWith bindingMarker then _ else _ : Reading _) cursor = _
  rw [if_neg fun hstarts => h (startsWith_bindingMarker_iff.mp hstarts)]
  rfl

/-! Forwards. -/

theorem answers_declaration (constants : Constants) {written : Text}
    {beforeMarker beforeValue : Gap} {term : Term}
    (h : (Item.declaration written beforeMarker beforeValue term).IsValid settings)
    (hstops : term.StopsBefore rest) :
    Answers (nestingLimit + 1 < term.levels) (declaration? settings constants)
      (Item.declaration written beforeMarker beforeValue term).written rest
      (term.value constants >>= fun value => .ok (some (written, value))) := by
  rcases h with ⟨hname, hmarker, hvalue, hterm⟩
  intro cursor hcursor
  have hsplit : (Item.declaration written beforeMarker beforeValue term).written =
      written ++ (beforeMarker.text ++ (bindingMarker ++ (beforeValue.text ++ term.written))) := by
    simp [Item.written]
  rw [hsplit] at hcursor ⊢
  have hcolon : ∀ text, bindingMarker ++ text = ':' :: '=' :: text := fun _ => rfl
  have hbound : Answers (nestingLimit + 1 < term.levels)
      (afterGap settings constants cursor written)
      (bindingMarker ++ (beforeValue.text ++ term.written)) rest
      (term.value constants >>= fun value => .ok (some (written, value))) := by
    intro here hhere
    rw [List.append_assoc] at hhere
    have hmarker : bindingMarker <+: here.rest := hhere ▸ List.prefix_append _ _
    rw [afterGap_of_marker cursor written hmarker]
    refine (takes_advance bindingMarker _).bind_answers ?_ here (by rwa [List.append_assoc])
    exact (answersFor_value settings constants term hterm beforeValue rest hvalue hstops).bind_last
      fun value => (takes_pure (some (written, value)) rest).answers
  have hnamed : Answers (nestingLimit + 1 < term.levels)
      (afterName settings constants cursor written)
      (beforeMarker.text ++ (bindingMarker ++ (beforeValue.text ++ term.written))) rest
      (term.value constants >>= fun value => .ok (some (written, value))) := by
    rw [afterName, if_neg hname.1]
    refine (takes_skip (hmarker.mayPrecede _) ?_).bind_answers hbound
    rw [List.append_assoc, hcolon]
    exact Insignificant.isAbsent_cons _ (by decide) (by decide) (by decide)
  refine (takes_name hname ?_).bind_answers hnamed cursor hcursor
  have hmark : Text.isDigit ':' = false ∧ ':' ≠ '.' ∧ Text.isNameLetter ':' = false := by decide
  intro c hc
  rw [List.append_assoc, List.append_assoc, hcolon] at hc
  exact (Gap.isApart_text_append hmarker.1 (fun _ => Text.isApart_cons hmark) c hc).2.2

theorem takes_declaration?_none_of_not_reference {term : Term} (hterm : term.IsValid settings)
    (hreference : ∀ written, term ≠ .reference written) (rest : Text) :
    Takes (declaration? settings constants) [] (term.written ++ rest) none := by
  intro cursor hcursor
  have hname : name cursor = .ok [] (cursor.advance 0) :=
    takes_run (by simp) (Term.endsRun_written_append hterm hreference rest) cursor hcursor
  rw [declaration?_eq, bind_of_ok hname]
  simp [afterName, pure, EStateM.pure]

theorem afterName_of_bindsNothing {name : Text} {start here : Cursor} (hname : name ≠ [])
    (h : BindsNothing here.rest) :
    afterName settings constants start name here = .ok none start := by
  obtain ⟨count, hcount, hmarker⟩ := h
  have hskip : skip here = .ok () (here.advance count) := skip_eq_of_some hcount
  rw [afterName, if_neg hname, bind_of_ok hskip]
  exact afterGap_of_not_marker start name hmarker

theorem takes_declaration?_none {term : Term} (hterm : term.IsValid settings)
    (hstops : term.StopsBefore rest) (hrest : BindsNothing rest) :
    Takes (declaration? settings constants) [] (term.written ++ rest) none := by
  by_cases hreference : ∃ written, term = .reference written
  · rcases hreference with ⟨written, rfl⟩
    intro cursor hcursor
    have hcursor : cursor.rest = written ++ rest := hcursor
    have hbehind : BindsNothing (cursor.advance written.length).rest :=
      Cursor.rest_advance_append hcursor ▸ hrest
    rw [declaration?_eq, bind_of_ok (takes_name hterm hstops cursor hcursor),
      afterName_of_bindsNothing hterm.1 hbehind]
    simp
  · exact takes_declaration?_none_of_not_reference hterm
      (fun written heq => hreference ⟨written, heq⟩) rest

/-! Backwards. -/

theorem eq_of_declaration?_none {cursor after : Cursor}
    (h : declaration? settings constants cursor = .ok none after) : after = cursor := by
  change declarationBy? (value settings constants) cursor = _ at h
  rcases declarationBy?_cases cursor with ⟨name, place, hopens⟩ | hopen | hnone
  · rw [hopens.bindsAt] at h
    obtain ⟨_, _, -, hpure⟩ := exists_of_bind_eq_ok h
    cases hpure
  · rw [hopen.declarationBy?_eq] at h
    cases h
  · rw [hnone] at h
    cases h
    rfl

theorem exists_item_of_declaration? {cursor after : Cursor} {found : Text} {result : Value}
    (h : declaration? settings constants cursor = .ok (some (found, result)) after) :
    ∃ (beforeMarker beforeValue : Gap) (term : Term),
      (Item.declaration found beforeMarker beforeValue term).IsValid settings ∧
      term.StopsBefore after.rest ∧
      cursor.Moves (Item.declaration found beforeMarker beforeValue term).written after ∧
      term.value constants = .ok result ∧ term.levels ≤ nestingLimit + 1 := by
  change declarationBy? (value settings constants) cursor = _ at h
  rcases declarationBy?_cases cursor with ⟨name, place, hopens⟩ | hopen | hnone
  · rw [hopens.bindsAt] at h
    obtain ⟨value, last, hvalue, hpure⟩ := exists_of_bind_eq_ok h
    obtain ⟨hresult, rfl⟩ := eq_of_pure hpure
    obtain ⟨rfl, rfl⟩ : name = found ∧ value = result := by simpa using hresult
    obtain ⟨beforeMarker, hname, hmarker, -, hplace⟩ := hopens
    obtain ⟨_, hlast, beforeValue, term, hgap, hterm, hstops, rfl, hmeaning, hlevels⟩ :=
      ensures_value settings constants place last value hvalue
    refine ⟨beforeMarker, beforeValue, term, ⟨hname, hmarker, hgap, hterm⟩, hstops, ?_, hmeaning,
      hlevels⟩
    simpa [Item.written] using hplace.trans hlast
  · rw [hopen.declarationBy?_eq] at h
    cases h
  · rw [hnone] at h
    cases h

end ConfTree.Reading
