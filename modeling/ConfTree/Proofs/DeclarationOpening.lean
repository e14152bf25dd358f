import ConfTree.Proofs.LeafReading
import ConfTree.Source.Document

namespace ConfTree.Reading

def declarationBy? (value : Reading Value) : Reading (Option (Text × Value)) := do
  let start ← get
  let name ← name
  if name = [] then
    pure none
  else
    skip
    if (← get).startsWith bindingMarker then
      advance bindingMarker.length
      let value ← value
      pure (some (name, value))
    else
      set start
      pure none

variable {value : Reading Value} {cursor place : Cursor} {name : Text}

theorem startsWith_bindingMarker_iff :
    cursor.startsWith bindingMarker = true ↔ bindingMarker <+: cursor.rest :=
  List.isPrefixOf_iff_prefix

/-- Between two cursors stand a whole name, insignificant content and the marker of a
declaration. -/
def OpensBinding (cursor : Cursor) (name : Text) (place : Cursor) : Prop :=
  ∃ gap : Gap, Text.IsName name ∧ gap.IsInner ∧
    Text.EndsRun Text.isNameLetter (gap.text ++ (bindingMarker ++ place.rest)) ∧
    cursor.Moves (name ++ (gap.text ++ bindingMarker)) place

/-- Behind a whole name a comment is open up to the end of the text. -/
def StaysOpen (cursor : Cursor) : Prop :=
  ∃ name rest, Text.IsName name ∧ Text.EndsRun Text.isNameLetter rest ∧ Gap.IsUnclosed rest ∧
    cursor.rest = name ++ rest

/-- An attempt at a declaration comes to reading a value for a name at a place, whatever it is that
reads values. -/
def BindsAt (cursor : Cursor) (name : Text) (place : Cursor) : Prop :=
  ∀ value : Reading Value, declarationBy? value cursor =
    (value >>= fun value => pure (some (name, value))) place

theorem BindsAt.eq_and_eq {other : Text} {elsewhere : Cursor} (h : BindsAt cursor name place)
    (hother : BindsAt cursor other elsewhere) : name = other ∧ place = elsewhere := by
  have hnull := (h (pure .null)).symm.trans (hother (pure .null))
  obtain ⟨hname, hplace⟩ := EStateM.Result.ok.inj hnull
  exact ⟨(Prod.mk.inj (Option.some.inj hname)).1, hplace⟩

theorem declarationBy?_of_endsRun (h : Text.EndsRun Text.isNameLetter cursor.rest) :
    declarationBy? value cursor = .ok none cursor := by
  have hget : (get : Reading Cursor) cursor = .ok cursor cursor := rfl
  have hname : Reading.name cursor = .ok [] (cursor.advance 0) :=
    takes_run (by simp) h cursor rfl
  rw [declarationBy?, bind_of_ok hget, bind_of_ok hname, if_pos rfl, Cursor.advance_zero]
  rfl

theorem declarationBy?_of_name {rest : Text} (hname : Text.IsName name)
    (hends : Text.EndsRun Text.isNameLetter rest) (hrest : cursor.rest = name ++ rest) :
    declarationBy? value cursor =
      (skip >>= fun _ => get >>= fun here : Cursor =>
        if here.startsWith bindingMarker then
          advance bindingMarker.length >>= fun _ => value >>= fun value =>
            pure (some (name, value))
        else set cursor >>= fun _ => pure none) (cursor.advance name.length) := by
  have hget : (get : Reading Cursor) cursor = .ok cursor cursor := rfl
  rw [declarationBy?, bind_of_ok hget, bind_of_ok (takes_name hname hends cursor hrest),
    if_neg hname.1]

theorem declarationBy?_of_starts {gap : Gap} {behind rest : Text} (hname : Text.IsName name)
    (hends : Text.EndsRun Text.isNameLetter behind) (hgap : gap.Starts behind rest)
    (hrest : cursor.rest = name ++ behind) :
    declarationBy? value cursor =
      if bindingMarker <+: rest then
        (value >>= fun value => pure (some (name, value)))
          (cursor.advance (name ++ (gap.text ++ bindingMarker)).length)
      else .ok none cursor := by
  have hbehind : (cursor.advance name.length).rest = gap.text ++ rest := by
    rw [Cursor.rest_advance_append hrest, hgap.text_eq]
  have hskip := takes_skip hgap.mayPrecede hgap.absent _ hbehind
  rw [declarationBy?_of_name hname hends hrest, bind_of_ok hskip]
  generalize hhere : (cursor.advance name.length).advance gap.text.length = here
  have hhereRest : here.rest = rest := hhere ▸ Cursor.rest_advance_append hbehind
  change (if here.startsWith bindingMarker then _ else _ : Reading _) here = _
  by_cases hmarker : bindingMarker <+: rest
  · have hadvance : advance bindingMarker.length here =
        .ok () (here.advance bindingMarker.length) := rfl
    rw [if_pos hmarker, if_pos (startsWith_bindingMarker_iff.mpr (hhereRest ▸ hmarker)),
      bind_of_ok hadvance, ← hhere, Cursor.advance_append, Cursor.advance_append]
  · rw [if_neg hmarker, if_neg fun hstarts =>
      hmarker (hhereRest ▸ startsWith_bindingMarker_iff.mp hstarts)]
    rfl

theorem OpensBinding.bindsAt (h : OpensBinding cursor name place) : BindsAt cursor name place := by
  obtain ⟨gap, hname, hgap, hends, hrest, hplace⟩ := h
  intro value
  have hstarts : gap.Starts (gap.text ++ (bindingMarker ++ place.rest))
      (bindingMarker ++ place.rest) :=
    ⟨hgap.mayPrecede _, Insignificant.isAbsent_cons _ (by decide) (by decide) (by decide), rfl⟩
  rw [declarationBy?_of_starts hname hends hstarts (by rw [hrest]; simp),
    if_pos (List.prefix_append _ _), ← hplace]

theorem StaysOpen.declarationBy?_eq (h : StaysOpen cursor) :
    declarationBy? value cursor = .error
      (.located .unterminatedComment (cursor.advance cursor.rest.length).position)
      (cursor.advance cursor.rest.length) := by
  obtain ⟨name, rest, hname, hends, hunclosed, hrest⟩ := h
  have hbehind : (cursor.advance name.length).rest = rest := Cursor.rest_advance_append hrest
  have hskip := skip_of_unclosed (hbehind.symm ▸ hunclosed.length?_eq_none)
  rw [hbehind, Cursor.advance_append, ← hrest] at hskip
  rw [declarationBy?_of_name hname hends hrest, bind_of_error hskip]

theorem declarationBy?_cases (cursor : Cursor) :
    (∃ name place, OpensBinding cursor name place) ∨ StaysOpen cursor ∨
      ∀ value, declarationBy? value cursor = .ok none cursor := by
  obtain ⟨written, named, hread⟩ : ∃ written named, Reading.name cursor = .ok written named :=
    ⟨_, _, rfl⟩
  obtain ⟨_, hnamed, rfl, hletters, hends⟩ := ensures_run _ cursor named written hread
  by_cases hwritten : written = []
  · have hsame : named = cursor := by rw [hnamed.2, hwritten, List.length_nil, Cursor.advance_zero]
    rw [hsame] at hends
    exact .inr (.inr fun value => declarationBy?_of_endsRun hends)
  · have hname : Text.IsName written := ⟨hwritten, hletters⟩
    rcases Gap.starts_or_isUnclosed named.rest with ⟨gap, rest, hgap⟩ | hunclosed
    · by_cases hmarker : bindingMarker <+: rest
      · obtain ⟨behind, rfl⟩ := hmarker
        have hsplit : named.rest = gap.text ++ bindingMarker ++ behind := by
          rw [hgap.text_eq, List.append_assoc]
        have hmoves := Cursor.moves_advance _ hsplit
        refine .inl ⟨written, _, gap, hname, ?_, ?_, hnamed.trans hmoves⟩
        · exact hgap.mayPrecede.isInner (by simp [bindingMarker])
        · rwa [Cursor.rest_advance_append hsplit, ← hgap.text_eq]
      · refine .inr (.inr fun value => ?_)
        rw [declarationBy?_of_starts hname hends hgap hnamed.1, if_neg hmarker]
    · exact .inr (.inl ⟨written, named.rest, hname, hends, hunclosed, hnamed.1⟩)

theorem bindsAt_iff : BindsAt cursor name place ↔ OpensBinding cursor name place := by
  refine ⟨fun hbinds => ?_, OpensBinding.bindsAt⟩
  rcases declarationBy?_cases cursor with ⟨other, elsewhere, hopens⟩ | hopen | hnone
  · obtain ⟨rfl, rfl⟩ := hbinds.eq_and_eq hopens.bindsAt
    exact hopens
  · have hnull := hbinds (pure .null)
    rw [hopen.declarationBy?_eq] at hnull
    cases hnull
  · have hnull := hbinds (pure .null)
    rw [hnone] at hnull
    cases hnull

/-- An attempt at a declaration comes to the same whatever the reader of values is, or it runs that
reader somewhere behind the name. -/
theorem declarationBy?_eq_or (cursor : Cursor) :
    (∃ result, ∀ value, declarationBy? value cursor = result) ∨
    ∃ (written : Text) (count : Nat), ∀ value, declarationBy? value cursor =
      (value >>= fun value => pure (some (written, value))) (cursor.advance count) := by
  rcases declarationBy?_cases cursor with ⟨name, place, hopens⟩ | hopen | hnone
  · obtain ⟨_, -, -, -, -, rfl⟩ := id hopens
    exact .inr ⟨name, _, hopens.bindsAt⟩
  · exact .inl ⟨_, fun _ => hopen.declarationBy?_eq⟩
  · exact .inl ⟨_, hnone⟩

end ConfTree.Reading
