import ConfTree.Source.Gap

namespace ConfTree

namespace Insignificant

theorem lineMarker_eq : lineMarker = ['R', 'E', 'M'] := rfl

theorem blockMarker_eq : blockMarker = ['(', 'c', 'o', 'm', 'm', 'e', 'n', 't'] := rfl

def IsAbsent (text : Text) : Prop :=
  length? .between text = some 0

theorem isAbsent_nil : IsAbsent [] := rfl

theorem isAbsent_cons {c : Char} (rest : Text) (hblank : Text.isBlank c = false)
    (hline : c ≠ 'R') (hblock : c ≠ '(') : IsAbsent (c :: rest) := by
  have hnoLine : lineMarker.isPrefixOf (c :: rest) = false := by
    simp [lineMarker_eq, List.isPrefixOf_cons_cons, hline.symm]
  have hnoBlock : blockMarker.isPrefixOf (c :: rest) = false := by
    rw [blockMarker_eq, List.isPrefixOf_cons_cons, beq_eq_false_iff_ne.mpr hblock.symm,
      Bool.false_and]
  simp [IsAbsent, length?, hblank, hnoLine, hnoBlock]

theorem length?_cons_blank {c : Char} (rest : Text) (h : Text.isBlank c = true) :
    length? .between (c :: rest) = (length? .between rest).map (· + 1) := by
  simp [length?, h]

theorem length?_lineMarker (rest : Text) :
    length? .between (lineMarker ++ rest) =
      (length? .lineComment rest).map (· + lineMarker.length) := by
  have hblank : Text.isBlank 'R' = false := by decide
  simp [length?, hblank, lineMarker_eq, Function.comp_def, Nat.add_assoc]

theorem length?_blockMarker (rest : Text) :
    length? .between (blockMarker ++ rest) =
      (length? .blockComment rest).map (· + blockMarker.length) := by
  have hblank : Text.isBlank '(' = false := by decide
  simp [length?, hblank, lineMarker_eq, blockMarker_eq, Function.comp_def, Nat.add_assoc]

theorem length?_lineComment_append (body rest : Text) (h : '\n' ∉ body) :
    length? .lineComment (body ++ rest) =
      (length? .lineComment rest).map (· + body.length) := by
  induction body with
  | nil => simp
  | cons c body ih =>
      have hc : c ≠ '\n' := fun hc => h (by simp [hc])
      have hbody : '\n' ∉ body := fun hbody => h (by simp [hbody])
      simp [length?, hc, ih hbody, Function.comp_def, Nat.add_assoc]

theorem length?_blockComment_append (body rest : Text) (h : ')' ∉ body) :
    length? .blockComment (body ++ rest) =
      (length? .blockComment rest).map (· + body.length) := by
  induction body with
  | nil => simp
  | cons c body ih =>
      have hc : c ≠ ')' := fun hc => h (by simp [hc])
      have hbody : ')' ∉ body := fun hbody => h (by simp [hbody])
      simp [length?, hc, ih hbody, Function.comp_def, Nat.add_assoc]

/-- A line comment ends like nothing at all: at the end of the text, or with a blank. -/
theorem length?_lineComment_eq_between {rest : Text}
    (h : rest = [] ∨ rest.head? = some '\n') :
    length? .lineComment rest = length? .between rest := by
  rcases h with rfl | hhead
  · rfl
  · obtain ⟨tail, rfl⟩ := List.head?_eq_some_iff.mp hhead
    rw [length?_cons_blank tail Text.isBlank_newline]
    simp [length?]

theorem length?_blockComment_close (rest : Text) :
    length? .blockComment (')' :: rest) = (length? .between rest).map (· + 1) := by
  simp [length?]

theorem length?_blockComment_eq_none {text : Text} (h : ')' ∉ text) :
    length? .blockComment text = none := by
  have hsplit := length?_blockComment_append text [] h
  simpa [length?] using hsplit

theorem induction {motive : Text → Prop} (absent : ∀ text, IsAbsent text → motive text)
    (blank : ∀ c rest, Text.isBlank c = true → motive rest → motive (c :: rest))
    (lineComment : ∀ body rest, '\n' ∉ body → motive rest →
      motive (lineMarker ++ (body ++ '\n' :: rest)))
    (lastLine : ∀ body, '\n' ∉ body → motive (lineMarker ++ body))
    (blockComment : ∀ body rest, ')' ∉ body → motive rest →
      motive (blockMarker ++ (body ++ ')' :: rest)))
    (unclosed : ∀ body, ')' ∉ body → motive (blockMarker ++ body)) (text : Text) :
    motive text := by
  -- On the length of the text, because a comment is taken as a whole.
  induction hsize : text.length using Nat.strongRecOn generalizing text with
  | ind size ih =>
      subst hsize
      have ih : ∀ rest : Text, rest.length < text.length → motive rest :=
        fun rest hless => ih _ hless rest rfl
      cases text with
      | nil => exact absent [] isAbsent_nil
      | cons c tail =>
          by_cases hblank : Text.isBlank c = true
          · exact blank c tail hblank (ih tail (by simp))
          · by_cases hline : lineMarker.isPrefixOf (c :: tail) = true
            · obtain ⟨behind, hbehind⟩ := List.isPrefixOf_iff_prefix.mp hline
              rw [← hbehind, List.length_append] at ih
              rw [← hbehind]
              by_cases hnewline : '\n' ∈ behind
              · obtain ⟨body, rest, rfl, hbody⟩ := List.eq_append_cons_of_mem hnewline
                exact lineComment body rest hbody (ih rest (by simp; omega))
              · exact lastLine behind hnewline
            · by_cases hblock : blockMarker.isPrefixOf (c :: tail) = true
              · obtain ⟨behind, hbehind⟩ := List.isPrefixOf_iff_prefix.mp hblock
                rw [← hbehind, List.length_append] at ih
                rw [← hbehind]
                by_cases hbracket : ')' ∈ behind
                · obtain ⟨body, rest, rfl, hbody⟩ := List.eq_append_cons_of_mem hbracket
                  exact blockComment body rest hbody (ih rest (by simp; omega))
                · exact unclosed behind hbracket
              · exact absent _ (by simp [IsAbsent, length?, hblank, hline, hblock])

end Insignificant

open Insignificant

namespace Piece

theorem length?_text_append {piece : Piece} {rest : Text} (hvalid : piece.IsValid)
    (hrest : ∀ body, piece = .lineComment body → rest = [] ∨ rest.head? = some '\n') :
    length? .between (piece.text ++ rest) =
      (length? .between rest).map (· + piece.text.length) := by
  cases piece with
  | blank c => exact length?_cons_blank rest hvalid
  | lineComment body =>
      rw [text, List.append_assoc, length?_lineMarker, length?_lineComment_append body rest hvalid,
        length?_lineComment_eq_between (hrest body rfl)]
      simp [Function.comp_def, Nat.add_comm, Nat.add_assoc]
  | blockComment body =>
      rw [text, List.append_assoc, List.append_assoc, length?_blockMarker,
        length?_blockComment_append body _ hvalid, List.singleton_append,
        length?_blockComment_close]
      simp [Function.comp_def, Nat.add_comm, Nat.add_left_comm]

end Piece

namespace Gap

variable {gap : Gap} {piece : Piece} {rest : Text}

theorem text_cons (piece : Piece) (gap : Gap) : text (piece :: gap) = piece.text ++ text gap := rfl

theorem text_append (first second : Gap) : text (first ++ second) = first.text ++ second.text := by
  simp [text]

theorem isInner_nil : IsInner [] :=
  ⟨trivial, by simp [IsClosed]⟩

/-- What a gap may stand before: something significant only if no comment is left open. -/
def MayPrecede (gap : Gap) (rest : Text) : Prop :=
  gap.IsValid ∧ (gap.IsClosed ∨ rest = [])

theorem IsInner.mayPrecede {gap : Gap} (h : gap.IsInner) (rest : Text) : gap.MayPrecede rest :=
  ⟨h.1, .inl h.2⟩

theorem MayPrecede.isInner {gap : Gap} {rest : Text} (h : gap.MayPrecede rest)
    (hrest : rest ≠ []) : gap.IsInner :=
  ⟨h.1, h.2.resolve_right hrest⟩

theorem IsClosed.tail {piece : Piece} {gap : Gap} (h : IsClosed (piece :: gap)) :
    IsClosed gap := by
  intro body hbody
  apply h body
  rw [List.getLast?_cons, hbody]
  rfl

theorem IsValid.of_cons {piece : Piece} {gap : Gap} (h : IsValid (piece :: gap)) :
    piece.IsValid ∧ gap.IsValid ∧
      ∀ body, piece = .lineComment body → gap = [] ∨ gap.text.head? = some '\n' := by
  cases piece with
  | blank c => exact ⟨h.1, h.2, by simp⟩
  | blockComment body => exact ⟨h.1, h.2, by simp⟩
  | lineComment body =>
      refine ⟨h.1, h.2.2, fun _ _ => h.2.1.imp id fun hhead => ?_⟩
      obtain ⟨tail, rfl⟩ := List.head?_eq_some_iff.mp hhead
      rfl

theorem length?_text_append {gap : Gap} {rest : Text} (h : gap.MayPrecede rest) :
    length? .between (gap.text ++ rest) = (length? .between rest).map (· + gap.text.length) := by
  rcases h with ⟨hvalid, hclosed⟩
  induction gap with
  | nil => simp [text]
  | cons piece gap ih =>
      obtain ⟨hpiece, hgap, hbehind⟩ := hvalid.of_cons
      have hline : ∀ body, piece = .lineComment body →
          text gap ++ rest = [] ∨ (text gap ++ rest).head? = some '\n' := by
        rintro body rfl
        rcases hbehind body rfl with rfl | hhead
        · rcases hclosed with hclosed | rfl
          · exact absurd rfl (hclosed body)
          · exact .inl rfl
        · right
          rw [List.head?_append, hhead]
          rfl
      have htail := ih hgap (hclosed.imp IsClosed.tail id)
      rw [text_cons, List.append_assoc, Piece.length?_text_append hpiece hline, htail]
      simp [Function.comp_def, Nat.add_comm, Nat.add_assoc]

theorem length?_text_of_isAbsent {gap : Gap} {rest : Text} (h : gap.MayPrecede rest)
    (hrest : IsAbsent rest) :
    length? .between (gap.text ++ rest) = some gap.text.length := by
  rw [length?_text_append h, hrest]
  simp

theorem IsClosed.cons_of {piece : Piece} {gap : Gap} (hpiece : ∀ body, piece ≠ .lineComment body)
    (h : IsClosed gap) : IsClosed (piece :: gap) := by
  intro body hbody
  cases gap with
  | nil => exact hpiece body (by simpa using hbody)
  | cons next gap => exact h body (by simpa using hbody)

theorem IsInner.append {first second : Gap} (hfirst : first.IsInner) (hsecond : second.IsInner) :
    IsInner (first ++ second) := by
  induction first with
  | nil => exact hsecond
  | cons piece first ih =>
      rcases hfirst with ⟨hvalid, hclosed⟩
      have hclosedTail : IsClosed first := hclosed.tail
      cases piece with
      | blank c =>
          obtain ⟨hall, hlast⟩ := ih ⟨hvalid.2, hclosedTail⟩
          exact ⟨⟨hvalid.1, hall⟩, hlast.cons_of (by simp)⟩
      | blockComment body =>
          obtain ⟨hall, hlast⟩ := ih ⟨hvalid.2, hclosedTail⟩
          exact ⟨⟨hvalid.1, hall⟩, hlast.cons_of (by simp)⟩
      | lineComment body =>
          obtain ⟨hall, hlast⟩ := ih ⟨hvalid.2.2, hclosedTail⟩
          rcases hvalid.2.1 with rfl | hhead
          · exact absurd rfl (hclosed body)
          · obtain ⟨rest, rfl⟩ := List.head?_eq_some_iff.mp hhead
            refine ⟨⟨hvalid.1, .inr rfl, hall⟩, ?_⟩
            intro last hmem
            exact hlast last (by simpa using hmem)

/-- A gap that a text begins with, with what follows: the end, or something that may follow. -/
structure Starts (gap : Gap) (text rest : Text) : Prop where
  mayPrecede : gap.MayPrecede rest
  absent : IsAbsent rest
  text_eq : text = gap.text ++ rest

theorem Starts.cons {gap : Gap} {text rest : Text} (h : gap.Starts text rest) (piece : Piece)
    (hpiece : ∀ body, piece ≠ .lineComment body) (hvalid : piece.IsValid) :
    Starts (piece :: gap) (piece.text ++ text) rest where
  mayPrecede := by
    refine ⟨?_, h.mayPrecede.2.imp (IsClosed.cons_of hpiece) id⟩
    cases piece with
    | lineComment body => exact absurd rfl (hpiece body)
    | blank c => exact ⟨hvalid, h.mayPrecede.1⟩
    | blockComment body => exact ⟨hvalid, h.mayPrecede.1⟩
  absent := h.absent
  text_eq := by simp [Gap.text, h.text_eq]

theorem Starts.lineComment {body text rest : Text} {gap : Gap} (hbody : '\n' ∉ body)
    (h : gap.Starts text rest) :
    Starts (.lineComment body :: .blank '\n' :: gap)
      (lineMarker ++ (body ++ '\n' :: text)) rest where
  mayPrecede := by
    refine ⟨⟨hbody, .inr rfl, Text.isBlank_newline, h.mayPrecede.1⟩, ?_⟩
    refine h.mayPrecede.2.imp (fun hclosed => ?_) id
    have hblank : IsClosed (.blank '\n' :: gap) := IsClosed.cons_of (by simp) hclosed
    intro last hlast
    exact hblank last (by simpa using hlast)
  absent := h.absent
  text_eq := by simp [Gap.text, Piece.text, h.text_eq]

theorem Starts.openLineComment {body : Text} (hbody : '\n' ∉ body) :
    Starts [.lineComment body] (lineMarker ++ body) [] where
  mayPrecede := ⟨⟨hbody, .inl rfl, trivial⟩, .inr rfl⟩
  absent := isAbsent_nil
  text_eq := by simp [Gap.text, Piece.text]

theorem Starts.length?_eq {text rest : Text} {gap : Gap} (h : gap.Starts text rest) :
    length? .between text = some gap.text.length := by
  rw [h.text_eq]
  exact length?_text_of_isAbsent h.mayPrecede h.absent

theorem isInner_blank {c : Char} (h : Text.isBlank c = true) : IsInner [.blank c] :=
  ⟨⟨h, trivial⟩, by simp [IsClosed]⟩

theorem isInner_lineComment {body : Text} (h : '\n' ∉ body) :
    IsInner [.lineComment body, .blank '\n'] :=
  ⟨⟨h, .inr rfl, Text.isBlank_newline, trivial⟩, by simp [IsClosed]⟩

theorem isInner_blockComment {body : Text} (h : ')' ∉ body) : IsInner [.blockComment body] :=
  ⟨⟨h, trivial⟩, by simp [IsClosed]⟩

/-- Behind a gap a block comment is open up to the end of a text. -/
def IsUnclosed (text : Text) : Prop :=
  ∃ (gap : Gap) (body : Text), gap.IsInner ∧ ')' ∉ body ∧ text = gap.text ++ (blockMarker ++ body)

theorem IsUnclosed.behind {gap : Gap} {rest : Text} (hgap : gap.IsInner) (h : IsUnclosed rest) :
    IsUnclosed (gap.text ++ rest) := by
  obtain ⟨further, body, hfurther, hbody, rfl⟩ := h
  refine ⟨gap ++ further, body, hgap.append hfurther, hbody, ?_⟩
  rw [text_append, List.append_assoc]

theorem IsUnclosed.length?_eq_none {text : Text} (h : IsUnclosed text) :
    length? .between text = none := by
  obtain ⟨gap, body, hgap, hbody, rfl⟩ := h
  rw [length?_text_append (hgap.mayPrecede _), length?_blockMarker,
    length?_blockComment_eq_none hbody]
  rfl

theorem starts_or_isUnclosed (text : Text) :
    (∃ (gap : Gap) (rest : Text), gap.Starts text rest) ∨ IsUnclosed text := by
  induction text using Insignificant.induction with
  | absent text habsent => exact .inl ⟨[], text, isInner_nil.mayPrecede text, habsent, rfl⟩
  | blank c rest hc ih =>
      rcases ih with ⟨gap, behind, hgap⟩ | hunclosed
      · exact .inl ⟨.blank c :: gap, behind, hgap.cons (.blank c) (by simp) hc⟩
      · exact .inr (hunclosed.behind (isInner_blank hc))
  | lineComment body rest hbody ih =>
      rcases ih with ⟨gap, behind, hgap⟩ | hunclosed
      · exact .inl ⟨_, behind, hgap.lineComment hbody⟩
      · right
        simpa [text, Piece.text] using hunclosed.behind (isInner_lineComment hbody)
  | lastLine body hbody => exact .inl ⟨_, [], Starts.openLineComment hbody⟩
  | blockComment body rest hbody ih =>
      rcases ih with ⟨gap, behind, hgap⟩ | hunclosed
      · refine .inl ⟨.blockComment body :: gap, behind, ?_⟩
        simpa [Piece.text] using hgap.cons (.blockComment body) (by simp) hbody
      · right
        simpa [text, Piece.text] using hunclosed.behind (isInner_blockComment hbody)
  | unclosed body hbody => exact .inr ⟨[], body, isInner_nil, hbody, rfl⟩

theorem isUnclosed_iff {text : Text} : IsUnclosed text ↔ length? .between text = none := by
  refine ⟨IsUnclosed.length?_eq_none, fun hnone => ?_⟩
  rcases starts_or_isUnclosed text with ⟨gap, rest, hgap⟩ | hunclosed
  · rw [hgap.length?_eq] at hnone
    cases hnone
  · exact hunclosed

theorem exists_starts_of_length? {text : Text} {count : Nat}
    (h : length? .between text = some count) :
    ∃ (gap : Gap) (rest : Text), gap.Starts text rest ∧ gap.text.length = count := by
  rcases starts_or_isUnclosed text with ⟨gap, rest, hgap⟩ | hunclosed
  · refine ⟨gap, rest, hgap, ?_⟩
    rw [hgap.length?_eq] at h
    exact Option.some.inj h
  · rw [hunclosed.length?_eq_none] at h
    cases h

end Gap

end ConfTree
