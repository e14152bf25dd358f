import ConfTree.Proofs.GuardedReading
import ConfTree.Proofs.ReadingProgress

/-!
What is skipped, exactly.  A gap is told by its text, so there is one way only to take a text apart
into a gap and what is significant behind it.  Skipping goes on pass by pass, each of them over
blanks and a comment, and it takes that gap; where a comment is open to the end of the text there is
no such gap, and it fails at the end.
-/

namespace ConfTree

open Insignificant

namespace Insignificant

theorem isAbsent_iff {rest : Text} :
    IsAbsent rest ↔
      Text.EndsRun Text.isBlank rest ∧ ¬lineMarker <+: rest ∧ ¬blockMarker <+: rest := by
  constructor
  · intro h
    cases rest with
    | nil => exact ⟨Text.endsRun_nil _, by simp [lineMarker_eq], by simp [blockMarker_eq]⟩
    | cons c rest =>
        rw [IsAbsent, length?] at h
        split at h
        · simp at h
        rename_i hblank
        split at h
        · simp at h
        rename_i hline
        split at h
        · simp at h
        rename_i hblock
        rw [List.isPrefixOf_iff_prefix] at hline hblock
        exact ⟨Text.endsRun_cons (by simpa using hblank), hline, hblock⟩
  · rintro ⟨hblank, hline, hblock⟩
    rw [← List.isPrefixOf_iff_prefix] at hline hblock
    exact Reading.Guarded.isAbsent_of_endsRun hblank hline hblock

end Insignificant

/-! One gap only. -/

namespace Piece

theorem text_ne_nil (piece : Piece) : piece.text ≠ [] := by
  cases piece <;> simp [text, lineMarker_eq, blockMarker_eq]

/-- A piece is told by the text that begins with it, if nothing else stands behind a line comment
than the end of its line. -/
theorem eq_of_text_append_eq {piece other : Piece} {rest otherRest : Text} (hpiece : piece.IsValid)
    (hother : other.IsValid)
    (hline : ∀ body, piece = .lineComment body → rest = [] ∨ rest.head? = some '\n')
    (hotherLine : ∀ body, other = .lineComment body → otherRest = [] ∨ otherRest.head? = some '\n')
    (h : piece.text ++ rest = other.text ++ otherRest) : piece = other ∧ rest = otherRest := by
  have hnotBlank : Text.isBlank 'R' = false ∧ Text.isBlank '(' = false := by decide
  -- The first character tells what the piece is: a blank, `R` or an opening bracket.
  cases piece with
  | blank c =>
      cases other with
      | blank d =>
          obtain ⟨rfl, rfl⟩ := List.cons.inj h
          exact ⟨rfl, rfl⟩
      | lineComment body => exact absurd (List.cons.inj h).1 (Text.ne_of_class hpiece hnotBlank.1)
      | blockComment body => exact absurd (List.cons.inj h).1 (Text.ne_of_class hpiece hnotBlank.2)
  | lineComment body =>
      cases other with
      | blank d => exact absurd (List.cons.inj h).1.symm (Text.ne_of_class hother hnotBlank.1)
      | lineComment further =>
          rw [text, text, List.append_assoc, List.append_assoc] at h
          obtain ⟨rfl, rfl⟩ := Text.eq_of_run_append_eq (Text.forall_ne_of_notMem hpiece)
            (Text.forall_ne_of_notMem hother) (Text.endsRun_ne (hline body rfl))
            (Text.endsRun_ne (hotherLine further rfl)) (List.append_cancel_left h)
          exact ⟨rfl, rfl⟩
      | blockComment further => exact absurd (List.cons.inj h).1 (by decide)
  | blockComment body =>
      cases other with
      | blank d => exact absurd (List.cons.inj h).1.symm (Text.ne_of_class hother hnotBlank.2)
      | lineComment further => exact absurd (List.cons.inj h).1 (by decide)
      | blockComment further =>
          simp only [text, List.append_assoc] at h
          obtain ⟨rfl, hrest⟩ := Text.eq_of_run_append_eq (Text.forall_ne_of_notMem hpiece)
            (Text.forall_ne_of_notMem hother) (Text.endsRun_ne (.inr rfl))
            (Text.endsRun_ne (.inr rfl)) (List.append_cancel_left h)
          exact ⟨rfl, List.append_cancel_left hrest⟩

end Piece

namespace Gap

theorem eq_of_text_eq {first second : Gap} (hfirst : first.IsValid) (hsecond : second.IsValid)
    (h : first.text = second.text) : first = second := by
  induction first generalizing second with
  | nil =>
      cases second with
      | nil => rfl
      | cons piece second =>
          rw [text_cons] at h
          exact absurd (List.append_eq_nil_iff.mp h.symm).1 piece.text_ne_nil
  | cons piece first ih =>
      cases second with
      | nil =>
          rw [text_cons] at h
          exact absurd (List.append_eq_nil_iff.mp h).1 piece.text_ne_nil
      | cons other second =>
          obtain ⟨hpiece, hbehind, hline⟩ := hfirst.of_cons
          obtain ⟨hother, hotherBehind, hotherLine⟩ := hsecond.of_cons
          rw [text_cons, text_cons] at h
          obtain ⟨rfl, hrest⟩ := Piece.eq_of_text_append_eq hpiece hother
            (fun body hbody => (hline body hbody).imp (congrArg text) id)
            (fun body hbody => (hotherLine body hbody).imp (congrArg text) id) h
          rw [ih hbehind hotherBehind hrest]

theorem Starts.eq_and_eq {gap other : Gap} {text rest otherRest : Text}
    (h : gap.Starts text rest) (hother : other.Starts text otherRest) :
    other = gap ∧ otherRest = rest := by
  have hlength : other.text.length = gap.text.length :=
    Option.some.inj (hother.length?_eq.symm.trans h.length?_eq)
  obtain ⟨htext, hrest⟩ :=
    List.append_inj (hother.text_eq.symm.trans h.text_eq) hlength
  exact ⟨eq_of_text_eq hother.mayPrecede.1 h.mayPrecede.1 htext, hrest⟩

end Gap

/-! Passes. -/

namespace Reading

def passLineComment : Reading Unit := do
  let _ ← Guarded.run (· ≠ '\n')

def passBlockComment : Reading Unit := do
  Guarded.advance blockMarker.length
  let _ ← Guarded.run (· ≠ ')')
  if ← atEnd then
    fail .unterminatedComment
  else
    Guarded.advance 1

/-- One pass over what is insignificant: blanks, and a comment if one follows them.  It is the last
pass if it skips nothing. -/
def skipPass (_ : Unit) : Reading (ForInStep Unit) := do
  let blanks ← Guarded.run Text.isBlank
  let cursor ← get
  if cursor.startsWith lineMarker then
    passLineComment
    pure (.yield ())
  else if cursor.startsWith blockMarker then
    passBlockComment
    pure (.yield ())
  else if blanks = [] then
    pure (.done ())
  else
    pure (.yield ())

theorem passes_succ_pass (bound : Nat) :
    Guarded.passes (bound + 1) =
      (skipPass () >>= Loops.continueWith fun _ => Guarded.passes bound) := by
  rw [Guarded.passes, skipPass, bind_assoc]
  refine bind_congr fun blanks => ?_
  rw [bind_assoc]
  refine bind_congr fun cursor => ?_
  split
  · simp only [passLineComment, bind_assoc]
    rfl
  split
  · simp only [passBlockComment, bind_assoc]
    refine bind_congr fun _ => bind_congr fun _ => bind_congr fun ended => ?_
    cases ended with
    | true => rfl
    | false => simp [Loops.continueWith]
  split
  · rfl
  · rfl

section

variable {cursor between : Cursor}

theorem reaches_of_passLineComment (hline : lineMarker <+: cursor.rest)
    (h : passLineComment cursor = .ok () between) : cursor.Reaches 1 between := by
  rw [passLineComment, Guarded.run_eq] at h
  obtain ⟨body, there, hrun, hpure⟩ := exists_of_bind_eq_ok h
  obtain ⟨-, rfl⟩ := eq_of_pure hpure
  obtain ⟨_, hmoves, rfl, -, hends⟩ := ensures_run _ cursor there body hrun
  refine ⟨body, List.length_pos_of_ne_nil ?_, hmoves⟩
  -- The comment begins with its marker, which does not end a line.
  rintro rfl
  obtain ⟨more, hmore⟩ := hline
  rw [hmoves.1, lineMarker_eq] at hmore
  have hR := hends 'R' (by rw [← List.nil_append there.rest, ← hmore]; rfl)
  simp at hR

theorem reaches_of_passBlockComment (hblock : blockMarker <+: cursor.rest)
    (h : passBlockComment cursor = .ok () between) : cursor.Reaches 1 between := by
  rw [passBlockComment, Guarded.run_eq, Guarded.advance_eq] at h
  obtain ⟨more, hmore⟩ := hblock
  obtain ⟨_, opened, hadvance, hclose⟩ := exists_of_bind_eq_ok h
  obtain ⟨hopened, -⟩ := moves_of_advance blockMarker hadvance hmore.symm
  have huniform : IsUniform (do
      let _ ← run (· ≠ ')')
      if ← atEnd then
        fail .unterminatedComment
      else
        advance 1) :=
    (isUniform_run _).bind fun _ => isUniform_atEnd.bind fun _ =>
      .ite (isUniform_fail _) (isUniform_advance 1)
  have hgains := huniform.gains opened
  rw [hclose] at hgains
  have hmarker : cursor.Reaches 1 opened := ⟨blockMarker, by decide, hopened⟩
  exact hmarker.trans hgains

theorem reaches_of_skipPass (h : skipPass () cursor = .ok (.yield ()) between) :
    cursor.Reaches 1 between := by
  rw [skipPass, Guarded.run_eq] at h
  obtain ⟨blanks, here, hrun, h⟩ := exists_of_bind_eq_ok h
  obtain ⟨_, hmoves, rfl, -⟩ := ensures_run _ cursor here blanks hrun
  have hblanks : cursor.Reaches 0 here := ⟨blanks, Nat.zero_le _, hmoves⟩
  obtain ⟨_, _, hget, h⟩ := exists_of_bind_eq_ok h
  obtain ⟨rfl, rfl⟩ := EStateM.Result.ok.inj hget
  split at h
  · rename_i hline
    obtain ⟨_, there, hpass, hyield⟩ := exists_of_bind_eq_ok h
    obtain ⟨-, rfl⟩ := eq_of_pure hyield
    exact hblanks.trans (reaches_of_passLineComment (List.isPrefixOf_iff_prefix.mp hline) hpass)
  split at h
  · rename_i hblock
    obtain ⟨_, there, hpass, hyield⟩ := exists_of_bind_eq_ok h
    obtain ⟨-, rfl⟩ := eq_of_pure hyield
    exact hblanks.trans (reaches_of_passBlockComment (List.isPrefixOf_iff_prefix.mp hblock) hpass)
  split at h
  · cases h
  · rename_i hsome
    obtain ⟨-, rfl⟩ := eq_of_pure h
    exact ⟨blanks, List.length_pos_of_ne_nil hsome, hmoves⟩

end

theorem exists_loops_skip (cursor : Cursor) :
    ∃ count ≤ cursor.rest.length + 1, Loops skipPass count () cursor (skip cursor) := by
  rw [← Guarded.skip_eq]
  refine exists_loops_of_bounded (fun place : Cursor => place.rest.length) (fun hyield => ?_)
    (fun bound _ => Guarded.passes bound)
    (fun bound _ place => congrFun (passes_succ_pass bound) place) () (Nat.lt_succ_self _)
  exact (reaches_of_skipPass hyield).length_rest_le

theorem exists_gap_of_skip {cursor after : Cursor} (h : skip cursor = .ok () after) :
    ∃ gap : Gap, gap.Starts cursor.rest after.rest ∧ cursor.Moves gap.text after ∧
      skip after = .ok () after := by
  obtain ⟨_, hmoves, gap, rfl, hgap, habsent⟩ := ensures_skip cursor after () h
  refine ⟨gap, ⟨hgap, habsent, hmoves.1⟩, hmoves, ?_⟩
  rw [skip_eq_of_some habsent]
  rfl

theorem exists_error_of_skip_iff {cursor : Cursor} :
    (∃ error left, skip cursor = .error error left) ↔ Gap.IsUnclosed cursor.rest := by
  constructor
  · rintro ⟨error, left, h⟩
    rcases Gap.starts_or_isUnclosed cursor.rest with ⟨gap, rest, hstarts⟩ | hunclosed
    · rw [takes_skip hstarts.mayPrecede hstarts.absent cursor hstarts.text_eq] at h
      cases h
    · exact hunclosed
  · intro hunclosed
    exact ⟨_, _, skip_of_unclosed (Gap.isUnclosed_iff.mp hunclosed)⟩

/-- What is skipped is a gap, and nothing that could be skipped is left behind it: no blank, and
neither kind of comment.  There is no other way to take the text apart like that, and skipping again
moves nothing.  Skipping fails exactly if behind some gap a block comment is not closed, and then it
has got to the end of the text.  Its passes come to an end in any case. -/
theorem skip_takes_the_gap (cursor : Cursor) :
    (∀ after, skip cursor = .ok () after →
      ∃ gap : Gap, gap.MayPrecede after.rest ∧ cursor.Moves gap.text after ∧
        (Text.EndsRun Text.isBlank after.rest ∧
          ¬lineMarker <+: after.rest ∧ ¬blockMarker <+: after.rest) ∧
        (∀ (other : Gap) (rest : Text), cursor.rest = other.text ++ rest → other.MayPrecede rest →
          Text.EndsRun Text.isBlank rest ∧ ¬lineMarker <+: rest ∧ ¬blockMarker <+: rest →
          other = gap ∧ rest = after.rest) ∧
        (∀ other : Gap, other.IsValid → other.text = gap.text → other = gap) ∧
        skip after = .ok () after) ∧
    ((∃ error left, skip cursor = .error error left) ↔
      ∃ (gap : Gap) (body : Text), gap.IsInner ∧ ')' ∉ body ∧
        cursor.rest = gap.text ++ (blockMarker ++ body)) ∧
    (∀ error left, skip cursor = .error error left →
      cursor.Moves cursor.rest left ∧ left.rest = [] ∧
        error = .located .unterminatedComment left.position) ∧
    ∃ count ≤ cursor.rest.length + 1, Loops skipPass count () cursor (skip cursor) := by
  refine ⟨fun after h => ?_, exists_error_of_skip_iff, fun error left h => ?_,
    exists_loops_skip cursor⟩
  · obtain ⟨gap, hstarts, hmoves, hagain⟩ := exists_gap_of_skip h
    refine ⟨gap, hstarts.mayPrecede, hmoves, isAbsent_iff.mp hstarts.absent, ?_, ?_, hagain⟩
    · intro other rest hrest hother hover
      exact hstarts.eq_and_eq ⟨hother, isAbsent_iff.mpr hover, hrest⟩
    · intro other hother htext
      exact Gap.eq_of_text_eq hother hstarts.mayPrecede.1 htext
  · have hunclosed := Gap.isUnclosed_iff.mp (exists_error_of_skip_iff.mp ⟨error, left, h⟩)
    rw [skip_of_unclosed hunclosed] at h
    obtain ⟨rfl, rfl⟩ := EStateM.Result.error.inj h
    have hall : cursor.rest = cursor.rest ++ [] := (List.append_nil _).symm
    exact ⟨Cursor.moves_advance _ hall, Cursor.rest_advance_append hall, rfl⟩

theorem skip_takes_the_gap_comments :
    (∃ (gap : Gap) (after : Cursor),
      skip (.start "REM (comment\n \t(commentREM)x".toList) = .ok () after ∧
      gap.text = "REM (comment\n \t(commentREM)".toList ∧ after.rest = "x".toList ∧
      skip after = .ok () after) ∧
    ∃ left : Cursor, skip (.start "REM\n(comment (x".toList) =
        .error (.located .unterminatedComment ⟨2, 12⟩) left ∧
      left.rest = [] ∧ left.position = ⟨2, 12⟩ := by
  have hskip : skip (.start "REM (comment\n \t(commentREM)x".toList) =
      .ok () ⟨"x".toList, 27, ⟨2, 15⟩⟩ := rfl
  have hrefused : skip (.start "REM\n(comment (x".toList) =
      .error (.located .unterminatedComment ⟨2, 12⟩) ⟨[], 15, ⟨2, 12⟩⟩ := rfl
  constructor
  · obtain ⟨gap, -, hmoves, -, -, -, hagain⟩ := (skip_takes_the_gap _).1 _ hskip
    have htext : gap.text ++ "x".toList = "REM (comment\n \t(commentREM)".toList ++ "x".toList :=
      hmoves.1.symm
    exact ⟨gap, _, hskip, List.append_cancel_right htext, rfl, hagain⟩
  · obtain ⟨-, hend, -⟩ := (skip_takes_the_gap _).2.2.1 _ _ hrefused
    exact ⟨_, hrefused, hend, rfl⟩

end Reading

end ConfTree
