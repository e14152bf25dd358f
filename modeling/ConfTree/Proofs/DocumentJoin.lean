import ConfTree.Proofs.CursorPlace
import ConfTree.Proofs.LastValue

/-!
One document behind another one.  Where a text is read as a document, any text on the next line is
read behind it as it would be read alone from the constants of the first one, except that errors
lie further down and that the last value of the first one is kept if the second one has none.  Only
a second text that begins with the marker of a declaration may bind a name at the end of the first.
-/

namespace ConfTree

/-! Further down. -/

def Position.down (position : Position) (lines : Nat) : Position :=
  ⟨position.line + lines, position.column⟩

def ReadError.down (error : ReadError) (lines : Nat) : ReadError :=
  match error with
  | .located cause position => .located cause (position.down lines)
  | .nestingTooDeep => .nestingTooDeep
  | .pastEnd => .pastEnd

theorem Position.step_down (position : Position) (lines : Nat) (c : Char) :
    (position.down lines).step c = (position.step c).down lines := by
  unfold step
  split
  · simp [down, Nat.add_right_comm]
  · rfl

theorem Position.past_down (position : Position) (lines : Nat) (text : Text) :
    (position.down lines).past text = (position.past text).down lines := by
  induction text generalizing position with
  | nil => rfl
  | cons c text ih =>
      change ((position.down lines).step c).past text = ((position.step c).past text).down lines
      rw [step_down, ih]

theorem Position.past_line (text : Text) :
    start.past (text ++ ['\n']) = start.down (text.count '\n' + 1) := by
  rw [past_concat, past_start, step, if_pos rfl, down, start, Nat.add_assoc]

theorem Failure.errorAt_down (failure : Failure) (position : Position) (lines : Nat) :
    failure.errorAt (position.down lines) = (failure.errorAt position).down lines := by
  cases failure <;> rfl

/-! Gaps in front of a further line. -/

namespace Gap

theorem IsValid.append_newline {gap : Gap} (h : gap.IsValid) :
    IsValid (gap ++ [.blank '\n']) := by
  induction gap with
  | nil => exact ⟨Text.isBlank_newline, trivial⟩
  | cons piece gap ih =>
      cases piece with
      | blank c => exact ⟨h.1, ih h.2⟩
      | blockComment body => exact ⟨h.1, ih h.2⟩
      | lineComment body =>
          refine ⟨h.1, .inr ?_, ih h.2.2⟩
          rcases h.2.1 with rfl | hhead
          · rfl
          · obtain ⟨tail, rfl⟩ := List.head?_eq_some_iff.mp hhead
            rfl

theorem IsValid.isInner_newline {gap : Gap} (h : gap.IsValid) :
    IsInner (gap ++ [.blank '\n']) :=
  ⟨h.append_newline, by simp [IsClosed]⟩

end Gap

theorem Text.EndsRun.append_newline {inClass : Char → Bool} {rest : Text}
    (h : EndsRun inClass rest) (hnewline : inClass '\n' = false) (more : Text) :
    EndsRun inClass (rest ++ '\n' :: more) := by
  cases rest with
  | nil => exact endsRun_cons hnewline
  | cons c rest => exact endsRun_cons (h c rfl)

theorem Term.StopsBefore.append_newline {term : Term} {rest : Text} (h : term.StopsBefore rest)
    (more : Text) : term.StopsBefore (rest ++ '\n' :: more) := by
  cases term with
  | number literal =>
      refine ⟨h.1.append_newline (by decide) more, fun hfraction => ?_⟩
      cases rest with
      | nil => simp
      | cons c rest => exact h.2 hfraction
  | reference name => exact Text.EndsRun.append_newline h (by decide) more
  | _ => trivial

namespace Reading

/-- The marker of a declaration is the first in a text that is significant. -/
def BeginsBinding (text : Text) : Prop :=
  ∃ count ∈ Insignificant.length? .between text, bindingMarker <+: text.drop count

instance (text : Text) : Decidable (BeginsBinding text) :=
  inferInstanceAs (Decidable (∃ count ∈ Insignificant.length? .between text, _))

theorem bindsNothing_of_not_beginsBinding {text : Text} {count : Nat} (h : ¬BeginsBinding text)
    (hcount : Insignificant.length? .between text = some count) : BindsNothing text :=
  ⟨count, hcount, fun hmarker => h ⟨count, hcount, hmarker⟩⟩

theorem beginsBinding_text_append_iff {gap : Gap} (hgap : gap.IsInner) (rest : Text) :
    BeginsBinding (gap.text ++ rest) ↔ BeginsBinding rest := by
  have hlength := Gap.length?_text_append (hgap.mayPrecede rest)
  unfold BeginsBinding
  rw [hlength]
  constructor
  · rintro ⟨_, hcount, hmarker⟩
    obtain ⟨count, hrest, rfl⟩ := Option.map_eq_some_iff.mp hcount
    refine ⟨count, hrest, ?_⟩
    rwa [Nat.add_comm, ← List.drop_drop, List.drop_left] at hmarker
  · rintro ⟨count, hrest, hmarker⟩
    refine ⟨count + gap.text.length, Option.map_eq_some_iff.mpr ⟨count, hrest, rfl⟩, ?_⟩
    rwa [Nat.add_comm, ← List.drop_drop, List.drop_left]

theorem BindsNothing.not_beginsBinding {text : Text} (h : BindsNothing text) :
    ¬BeginsBinding text := by
  obtain ⟨count, hcount, hmarker⟩ := h
  rintro ⟨other, hother, hfound⟩
  obtain rfl : count = other := Option.some.inj (hcount.symm.trans hother)
  exact hmarker hfound

theorem skip_behind_gap {gap : Gap} {rest : Text} {cursor : Cursor} (hgap : gap.IsInner)
    (hrest : cursor.rest = gap.text ++ rest) :
    skip cursor = skip (cursor.advance gap.text.length) :=
  skip_eq_of_append hrest (Gap.length?_text_append (hgap.mayPrecede rest))

end Reading

namespace SessionReading

open Reading Document

variable {α β : Type} {settings : Settings} {session : Session} {last : Value}

theorem bind_congr_of_ok {first : SessionReading α} {next other : α → SessionReading β}
    (h : ∀ value between, first session = .ok value between →
      next value between = other value between) :
    (first >>= next) session = (first >>= other) session := by
  cases hfirst : first session with
  | ok value between => rw [bind_of_ok hfirst, bind_of_ok hfirst, h value between hfirst]
  | error error between => rw [bind_of_error hfirst, bind_of_error hfirst]

theorem items_bound_eq {bound other : Nat} (hbound : session.cursor.rest.length < bound)
    (hother : session.cursor.rest.length < other) :
    items settings bound last session = items settings other last session := by
  induction bound generalizing other last session with
  | zero => omega
  | succ bound ih =>
      obtain ⟨other, rfl⟩ : ∃ less, other = less + 1 := ⟨other - 1, by omega⟩
      rw [items_succ, items_succ]
      refine bind_congr_of_ok fun _ skipped hskip => bind_congr_of_ok fun ended here hended => ?_
      obtain ⟨_, hmoves, -⟩ := ensures_skip _ _ _ (exists_of_ofReading_eq_ok hskip).1
      have hcursor := (eq_of_atEnd (exists_of_ofReading_eq_ok hended).1).2
      have hlength := congrArg List.length hmoves.1
      rw [List.length_append, hcursor] at hlength
      cases ended with
      | true => rfl
      | false =>
          change (item settings last >>= items settings bound) here =
            (item settings last >>= items settings other) here
          refine bind_congr_of_ok fun value after hitem => ?_
          have hless := length_rest_lt_of_item hitem
          exact ih (by omega) (by omega)

theorem items_behind_inner {gap : Gap} {rest : Text} (bound : Nat) (hgap : gap.IsInner)
    (hrest : session.cursor.rest = gap.text ++ rest) :
    items settings (bound + 1) last session =
      items settings (bound + 1) last (behind session gap.text) := by
  have hskip : ofReading (fun _ => skip) session =
      ofReading (fun _ => skip) (behind session gap.text) := by
    simp only [ofReading, behind, skip_behind_gap hgap hrest]
  rw [items_succ]
  change EStateM.bind _ _ session = EStateM.bind _ _ _
  simp only [EStateM.bind, hskip]

/-- Where a comment is open up to the end of the text, it does not matter whether it is met behind a
reference or by the next item. -/
theorem item_reference_of_unclosed {name rest : Text} (bound : Nat) (value : Value)
    (hname : Text.IsName name) (hends : Text.EndsRun Text.isNameLetter rest)
    (hopen : Insignificant.length? .between rest = none)
    (hrest : session.cursor.rest = name ++ rest) :
    (item settings last >>= items settings (bound + 1)) session =
      items settings (bound + 1) value
        ⟨session.cursor.advance name.length, session.constants⟩ := by
  rw [← Cursor.rest_advance_append hrest] at hopen
  obtain ⟨error, left, hskip⟩ : ∃ error left,
      skip (session.cursor.advance name.length) = .error error left :=
    ⟨_, _, skip_of_unclosed hopen⟩
  have hdeclaration : declaration? settings session.constants session.cursor =
      .error error left := by
    rw [declaration?_eq, bind_of_ok (takes_name hname hends _ hrest), afterName, if_neg hname.1,
      bind_of_error hskip]
  have hitem : item settings last session = .error error ⟨left, session.constants⟩ :=
    bind_of_error (declaration_of_error hdeclaration) _
  have hnext : ofReading (fun _ => skip)
      ⟨session.cursor.advance name.length, session.constants⟩ =
        .error error ⟨left, session.constants⟩ := by
    simp only [ofReading, hskip]
  rw [bind_of_error hitem, items_succ, bind_of_error hnext]

theorem answersItem_of_not_beginsBinding {written : Item} {rest : Text}
    (hitem : written.IsValid settings) (hstops : written.term.StopsBefore rest)
    (hbinds : ¬BeginsBinding rest) (hrest : session.cursor.rest = written.written ++ rest)
    (hclosed : Insignificant.length? .between rest = none →
      ∀ name, written ≠ .value (.reference name)) :
    AnswersItem settings written last session := by
  cases hcount : Insignificant.length? .between rest with
  | some count =>
      exact answersItem hitem hstops (bindsNothing_of_not_beginsBinding hbinds hcount) hrest
  | none =>
      cases written with
      | declaration name beforeMarker beforeValue term =>
          exact answersItem_declaration hitem hstops hrest
      | value term =>
          have hreference : ∀ name, term ≠ .reference name := by
            rintro name rfl
            exact hclosed hcount name rfl
          have hnone : declaration? settings session.constants session.cursor =
              .ok none session.cursor := by
            simpa using takes_declaration?_none_of_not_reference hitem hreference rest
              session.cursor hrest
          exact answersItem_value hitem hstops hnone hrest

theorem item_bind_items {written : Item} {rest : Text} {next : Meaning} (bound : Nat)
    (hitem : written.IsValid settings) (hstops : written.term.StopsBefore rest)
    (hlevels : written.term.levels ≤ nestingLimit + 1) (hbinds : ¬BeginsBinding rest)
    (hadd : Meaning.add ⟨last, session.constants⟩ written = .ok next)
    (hrest : session.cursor.rest = written.written ++ rest) :
    (item settings last >>= items settings (bound + 1)) session =
      items settings (bound + 1) next.last
        ⟨session.cursor.advance written.written.length, next.constants⟩ := by
  by_cases hopen : Insignificant.length? .between rest = none ∧
      ∃ name, written = .value (.reference name)
  · obtain ⟨hopen, name, rfl⟩ := hopen
    obtain ⟨value, -, hnext⟩ := Term.exists_value_of_bind_eq_ok hadd
    obtain rfl := Except.ok.inj hnext
    exact item_reference_of_unclosed bound value hitem hstops hopen hrest
  · have hanswer : AnswersItem settings written last session :=
      answersItem_of_not_beginsBinding hitem hstops hbinds hrest
        fun hnone name hname => hopen ⟨hnone, name, hname⟩
    rcases hanswer with hstep | ⟨hdeep, -⟩
    · simp only [hadd] at hstep
      exact bind_of_ok hstep _
    · omega

theorem written_line (ending : Gap) (more : Text) :
    written ⟨[], ending⟩ ++ '\n' :: more = Gap.text (ending ++ [.blank '\n']) ++ more := by
  simp [written, Gap.text, Piece.text]

theorem not_beginsBinding_line {found : List (Gap × Item)} {ending : Gap} {more : Text}
    (hvalid : IsValid settings ⟨found, ending⟩) (hmore : ¬BeginsBinding more) :
    ¬BeginsBinding (written ⟨found, ending⟩ ++ '\n' :: more) := by
  cases found with
  | nil =>
      rwa [written_line, beginsBinding_text_append_iff hvalid.2.isInner_newline]
  | cons first found =>
      obtain ⟨hgap, hfirst, -⟩ := isValid_cons_iff.mp hvalid
      rw [written_cons, List.append_assoc, List.append_assoc]
      exact (bindsNothing_cons hgap hfirst _).not_beginsBinding

theorem items_line {found : List (Gap × Item)} {ending : Gap} {more : Text} {meaning : Meaning}
    (bound : Nat) (hvalid : IsValid settings ⟨found, ending⟩) (hapart : AreApart ending found)
    (hlevels : ∀ item ∈ found, item.2.term.levels ≤ nestingLimit + 1)
    (hmore : ¬BeginsBinding more)
    (hmeaning : meaningFrom ⟨last, session.constants⟩ found = .ok meaning)
    (hrest : session.cursor.rest = written ⟨found, ending⟩ ++ '\n' :: more) :
    items settings (found.length + (bound + 1)) last session =
      items settings (bound + 1) meaning.last
        ⟨session.cursor.advance (written ⟨found, ending⟩ ++ ['\n']).length, meaning.constants⟩ := by
  -- On the items: every pass of the loop takes one of them.
  induction found generalizing last session with
  | nil =>
      obtain rfl := Except.ok.inj hmeaning
      rw [written_line] at hrest
      rw [List.length_nil, Nat.zero_add, items_behind_inner bound hvalid.2.isInner_newline hrest,
        written_line, List.append_nil]
      rfl
  | cons first found ih =>
      rcases first with ⟨gap, first⟩
      obtain ⟨hgap, hfirst, hvalid⟩ := isValid_cons_iff.mp hvalid
      obtain ⟨hfirstLevels, hlevels⟩ := List.forall_mem_cons.mp hlevels
      rcases hapart with ⟨hstops, hapart⟩
      rw [written_cons, List.append_assoc, List.append_assoc] at hrest
      have hbehind : (behind session gap.text).cursor.rest =
          first.written ++ (written ⟨found, ending⟩ ++ '\n' :: more) :=
        Cursor.rest_advance_append hrest
      cases hadd : Meaning.add ⟨last, session.constants⟩ first with
      | error cause =>
          rw [meaningFrom_cons_of_error hadd] at hmeaning
          simp at hmeaning
      | ok next =>
          rw [meaningFrom_cons_of_ok hadd] at hmeaning
          have hadd : Meaning.add ⟨last, (behind session gap.text).constants⟩ first = .ok next :=
            hadd
          have hnext : ((behind session gap.text).cursor.advance first.written.length).rest =
              written ⟨found, ending⟩ ++ '\n' :: more := Cursor.rest_advance_append hbehind
          have hlength : ((gap, first) :: found).length + (bound + 1) =
              (found.length + bound + 1) + 1 := by
            rw [List.length_cons]
            omega
          rw [hlength, items_in_front _ hgap hfirst hrest,
            item_bind_items (found.length + bound) hfirst (hstops.append_newline more) hfirstLevels
              (not_beginsBinding_line hvalid hmore) hadd hbehind, written_cons, List.append_assoc,
            List.append_assoc, ← advance_behind]
          exact ih hvalid hapart hlevels hmeaning hnext

/-- What reading a text from a cursor comes to that stands a number of lines further down than the
start of the text. -/
def movedDown (cursor : Cursor) (lines : Nat) :
    EStateM.Result ReadError Session α → EStateM.Result ReadError Session α
  | .ok value left => .ok value ⟨cursor.advance left.cursor.offset, left.constants⟩
  | .error error left =>
      .error (error.down lines) ⟨cursor.advance left.cursor.offset, left.constants⟩

theorem IsUniform.eq_movedDown {reading : SessionReading α} (h : IsUniform reading) {text : Text}
    {cursor : Cursor} {lines : Nat} (hrest : cursor.rest = text)
    (hposition : cursor.position = Position.start.down lines) (constants : Constants) :
    reading ⟨cursor, constants⟩ = movedDown cursor lines (reading (.start text constants)) := by
  obtain ⟨count, hcount, after, verdict, hsettles⟩ := h text constants
  have hadvance : cursor.advance ((Cursor.start text).advance count).offset =
      cursor.advance count := by
    simp [Cursor.advance, Cursor.start, Nat.min_eq_left hcount]
  have hdown : (cursor.advance count).position =
      ((Cursor.start text).advance count).position.down lines := by
    simp only [Cursor.advance, Cursor.start, hrest, hposition, Position.past_down]
  rw [hsettles cursor hrest, Session.start, hsettles (.start text) rfl, hdown]
  cases verdict with
  | ok value => simp only [reached, movedDown, hadvance]
  | error failure => simp only [reached, movedDown, hadvance, Failure.errorAt_down]

end SessionReading

namespace Document

open SessionReading

variable {settings : Settings}

theorem items_eq_movedDown {text : Text} {constants : Constants} {cursor : Cursor} {lines : Nat}
    (value : Value) (hconstants : constants.AreProper) (hrest : cursor.rest = text)
    (hposition : cursor.position = Position.start.down lines) :
    SessionReading.items settings (text.length + 1) value ⟨cursor, constants⟩ =
      withLast value (movedDown cursor lines (readDocument settings constants text)) := by
  have hsession : Constants.AreProper (Session.mk cursor constants).constants := hconstants
  rw [items_eq_withLast _ _ hsession,
    (isUniform_items settings (text.length + 1) .null).eq_movedDown hrest hposition]
  rfl

theorem areProper_of_readDocument {text : Text} {value : Value} {after : Session}
    (h : readDocument settings [] text = .ok value after) : after.constants.AreProper := by
  obtain ⟨_, _, hvalid, -, -, -, hmeaning⟩ := exists_document h (Nat.lt_succ_self _)
  have hempty : Constants.AreProper [] := by simp [Constants.AreProper]
  exact areProper_meaningFrom hempty hvalid hmeaning

theorem readDocument_append_line {first second : Text} {value : Value} {after : Session}
    (hfirst : readDocument settings [] first = .ok value after)
    (hsecond : ¬Reading.BeginsBinding second) :
    readDocument settings [] (first ++ '\n' :: second) =
      SessionReading.items settings (second.length + 1) value
        ⟨(Cursor.start (first ++ '\n' :: second)).advance (first ++ ['\n']).length,
          after.constants⟩ := by
  obtain ⟨found, ending, hvalid, hapart, hmoves, hend, hmeaning, hlevels⟩ :=
    exists_document_within hfirst (Nat.lt_succ_self _)
  obtain rfl : first = written ⟨found, ending⟩ := by
    have hrest : first = written ⟨found, ending⟩ ++ after.cursor.rest := hmoves.1
    rwa [hend, List.append_nil] at hrest
  have hlength : found.length ≤ (written ⟨found, ending⟩).length := length_le_written hvalid
  obtain ⟨bound, hbound, hless⟩ : ∃ bound,
      (written ⟨found, ending⟩ ++ '\n' :: second).length + 1 = found.length + (bound + 1) ∧
        second.length < bound + 1 := by
    rw [List.length_append, List.length_cons]
    exact ⟨(written ⟨found, ending⟩).length + (second.length + 1) - found.length, by omega⟩
  have hmeaning : meaningFrom ⟨.null, (Session.start (written ⟨found, ending⟩ ++
      '\n' :: second) []).constants⟩ found = .ok ⟨value, after.constants⟩ := hmeaning
  have hrest : ((Cursor.start (written ⟨found, ending⟩ ++ '\n' :: second)).advance
      (written ⟨found, ending⟩ ++ ['\n']).length).rest = second :=
    Cursor.rest_advance_append (by simp [Cursor.start])
  have hbehind := Nat.le_of_eq (congrArg List.length hrest)
  calc readDocument settings [] (written ⟨found, ending⟩ ++ '\n' :: second)
      = SessionReading.items settings (found.length + (bound + 1)) .null
          (.start (written ⟨found, ending⟩ ++ '\n' :: second) []) := by
        rw [← hbound]
        rfl
    _ = SessionReading.items settings (bound + 1) value _ :=
        items_line bound hvalid hapart hlevels hsecond hmeaning rfl
    _ = SessionReading.items settings (second.length + 1) value _ :=
        items_bound_eq (Nat.lt_of_le_of_lt hbehind hless) (Nat.lt_succ_of_le hbehind)

/-- A text on the line behind a document is read as it would be read alone from the constants of the
document.  The last value of the document stands in where the text gives none, and what is refused
lies further down by the lines of the document. -/
theorem readDocument_line {first second : Text} {value : Value} {after : Session}
    (hfirst : readDocument settings [] first = .ok value after)
    (hsecond : ¬Reading.BeginsBinding second) :
    match readDocument settings after.constants second with
    | .ok next left =>
        readDocument settings [] (first ++ '\n' :: second) =
          .ok (next.orElse value)
            ⟨(Cursor.start (first ++ '\n' :: second)).advance
              (first.length + 1 + left.cursor.offset), left.constants⟩
    | .error error left =>
        readDocument settings [] (first ++ '\n' :: second) =
          .error (error.down (first.count '\n' + 1))
            ⟨(Cursor.start (first ++ '\n' :: second)).advance
              (first.length + 1 + left.cursor.offset), left.constants⟩ := by
  have hhere : ((Cursor.start (first ++ '\n' :: second)).advance
      (first ++ ['\n']).length).rest = second :=
    Cursor.rest_advance_append (by simp [Cursor.start])
  have hposition : ((Cursor.start (first ++ '\n' :: second)).advance
      (first ++ ['\n']).length).position = Position.start.down (first.count '\n' + 1) := by
    have hline : first ++ '\n' :: second = (first ++ ['\n']) ++ second := by simp
    rw [Cursor.advance, Cursor.start, hline, List.take_left, Position.past_line]
  have hread : readDocument settings [] (first ++ '\n' :: second) =
      withLast value (movedDown ((Cursor.start (first ++ '\n' :: second)).advance
        (first ++ ['\n']).length) (first.count '\n' + 1)
          (readDocument settings after.constants second)) := by
    rw [readDocument_append_line hfirst hsecond]
    exact items_eq_movedDown value (areProper_of_readDocument hfirst) hhere hposition
  rw [hread]
  cases readDocument settings after.constants second with
  | ok next left => simp [movedDown, withLast, Cursor.advance_advance]
  | error error left => simp [movedDown, withLast, Cursor.advance_advance]

theorem readDocument_line_unknown_name :
    ¬Reading.BeginsBinding "x y".toList ∧
      ∃ after left, readDocument {} [] "x := @\"a\" x REM".toList = .ok (.text ['a']) after ∧
        readDocument {} [] ("x := @\"a\" x REM".toList ++ '\n' :: "x y".toList) =
          .error (.located (.unknownName ['y']) ⟨2, 4⟩) left := by
  have hfirst : readDocument {} [] "x := @\"a\" x REM".toList =
      .ok (.text ['a']) ⟨⟨[], 15, ⟨1, 16⟩⟩, [(['x'], .text ['a'])]⟩ := rfl
  have hsecond : ¬Reading.BeginsBinding "x y".toList := by decide
  have hread : readDocument {} [(['x'], .text ['a'])] "x y".toList =
      .error (.located (.unknownName ['y']) ⟨1, 4⟩)
        ⟨⟨[], 3, ⟨1, 4⟩⟩, [(['x'], .text ['a'])]⟩ := rfl
  have hline := readDocument_line hfirst hsecond
  rw [hread] at hline
  exact ⟨hsecond, _, _, hfirst, hline⟩

end Document

end ConfTree
