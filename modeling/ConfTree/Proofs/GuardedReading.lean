import ConfTree.Proofs.GuardedEvaluation
import ConfTree.Proofs.ProbedReading

/-!
Reading character by character.  Every look at the text asks for the current character, which fails
behind the last one.  The loops here test for the end of the text before each look, and they read
just what is read at once elsewhere, so none of their looks fails.
-/

namespace ConfTree.Reading.Guarded

/-! The loops. -/

def next? : Reading (Option Char) := do
  if ← atEnd then
    pure none
  else
    some <$> current

def step : Reading Unit := do
  if ← atEnd then
    pure ()
  else
    let c ← current
    modify fun cursor => ⟨cursor.rest.tail, cursor.offset + 1, cursor.position.step c⟩

def advance : Nat → Reading Unit
  | 0 => pure ()
  | count + 1 => do
      step
      advance count

def runWithin (inClass : Char → Bool) : Nat → Reading Text
  | 0 => pure []
  | bound + 1 => do
      if ← atEnd then
        pure []
      else
        let c ← current
        if inClass c then
          step
          (c :: ·) <$> runWithin inClass bound
        else
          pure []

def run (inClass : Char → Bool) : Reading Text := do
  let cursor ← get
  runWithin inClass cursor.rest.length

def passes : Nat → Reading Unit
  | 0 => pure ()
  | bound + 1 => do
      let blanks ← run Text.isBlank
      let cursor ← get
      if cursor.startsWith Insignificant.lineMarker then
        let _ ← run (· ≠ '\n')
        passes bound
      else if cursor.startsWith Insignificant.blockMarker then
        advance Insignificant.blockMarker.length
        let _ ← run (· ≠ ')')
        if ← atEnd then
          fail .unterminatedComment
        else
          advance 1
          passes bound
      else if blanks = [] then
        pure ()
      else
        passes bound

def skip : Reading Unit := do
  let cursor ← get
  passes (cursor.rest.length + 1)

/-- Converts what is read since a cursor.  Where it converts to nothing, that is refused. -/
def convert (start : Cursor) : Reading Value := do
  let cursor ← get
  let literal := start.rest.take (cursor.offset - start.offset)
  match NumberLiteral.convert literal with
  | .ok x => pure (.number x)
  | .error _ => fail (.noDigits literal)

/-- Reads a number; the sign or first digit must be there. -/
def number (fractionRequired : Bool) : Reading Value := do
  let start ← get
  let sign := Sign.leading [← current]
  advance sign.text.length
  let whole ← run Text.isDigit
  if (← next?) = some '.' then
    advance 1
    let fraction ← run Text.isDigit
    if whole = [] ∨ fraction = [] then
      fail .invalidNumber
    else
      convert start
  else if fractionRequired then
    fail .fractionRequired
  else
    convert start

/-! Looks at the text. -/

theorem next?_eq : next? = Reading.next? := by
  funext cursor
  rcases cursor with ⟨rest, offset, position⟩
  cases rest with
  | nil => rfl
  | cons c rest => rfl

theorem step_eq : step = Reading.advance 1 := by
  funext cursor
  rcases cursor with ⟨rest, offset, position⟩
  cases rest with
  | nil => rfl
  | cons c rest => rfl

theorem advance_eq : advance = Reading.advance := by
  funext count
  induction count with
  | zero =>
      funext cursor
      rw [Reading.advance, Cursor.advance_zero]
      rfl
  | succ count ih =>
      funext cursor
      rw [advance, ih, step_eq]
      change EStateM.Result.ok () ((cursor.advance 1).advance count) = _
      rw [Cursor.advance_advance, Nat.add_comm]
      rfl

theorem runWithin_cons (inClass : Char → Bool) (bound : Nat) {cursor : Cursor} {c : Char}
    {tail : Text} (hrest : cursor.rest = c :: tail) :
    runWithin inClass (bound + 1) cursor =
      (if inClass c = true then (c :: ·) <$> runWithin inClass bound else pure [])
        (if inClass c = true then cursor.advance 1 else cursor) := by
  rcases cursor with ⟨rest, offset, position⟩
  obtain rfl : rest = c :: tail := hrest
  rw [runWithin, step_eq]
  change (if inClass c = true then _ else _ : Reading Text) _ = _
  split
  · rfl
  · rfl

theorem runWithin_eq {inClass : Char → Bool} {bound : Nat} {cursor : Cursor}
    (hbound : cursor.rest.length ≤ bound) :
    runWithin inClass bound cursor = Reading.run inClass cursor := by
  induction bound generalizing cursor with
  | zero =>
      have hrest : cursor.rest = [] := List.eq_nil_of_length_eq_zero (by omega)
      rw [Reading.run, hrest, List.takeWhile_nil, List.length_nil, Cursor.advance_zero]
      rfl
  | succ bound ih =>
      cases hrest : cursor.rest with
      | nil =>
          rcases cursor with ⟨rest, offset, position⟩
          obtain rfl : rest = [] := hrest
          rfl
      | cons c tail =>
          rw [runWithin_cons inClass bound hrest, Reading.run, hrest]
          by_cases hc : inClass c = true
          · have htail : (cursor.advance 1).rest = tail := by
              rw [Cursor.rest_advance, hrest]
              rfl
            have hmore : runWithin inClass bound (cursor.advance 1) =
                .ok (tail.takeWhile inClass)
                  ((cursor.advance 1).advance (tail.takeWhile inClass).length) := by
              rw [ih (by rw [htail]; rw [hrest] at hbound; simpa using hbound), Reading.run, htail]
            rw [if_pos hc, if_pos hc, map_eq_pure_bind, bind_of_ok hmore, List.takeWhile_cons_of_pos hc,
              Cursor.advance_advance, List.length_cons, Nat.add_comm 1]
            rfl
          · rw [if_neg hc, if_neg hc, List.takeWhile_cons_of_neg hc, List.length_nil,
              Cursor.advance_zero]
            rfl

theorem run_eq : run = Reading.run := by
  funext inClass cursor
  exact runWithin_eq (Nat.le_refl _)

/-! Insignificant content. -/

theorem exists_cut (c : Char) (text : Text) :
    ∃ body tail, text = body ++ tail ∧ c ∉ body ∧ (tail = [] ∨ tail.head? = some c) := by
  refine ⟨text.takeWhile (· ≠ c), text.dropWhile (· ≠ c),
    List.takeWhile_append_dropWhile.symm, ?_, ?_⟩
  · intro hmem
    simpa using Text.forall_mem_takeWhile c hmem
  · cases htail : text.dropWhile (· ≠ c) with
    | nil => exact .inl rfl
    | cons d tail =>
        have hd := Text.endsRun_dropWhile (· ≠ c) text d (by rw [htail]; rfl)
        exact .inr (by simpa using hd)

theorem takes_run_ne {c : Char} {text tail : Text} (htext : c ∉ text)
    (htail : tail = [] ∨ tail.head? = some c) :
    Takes (Reading.run (· ≠ c)) text tail text :=
  takes_run (Text.forall_ne_of_notMem htext) (Text.endsRun_ne htail)

theorem isAbsent_of_endsRun {rest : Text} (hblank : Text.EndsRun Text.isBlank rest)
    (hline : ¬Insignificant.lineMarker.isPrefixOf rest = true)
    (hblock : ¬Insignificant.blockMarker.isPrefixOf rest = true) :
    Insignificant.IsAbsent rest := by
  cases rest with
  | nil => rfl
  | cons c rest =>
      have hc : Text.isBlank c = false := hblank c (by simp)
      simp [Insignificant.IsAbsent, Insignificant.length?, hc, hline, hblock]

theorem length?_blanks_append {blanks : Text} (rest : Text)
    (h : ∀ c ∈ blanks, Text.isBlank c = true) :
    Insignificant.length? .between (blanks ++ rest) =
      (Insignificant.length? .between rest).map (· + blanks.length) := by
  induction blanks with
  | nil => simp
  | cons c blanks ih =>
      rw [List.cons_append, Insignificant.length?_cons_blank _ (h c (by simp)),
        ih fun d hd => h d (by simp [hd])]
      simp [Function.comp_def, Nat.add_assoc]

theorem passes_succ {bound : Nat} {cursor here : Cursor} {blanks : Text}
    (hrun : Reading.run Text.isBlank cursor = .ok blanks here) :
    passes (bound + 1) cursor =
      (if here.startsWith Insignificant.lineMarker = true then do
        let _ ← Reading.run (· ≠ '\n')
        passes bound
      else if here.startsWith Insignificant.blockMarker = true then do
        Reading.advance Insignificant.blockMarker.length
        let _ ← Reading.run (· ≠ ')')
        if ← atEnd then
          fail .unterminatedComment
        else
          Reading.advance 1
          passes bound
      else if blanks = [] then pure () else passes bound : Reading Unit) here := by
  rw [passes, run_eq, advance_eq, bind_of_ok hrun]
  rfl

section

variable {bound : Nat} {here : Cursor}
  (ih : ∀ {cursor : Cursor}, cursor.rest.length < bound → passes bound cursor = Reading.skip cursor)

include ih

theorem skip_lineComment {more : Text} (hrest : here.rest = Insignificant.lineMarker ++ more)
    (hbound : here.rest.length < bound + 1) :
    (Reading.run (· ≠ '\n') >>= fun _ => passes bound) here = Reading.skip here := by
  obtain ⟨body, tail, rfl, hbody, htail⟩ := exists_cut '\n' more
  have hsplit : here.rest = (Piece.lineComment body).text ++ tail := by
    rw [hrest, Piece.text, List.append_assoc]
  have hrun : Takes (Reading.run (· ≠ '\n')) (Piece.lineComment body).text tail _ :=
    takes_run_ne (by simpa [Piece.text, Insignificant.lineMarker_eq] using hbody) htail
  rw [bind_of_ok (hrun here hsplit), skip_eq_of_append hsplit
    (Piece.length?_text_append hbody fun _ _ => htail)]
  refine ih ?_
  rw [Cursor.rest_advance_append hsplit]
  rw [hrest, Insignificant.lineMarker_eq] at hbound
  simp only [List.length_append, List.length_cons] at hbound
  omega

theorem skip_blockComment {more : Text} (hrest : here.rest = Insignificant.blockMarker ++ more)
    (hbound : here.rest.length < bound + 1) :
    (do
      Reading.advance Insignificant.blockMarker.length
      let _ ← Reading.run (· ≠ ')')
      if ← atEnd then
        fail .unterminatedComment
      else
        Reading.advance 1
        passes bound : Reading Unit) here = Reading.skip here := by
  obtain ⟨body, tail, rfl, hbody, htail⟩ := exists_cut ')' more
  have hopened := Cursor.rest_advance_append hrest
  have hinside := Cursor.rest_advance_append hopened
  rw [bind_of_ok (takes_advance _ _ here hrest), bind_of_ok (takes_run_ne hbody htail _ hopened)]
  rw [Cursor.advance_append] at hinside ⊢
  rcases htail with rfl | hhead
  · have hend : atEnd (here.advance (Insignificant.blockMarker ++ body).length) =
        .ok true (here.advance (Insignificant.blockMarker ++ body).length) := by
      rw [atEnd, hinside]
      rfl
    rw [List.append_nil] at hrest
    have hnone : Insignificant.length? .between here.rest = none := by
      rw [hrest, Insignificant.length?_blockMarker,
        Insignificant.length?_blockComment_eq_none hbody]
      rfl
    rw [bind_of_ok hend, skip_eq_of_none hnone, hrest]
    rfl
  · obtain ⟨tail, rfl⟩ := List.head?_eq_some_iff.mp hhead
    have hmore : atEnd (here.advance (Insignificant.blockMarker ++ body).length) =
        .ok false (here.advance (Insignificant.blockMarker ++ body).length) := by
      rw [atEnd, hinside]
      rfl
    have hsplit : here.rest = (Piece.blockComment body).text ++ tail := by
      rw [hrest, Piece.text]
      simp
    rw [bind_of_ok hmore, skip_eq_of_append hsplit (Piece.length?_text_append hbody (by simp))]
    change passes bound ((here.advance _).advance [')'].length) = _
    rw [Cursor.advance_append]
    refine ih ?_
    change (here.advance (Piece.blockComment body).text.length).rest.length < bound
    rw [Cursor.rest_advance_append hsplit]
    rw [hsplit, List.length_append, Piece.text, List.length_append] at hbound
    simp only [List.length_cons] at hbound
    omega

end

theorem passes_eq {bound : Nat} {cursor : Cursor} (hbound : cursor.rest.length < bound) :
    passes bound cursor = Reading.skip cursor := by
  -- On the bound: a pass that skips something leaves less of the text.
  induction bound generalizing cursor with
  | zero => omega
  | succ bound ih =>
      obtain ⟨blanks, here, hrun⟩ : ∃ blanks here, Reading.run Text.isBlank cursor =
          .ok blanks here := ⟨_, _, rfl⟩
      obtain ⟨_, ⟨hrest, rfl⟩, rfl, hblanks, hends⟩ := ensures_run _ cursor here blanks hrun
      have hhere : (cursor.advance blanks.length).rest.length < bound + 1 := by
        rw [hrest, List.length_append] at hbound
        omega
      rw [passes_succ hrun, skip_eq_of_append hrest (length?_blanks_append _ hblanks)]
      split
      · rename_i hline
        obtain ⟨more, hmore⟩ := List.isPrefixOf_iff_prefix.mp hline
        exact skip_lineComment ih hmore.symm hhere
      split
      · rename_i hblock
        obtain ⟨more, hmore⟩ := List.isPrefixOf_iff_prefix.mp hblock
        exact skip_blockComment ih hmore.symm hhere
      rename_i hline hblock
      split
      · have habsent := isAbsent_of_endsRun hends hline hblock
        rw [skip_eq_of_some habsent, Reading.advance, Cursor.advance_zero]
        rfl
      · rename_i hsome
        exact ih (by
          have hlength : 0 < blanks.length := List.length_pos_of_ne_nil hsome
          rw [hrest, List.length_append] at hbound
          omega)

theorem skip_eq : skip = Reading.skip := by
  funext cursor
  exact passes_eq (Nat.lt_succ_self _)

/-! Numbers. -/

theorem convert_eq {start cursor : Cursor} {literal : Text} (h : start.Moves literal cursor) :
    convert start cursor =
      (match NumberLiteral.convert literal with
      | .ok x => pure (.number x)
      | .error _ => fail (.noDigits literal) : Reading Value) cursor := by
  obtain ⟨hrest, rfl⟩ := h
  have hread : start.rest.take
      ((start.advance literal.length).offset - start.offset) = literal := by
    rw [Cursor.advance, Nat.add_sub_cancel_left, hrest, List.take_left, List.take_left]
  change (match NumberLiteral.convert (start.rest.take _) with
    | .ok x => pure (.number x)
    | .error _ => fail (.noDigits (start.rest.take _)) : Reading Value) _ = _
  rw [hread]

theorem convert_literal {start cursor : Cursor} (literal : NumberLiteral)
    (hliteral : literal.WellFormed) (h : start.Moves literal.text cursor) :
    convert start cursor = .ok (.number literal.value) cursor := by
  rw [convert_eq h, NumberLiteral.convert_of_ofText? (NumberLiteral.ofText?_text hliteral)]
  rfl

theorem convert_bare {start cursor : Cursor} {sign : Sign} {whole : Text}
    (hwhole : ∀ c ∈ whole, Text.isDigit c = true) (h : start.Moves (sign.text ++ whole) cursor) :
    convert start cursor =
      (if whole = [] then fail (.noDigits sign.text)
      else pure (.number (NumberLiteral.value ⟨sign, whole, none⟩)) : Reading Value) cursor := by
  by_cases hempty : whole = []
  · subst hempty
    rw [List.append_nil] at h
    rw [convert_eq h, NumberLiteral.convert_sign, if_pos rfl]
  · rw [if_neg hempty, convert_literal ⟨sign, whole, none⟩ ⟨⟨hempty, hwhole⟩, by simp⟩
      (by simpa [NumberLiteral.text_eq, NumberLiteral.pointText] using h)]
    rfl

theorem convert_fraction {start cursor : Cursor} {sign : Sign} {whole fraction : Text}
    (hwhole : NumberLiteral.IsDigitRun whole) (hfraction : NumberLiteral.IsDigitRun fraction)
    (h : start.Moves (sign.text ++ whole ++ ['.'] ++ fraction) cursor) :
    convert start cursor =
      .ok (.number (NumberLiteral.value ⟨sign, whole, some fraction⟩)) cursor := by
  refine convert_literal ⟨sign, whole, some fraction⟩ ⟨hwhole, ?_⟩ ?_
  · rintro _ ⟨⟩
    exact hfraction
  · simpa [NumberLiteral.text_eq, NumberLiteral.pointText] using h

theorem number_eq : number = Reading.number := by
  funext fractionRequired start
  cases hrest : start.rest with
  | nil =>
      rcases start with ⟨rest, offset, position⟩
      obtain rfl : rest = [] := hrest
      rfl
  | cons c tail =>
      have hget : (get : Reading Cursor) start = .ok start start := rfl
      have hcurrent : current start = .ok c start := by rw [current, hrest]
      have hhead : start.rest.head? = some c := by
        rw [hrest]
        rfl
      have hsign := exists_sign hhead
      obtain ⟨_, hsigned, rfl, -⟩ := ensures_sign start _ _ hsign
      have hadvance : Reading.advance (Sign.leading [c]).text.length start =
          .ok () (start.advance (Sign.leading [c]).text.length) := rfl
      unfold number Reading.number
      rw [advance_eq, run_eq, next?_eq, bind_of_ok hget, bind_of_ok hcurrent, bind_of_ok hadvance,
        bind_of_ok hsign]
      generalize start.advance (Sign.leading [c]).text.length = signed at hsigned
      obtain ⟨whole, between, hdigits⟩ : ∃ whole between,
          Reading.run Text.isDigit signed = .ok whole between := ⟨_, _, rfl⟩
      have hnamed : digits signed = .ok whole between := hdigits
      obtain ⟨_, hbetween, rfl, hwhole, -⟩ := ensures_run _ signed between whole hdigits
      have hnext : Reading.next? between = .ok between.rest.head? between := rfl
      rw [bind_of_ok hdigits, bind_of_ok hnamed, bind_of_ok hnext, bind_of_ok hnext]
      by_cases hpoint : between.rest.head? = some '.'
      · obtain ⟨more, hmore⟩ := List.head?_eq_some_iff.mp hpoint
        have hmoved : Reading.advance 1 between = .ok () (between.advance 1) := rfl
        obtain ⟨hbehind, -⟩ := moves_of_advance ['.'] hmoved hmore
        generalize between.advance 1 = behind at hmoved hbehind
        obtain ⟨fraction, after, hfraction⟩ : ∃ fraction after,
            Reading.run Text.isDigit behind = .ok fraction after := ⟨_, _, rfl⟩
        have hlast : digits behind = .ok fraction after := hfraction
        obtain ⟨_, hafter, rfl, hfractionDigits, -⟩ :=
          ensures_run _ behind after fraction hfraction
        rw [if_pos hpoint, if_pos hpoint, bind_of_ok hmoved, bind_of_ok hmoved,
          bind_of_ok hfraction, bind_of_ok hlast]
        by_cases hempty : whole = [] ∨ fraction = []
        · rw [if_pos hempty, if_pos hempty]
        · obtain ⟨hwholeNe, hfractionNe⟩ := not_or.mp hempty
          rw [if_neg hempty, if_neg hempty, convert_fraction ⟨hwholeNe, hwhole⟩
            ⟨hfractionNe, hfractionDigits⟩ (((hsigned.trans hbetween).trans hbehind).trans hafter)]
          rfl
      · rw [if_neg hpoint, if_neg hpoint]
        cases fractionRequired with
        | true => rfl
        | false => exact convert_bare hwhole (hsigned.trans hbetween)

end ConfTree.Reading.Guarded
