import ConfTree.Proofs.UniformDocument
import ConfTree.Source.Walk
import Mathlib.Data.List.Induction

namespace ConfTree

theorem Position.past_concat (position : Position) (text : Text) (c : Char) :
    position.past (text ++ [c]) = (position.past text).step c := by
  simp [past]

theorem Position.past_start (text : Text) :
    Position.start.past text =
      ⟨1 + text.count '\n', 1 + (text.reverse.takeWhile (· ≠ '\n')).length⟩ := by
  induction text using List.reverseRecOn with
  | nil => rfl
  | append_singleton text c ih =>
      rw [past_concat, ih, step]
      by_cases hc : c = '\n'
      · simp [hc, Nat.add_assoc]
      · simp [hc, Nat.add_comm]

/-- A cursor stands in a text: what is before it has been read and what is behind it is still to
be read, and line and column are counted from one over all that has been read. -/
structure Cursor.StandsIn (cursor : Cursor) (text : Text) : Prop where
  offset_le : cursor.offset ≤ text.length
  rest_eq : cursor.rest = text.drop cursor.offset
  line_eq : cursor.position.line = 1 + (text.take cursor.offset).count '\n'
  column_eq : cursor.position.column =
    1 + ((text.take cursor.offset).reverse.takeWhile (· ≠ '\n')).length

namespace Cursor

variable {cursor : Cursor} {text : Text}

theorem standsIn_iff : cursor.StandsIn text ↔
    ∃ before, text = before ++ cursor.rest ∧ cursor.offset = before.length ∧
      cursor.position = Position.start.past before := by
  constructor
  · intro h
    refine ⟨text.take cursor.offset, ?_, ?_, ?_⟩
    · rw [h.rest_eq, List.take_append_drop]
    · rw [List.length_take, Nat.min_eq_left h.offset_le]
    · rw [Position.past_start, ← h.line_eq, ← h.column_eq]
  · rintro ⟨before, htext, hoffset, hposition⟩
    have htake : text.take cursor.offset = before := by
      rw [htext, hoffset, List.take_left]
    refine ⟨?_, ?_, ?_, ?_⟩
    · rw [htext, hoffset, List.length_append]
      exact Nat.le_add_right _ _
    · have hdrop : text.drop before.length = cursor.rest := by rw [htext, List.drop_left]
      rw [hoffset, hdrop]
    · rw [htake, hposition, Position.past_start]
    · rw [htake, hposition, Position.past_start]

theorem standsIn_start (text : Text) : (start text).StandsIn text :=
  standsIn_iff.mpr ⟨[], rfl, rfl, rfl⟩

theorem StandsIn.advance (h : cursor.StandsIn text) (count : Nat) :
    (cursor.advance count).StandsIn text := by
  obtain ⟨before, htext, hoffset, hposition⟩ := standsIn_iff.mp h
  refine standsIn_iff.mpr ⟨before ++ cursor.rest.take count, ?_, ?_, ?_⟩
  · rw [List.append_assoc, rest_advance, List.take_append_drop, ← htext]
  · simp [Cursor.advance, hoffset]
  · rw [Position.past_append, ← hposition]
    rfl

end Cursor

theorem Failure.position?_errorAt {failure : Failure} {here position : Position}
    (h : (failure.errorAt here).position? = some position) : position = here := by
  cases failure with
  | refused cause => exact (Option.some.inj h).symm
  | nestingTooDeep => simp [errorAt, ReadError.position?] at h
  | pastEnd => simp [errorAt, ReadError.position?] at h

namespace SessionReading

variable {α β : Type}

theorem IsUniform.map {reading : SessionReading α} (f : α → β) (h : IsUniform reading) :
    IsUniform (f <$> reading) := by
  rw [map_eq_pure_bind]
  exact h.bind fun value => isUniform_pure (f value)

theorem isUniform_listing :
    IsUniform (do
      let session ← get
      pure (Walk.Reply.constants session.constants.listing)) := by
  refine fun text constants =>
    ⟨0, Nat.zero_le _, constants, .ok (.constants constants.listing), fun cursor _ => ?_⟩
  rw [Cursor.advance_zero]
  rfl

end SessionReading

namespace Walk

open SessionReading Reading

variable {settings : Settings} {text : Text} {walk : Walk}

theorem isUniform_reply (settings : Settings) (step : Step) :
    (reply settings step).IsUniform := by
  cases step with
  | document => exact (isUniform_document settings).map _
  | value => exact (isUniform_ofReading (isUniform_value settings)).map _
  | quotedText => exact (isUniform_ofReading fun _ => isUniform_quotedText).map _
  | number => exact (isUniform_ofReading fun _ => isUniform_number _).map _
  | list =>
      exact (isUniform_ofReading fun constants =>
        isUniform_list (isUniform_member settings constants)).map _
  | mapping =>
      exact (isUniform_ofReading fun constants =>
        isUniform_mapping (isUniform_member settings constants)).map _
  | expression => exact (isUniform_ofReading isUniform_expression).map _
  | declaration => exact (isUniform_declaration settings).map _
  | atEnd => exact (isUniform_ofReading fun _ => isUniform_atEnd).map _
  | digits => exact (isUniform_ofReading fun _ => isUniform_run _).map _
  | name => exact (isUniform_ofReading fun _ => isUniform_run _).map _
  | current => exact (isUniform_ofReading fun _ => isUniform_current).map _
  | skip => exact (isUniform_ofReading fun _ => isUniform_skip).map _
  | advance count => exact (isUniform_ofReading fun _ => isUniform_advance count).map _
  | peek c => exact (isUniform_ofReading fun _ => isUniform_peek c).map _
  | expect c => exact (isUniform_ofReading fun _ => isUniform_expect c).map _
  | constants => exact isUniform_listing
  | save => exact isUniform_pure _
  | restore slot => exact isUniform_pure _

def StandsIn (walk : Walk) (text : Text) : Prop :=
  walk.session.cursor.StandsIn text ∧ ∀ cursor ∈ walk.saved, cursor.StandsIn text

theorem standsIn_start (text : Text) : (start text).StandsIn text :=
  ⟨Cursor.standsIn_start text, by simp [start]⟩

theorem StandsIn.save (h : walk.StandsIn text) : walk.save.StandsIn text := by
  refine ⟨h.1, fun cursor hcursor => ?_⟩
  rcases List.mem_append.mp hcursor with hsaved | hlast
  · exact h.2 cursor hsaved
  · rw [List.mem_singleton.mp hlast]
    exact h.1

theorem StandsIn.restore (h : walk.StandsIn text) (slot : Nat) :
    (walk.restore slot).StandsIn text := by
  unfold Walk.restore
  split
  · rename_i cursor hsaved
    exact ⟨h.2 cursor (List.mem_of_getElem? hsaved), h.2⟩
  · exact h

theorem StandsIn.withSession (h : walk.StandsIn text) (constants : Constants) (count : Nat) :
    StandsIn { walk with session := ⟨walk.session.cursor.advance count, constants⟩ } text :=
  ⟨h.1.advance count, h.2⟩

/-- What a step leaves behind: cursors in the text, and an error at the cursor if it has a
position. -/
def LeavesIn (text : Text) : EStateM.Result ReadError Walk Reply → Prop
  | .ok _ after => after.StandsIn text
  | .error error after => after.StandsIn text ∧
      ∀ position, error.position? = some position → position = after.session.cursor.position

theorem perform_eq (settings : Settings) (step : Step) (walk : Walk) :
    (step = .save ∧ perform settings step walk = .ok .nothing walk.save) ∨
    (∃ slot, step = .restore slot ∧ perform settings step walk = .ok .nothing (walk.restore slot)) ∨
    perform settings step walk =
      match reply settings step walk.session with
      | .ok reply session => .ok reply { walk with session := session }
      | .error error session => .error error { walk with session := session } := by
  cases step with
  | save => exact .inl ⟨rfl, rfl⟩
  | restore slot => exact .inr (.inl ⟨slot, rfl, rfl⟩)
  | _ => exact .inr (.inr rfl)

/-- What holds of a saved cursor, of a return to one and of what any reply comes to holds of what a
step comes to. -/
@[elab_as_elim]
theorem perform_induction {motive : EStateM.Result ReadError Walk Reply → Prop}
    (settings : Settings) (step : Step) (walk : Walk)
    (save : step = .save → motive (.ok .nothing walk.save))
    (restore : ∀ slot, step = .restore slot → motive (.ok .nothing (walk.restore slot)))
    (ok : ∀ found session, reply settings step walk.session = .ok found session →
      motive (.ok found { walk with session := session }))
    (error : ∀ stop session, reply settings step walk.session = .error stop session →
      motive (.error stop { walk with session := session })) :
    motive (perform settings step walk) := by
  rcases perform_eq settings step walk with ⟨hstep, hsave⟩ | ⟨slot, hstep, hrestore⟩ | hreply
  · rw [hsave]
    exact save hstep
  · rw [hrestore]
    exact restore slot hstep
  · rw [hreply]
    cases hread : reply settings step walk.session with
    | ok found session => exact ok found session hread
    | error stop session => exact error stop session hread

/-- What a step comes to that gives its reply from what a reading has found. -/
def resume {α : Type} (walk : Walk) (answer : α → Reply) :
    EStateM.Result ReadError Session α → EStateM.Result ReadError Walk Reply
  | .ok found session => .ok (answer found) { walk with session := session }
  | .error error session => .error error { walk with session := session }

theorem perform_eq_resume {α : Type} {step : Step} {reading : SessionReading α} {answer : α → Reply}
    (hsave : step ≠ .save) (hrestore : ∀ slot, step ≠ .restore slot)
    (hreply : reply settings step = answer <$> reading) :
    perform settings step walk = walk.resume answer (reading walk.session) := by
  rcases perform_eq settings step walk with ⟨rfl, -⟩ | ⟨slot, rfl, -⟩ | hperform
  · exact absurd rfl hsave
  · exact absurd rfl (hrestore slot)
  · rw [hperform, hreply, map_eq_pure_bind]
    cases hread : reading walk.session with
    | ok found session =>
        rw [bind_of_ok hread]
        rfl
    | error error session =>
        rw [bind_of_error hread]
        rfl

theorem perform_document (settings : Settings) (walk : Walk) :
    perform settings .document walk = walk.resume .value (document settings walk.session) :=
  perform_eq_resume (by simp) (by simp) rfl

theorem perform_declaration (settings : Settings) (walk : Walk) :
    perform settings .declaration walk = walk.resume .flag (declaration settings walk.session) :=
  perform_eq_resume (by simp) (by simp) rfl

theorem leavesIn_perform (h : walk.StandsIn text) (step : Step) :
    LeavesIn text (perform settings step walk) := by
  obtain ⟨count, -, constants, verdict, hsettles⟩ :=
    isUniform_reply settings step walk.session.cursor.rest walk.session.constants
  have hreply : reply settings step walk.session = _ := hsettles walk.session.cursor rfl
  have hmoved := h.withSession constants count
  cases step with
  | save => exact h.save
  | restore slot => exact h.restore slot
  | _ =>
      simp only [perform, hreply]
      cases verdict with
      | ok reply => exact hmoved
      | error failure => exact ⟨hmoved, fun _ => Failure.position?_errorAt⟩

def afterStep (settings : Settings) (walk : Walk) (step : Step) : Walk :=
  match perform settings step walk with
  | .ok _ after => after
  | .error _ after => after

def follow (settings : Settings) (steps : List Step) (walk : Walk) : Walk :=
  steps.foldl (afterStep settings) walk

theorem StandsIn.afterStep (h : walk.StandsIn text) (step : Step) :
    (walk.afterStep settings step).StandsIn text := by
  have hleaves : LeavesIn text (perform settings step walk) := leavesIn_perform h step
  unfold Walk.afterStep
  cases hperform : perform settings step walk with
  | ok reply after =>
      rw [hperform] at hleaves
      exact hleaves
  | error error after =>
      rw [hperform] at hleaves
      exact hleaves.1

theorem StandsIn.follow (h : walk.StandsIn text) (steps : List Step) :
    (Walk.follow settings steps walk).StandsIn text := by
  induction steps generalizing walk with
  | nil => exact h
  | cons step steps ih => exact ih (h.afterStep step)

/-- After any steps from the start of a text on, the cursor stands in the text, and where one more
step fails with a position, it is the position of the cursor that this step leaves in the text. -/
theorem standsIn_after_steps (settings : Settings) (text : Text) (steps : List Step) :
    (follow settings steps (start text)).session.cursor.StandsIn text ∧
      ∀ step error left position,
        perform settings step (follow settings steps (start text)) = .error error left →
        error.position? = some position →
        left.session.cursor.StandsIn text ∧ position = left.session.cursor.position := by
  have hstands : (follow settings steps (start text)).StandsIn text :=
    (standsIn_start text).follow steps
  refine ⟨hstands.1, fun step error left position hperform hposition => ?_⟩
  have hleaves : LeavesIn text (perform settings step (follow settings steps (start text))) :=
    leavesIn_perform hstands step
  rw [hperform] at hleaves
  exact ⟨hleaves.1.1, hleaves.2 position hposition⟩

theorem standsIn_after_steps_open_list :
    ∃ left : Walk,
      perform {} .list (follow {} [.save, .name, .skip] (start "x\n [@\"a\"".toList)) =
        .error (.located .expectedListSeparator ⟨2, 7⟩) left ∧
      left.session.cursor.StandsIn "x\n [@\"a\"".toList ∧
      ⟨2, 7⟩ = left.session.cursor.position := by
  have hperform : perform {} .list (follow {} [.save, .name, .skip] (start "x\n [@\"a\"".toList)) =
      .error (.located .expectedListSeparator ⟨2, 7⟩)
        ⟨⟨⟨[], 8, ⟨2, 7⟩⟩, []⟩, [⟨"x\n [@\"a\"".toList, 0, ⟨1, 1⟩⟩]⟩ := rfl
  exact ⟨_, hperform, (standsIn_after_steps {} _ _).2 .list _ _ _ hperform rfl⟩

end Walk

end ConfTree
