import ConfTree.Proofs.CursorPlace
import ConfTree.Proofs.GuardedReading
import ConfTree.Proofs.RefusedReading

namespace ConfTree

namespace Reading

variable {settings : Settings} {constants : Constants} {cursor left : Cursor} {error : ReadError}

/-- Somewhere from a cursor on, more lists and mappings open inside each other than the limit
allows. -/
def NestsAhead (settings : Settings) (cursor : Cursor) : Prop :=
  ∃ constants count, Nests settings constants (nestingLimit + 1) (cursor.advance count)

theorem NestsAhead.of_advance {count : Nat} (h : NestsAhead settings (cursor.advance count)) :
    NestsAhead settings cursor := by
  obtain ⟨constants, further, hnests⟩ := h
  rw [Cursor.advance_advance] at hnests
  exact ⟨constants, count + further, hnests⟩

theorem Nests.ahead (h : Nests settings constants (nestingLimit + 1) cursor) :
    NestsAhead settings cursor :=
  ⟨constants, 0, by rwa [Cursor.advance_zero]⟩

/-- An error that a reading from a cursor on may leave: it is located, or too many literals open. -/
def Accounts (settings : Settings) (cursor : Cursor) (error : ReadError) (left : Cursor) : Prop :=
  error.IsLocatedAt left ∨ error = .nestingTooDeep ∧ NestsAhead settings cursor

theorem accounts_of_value (h : value settings constants cursor = .error error left) :
    Accounts settings cursor error left := by
  have hvalue : valueWithin settings constants (nestingLimit + 1) cursor = .error error left := h
  exact (refused_of_valueWithin hvalue).imp_right fun ⟨herror, hnests⟩ => ⟨herror, hnests.ahead⟩

theorem accounts_of_member
    (h : error.IsLocatedAt left ∨ ∃ place, Encloses (member settings constants) cursor place ∧
      member settings constants place = .error error left) :
    Accounts settings cursor error left := by
  rcases h with hlocated | ⟨place, hencloses, hmember⟩
  · exact .inl hlocated
  · exact (refused_of_valueWithin hmember).imp_right fun ⟨herror, hplace⟩ =>
      ⟨herror, Nests.ahead (.inside hencloses hplace)⟩

theorem isLocated_declarationBy? {value : Reading Value} (hvalue : IsLocated value) :
    IsLocated (declarationBy? value) :=
  isLocated_of_cursor fun _ => (isLocated_run _).bind fun _ =>
    .ite (isLocated_pure _) <| isLocated_skip.bind fun _ => isLocated_of_cursor fun _ =>
      .ite
        ((isLocated_advance _).bind fun _ => hvalue.bind fun _ => isLocated_pure _)
        ((isLocated_of_ok fun _ => ⟨_, _, rfl⟩).bind fun _ => isLocated_pure _)

theorem accounts_of_declaration?
    (h : declaration? settings constants cursor = .error error left) :
    Accounts settings cursor error left := by
  change declarationBy? (value settings constants) cursor = _ at h
  rcases declarationBy?_eq_or cursor with ⟨result, hresult⟩ | ⟨written, count, hrun⟩
  · -- No value is read, so any other reader of values would do.
    rw [hresult, ← hresult (pure .null)] at h
    exact .inl (isLocated_declarationBy? (isLocated_pure _) cursor error left h)
  · rw [hrun] at h
    rcases exists_of_bind_eq_error h with hvalue | ⟨_, _, -, hpure⟩
    · exact (accounts_of_value hvalue).imp_right fun ⟨herror, hnests⟩ =>
        ⟨herror, hnests.of_advance⟩
    · cases hpure

end Reading

namespace SessionReading

open Reading

variable {α β : Type} {settings : Settings}

def IsAccounted (settings : Settings) (reading : SessionReading α) : Prop :=
  ∀ session error left, reading session = .error error left →
    Accounts settings session.cursor error left.cursor

theorem isAccounted_ofReading {reading : Constants → Reading α}
    (h : ∀ constants cursor error left, reading constants cursor = .error error left →
      Accounts settings cursor error left) :
    IsAccounted settings (ofReading reading) :=
  fun session error left hread =>
    h session.constants session.cursor error left.cursor (exists_of_ofReading_eq_error hread).1

theorem isAccounted_of_isLocated {reading : Constants → Reading α}
    (h : ∀ constants, (reading constants).IsLocated) : IsAccounted settings (ofReading reading) :=
  isAccounted_ofReading fun constants cursor error left hread =>
    .inl (h constants cursor error left hread)

theorem isAccounted_pure (value : α) : IsAccounted settings (pure value) := by
  intro session error left h
  cases h

theorem IsAccounted.bind {first : SessionReading α} {next : α → SessionReading β}
    (hfirst : IsAccounted settings first) (huniform : IsUniform first)
    (hnext : ∀ value, IsAccounted settings (next value)) :
    IsAccounted settings (first >>= next) := by
  intro session error left h
  rcases exists_of_bind_eq_error h with hstop | ⟨value, between, hread, hstop⟩
  · exact hfirst session error left hstop
  · obtain ⟨count, hcursor⟩ := huniform.exists_advance hread
    refine (hnext value between error left hstop).imp_right fun ⟨herror, hnests⟩ => ?_
    rw [hcursor] at hnests
    exact ⟨herror, hnests.of_advance⟩

theorem isAccounted_declaration (settings : Settings) :
    IsAccounted settings (declaration settings) :=
  fun _ _ _ h => accounts_of_declaration? (exists_of_declaration_eq_error h).1

theorem isAccounted_item (settings : Settings) (last : Value) :
    IsAccounted settings (item settings last) := by
  refine (isAccounted_declaration settings).bind (isUniform_declaration settings) fun declared => ?_
  cases declared with
  | true => exact isAccounted_pure last
  | false => exact isAccounted_ofReading fun _ _ _ _ => accounts_of_value

theorem isAccounted_items (settings : Settings) (bound : Nat) (last : Value) :
    IsAccounted settings (items settings bound last) := by
  induction bound generalizing last with
  | zero => exact isAccounted_pure last
  | succ bound ih =>
      rw [items_succ]
      refine (isAccounted_of_isLocated fun _ => isLocated_skip).bind
        (isUniform_ofReading fun _ => isUniform_skip) fun _ => ?_
      refine (isAccounted_of_isLocated fun _ => isLocated_atEnd).bind
        (isUniform_ofReading fun _ => isUniform_atEnd) fun ended => ?_
      cases ended with
      | true => exact isAccounted_pure last
      | false => exact (isAccounted_item settings last).bind (isUniform_item settings last) ih

theorem isAccounted_document (settings : Settings) : IsAccounted settings (document settings) :=
  fun session => isAccounted_items settings (session.cursor.rest.length + 1) .null session

end SessionReading

namespace Walk

open SessionReading Reading

variable {settings : Settings} {walk left : Walk} {step : Step} {error : ReadError}

def Step.ReadsMembers : Step → Prop
  | .document | .value | .list | .mapping | .declaration => True
  | _ => False

/-- What a step may refuse: with a cause, for literals that open inside each other, or for want of
a character, which leaves everything as it was. -/
def Refuses (settings : Settings) (step : Step) (session : Session) (error : ReadError)
    (left : Session) : Prop :=
  error.IsLocatedAt left.cursor ∨
  (error = .nestingTooDeep ∧ step.ReadsMembers ∧ NestsAhead settings session.cursor) ∨
  (error = .pastEnd ∧ (step = .current ∨ step = .number) ∧ session.cursor.rest = [] ∧
    left = session)

theorem Refuses.of_accounts {session left : Session} (hstep : step.ReadsMembers)
    (h : Accounts settings session.cursor error left.cursor) :
    Refuses settings step session error left := by
  rcases h with hlocated | ⟨herror, hnests⟩
  · exact .inl hlocated
  · exact .inr (.inl ⟨herror, hstep, hnests⟩)

theorem Refuses.of_isLocated {α : Type} {reading : Constants → Reading α} {session left : Session}
    (hlocated : ∀ constants, (reading constants).IsLocated)
    (h : ofReading reading session = .error error left) :
    Refuses settings step session error left :=
  .inl (hlocated session.constants session.cursor error left.cursor
    (exists_of_ofReading_eq_error h).1)

theorem reply_of_end {session : Session} (hstep : step = .current ∨ step = .number)
    (hend : session.cursor.rest = []) : reply settings step session = .error .pastEnd session := by
  rcases hstep with rfl | rfl
  · have hread : ofReading (fun _ => current) session = .error .pastEnd session :=
      ofReading_of_error (current_of_end hend)
    rw [reply, map_eq_pure_bind, bind_of_error hread]
  · have hread : ofReading (fun _ => number settings.fractionRequired) session =
        .error .pastEnd session := ofReading_of_error (number_of_end _ hend)
    rw [reply, map_eq_pure_bind, bind_of_error hread]

theorem Refuses.of_end {session left : Session} (hstep : step = .current ∨ step = .number)
    (hend : session.cursor.rest = []) (h : reply settings step session = .error error left) :
    Refuses settings step session error left := by
  rw [reply_of_end hstep hend] at h
  obtain ⟨rfl, rfl⟩ := EStateM.Result.error.inj h
  exact .inr (.inr ⟨rfl, hstep, hend, rfl⟩)

theorem refuses_of_reply {session left : Session}
    (h : reply settings step session = .error error left) :
    Refuses settings step session error left := by
  cases step with
  | document => exact .of_accounts trivial (isAccounted_document settings _ _ _ (error_of_map h))
  | value =>
      exact .of_accounts trivial
        (accounts_of_value (exists_of_ofReading_eq_error (error_of_map h)).1)
  | quotedText => exact .of_isLocated (fun _ => isLocated_quotedText) (error_of_map h)
  | number =>
      by_cases hend : session.cursor.rest = []
      · exact .of_end (.inr rfl) hend h
      · exact .inl (isLocatedAt_of_number hend (exists_of_ofReading_eq_error (error_of_map h)).1)
  | list =>
      exact .of_accounts trivial (accounts_of_member
        (refused_of_list (exists_of_ofReading_eq_error (error_of_map h)).1))
  | mapping =>
      exact .of_accounts trivial (accounts_of_member
        (refused_of_mapping (exists_of_ofReading_eq_error (error_of_map h)).1))
  | expression => exact .of_isLocated isLocated_expression (error_of_map h)
  | declaration =>
      exact .of_accounts trivial (isAccounted_declaration settings _ _ _ (error_of_map h))
  | atEnd => exact .of_isLocated (fun _ => isLocated_atEnd) (error_of_map h)
  | digits => exact .of_isLocated (fun _ => isLocated_run _) (error_of_map h)
  | name => exact .of_isLocated (fun _ => isLocated_run _) (error_of_map h)
  | current =>
      by_cases hend : session.cursor.rest = []
      · exact .of_end (.inl rfl) hend h
      · obtain ⟨c, tail, hrest⟩ := List.exists_cons_of_ne_nil hend
        obtain ⟨hread, -⟩ := exists_of_ofReading_eq_error (error_of_map h)
        simp [current, hrest] at hread
  | skip => exact .of_isLocated (fun _ => isLocated_skip) (error_of_map h)
  | advance count => exact .of_isLocated (fun _ => isLocated_advance count) (error_of_map h)
  | peek c => exact .of_isLocated (fun _ => isLocated_peek c) (error_of_map h)
  | expect c => exact .of_isLocated (fun _ => isLocated_expect c) (error_of_map h)
  | constants => cases h
  | save => cases h
  | restore slot => cases h

theorem refuses_of_perform (h : perform settings step walk = .error error left) :
    Refuses settings step walk.session error left.session ∧ left.saved = walk.saved := by
  revert h
  refine perform_induction settings step walk (fun _ h => ?_) (fun slot _ h => ?_)
    (fun found session _ h => ?_) fun stop session hread h => ?_
  · cases h
  · cases h
  · cases h
  · obtain ⟨rfl, rfl⟩ := EStateM.Result.error.inj h
    exact ⟨refuses_of_reply hread, rfl⟩

theorem perform_of_end (hstep : step = .current ∨ step = .number)
    (hend : walk.session.cursor.rest = []) :
    perform settings step walk = .error .pastEnd walk := by
  have hread : reply settings step walk.session = _ := reply_of_end hstep hend
  rcases hstep with rfl | rfl
  · simp only [perform, hread]
  · simp only [perform, hread]

/-- After any steps from the start of a text on, whatever one more step refuses is located at the
cursor that it leaves, unless more lists and mappings than the limit allows open inside each other
ahead.  Only the current character and a number are missed, exactly at the end of the text, and then
nothing changes.  The text is never looked at without a test for its end, and no word of an
expression comes to a fault. -/
theorem refusals_after_steps (settings : Settings) (text : Text) (steps : List Step) :
    (∀ step error left,
      perform settings step (follow settings steps (start text)) = .error error left →
      error.IsLocatedAt left.session.cursor ∨
      (error = .nestingTooDeep ∧ step.ReadsMembers ∧
        NestsAhead settings (follow settings steps (start text)).session.cursor) ∨
      (error = .pastEnd ∧ (step = .current ∨ step = .number) ∧
        (follow settings steps (start text)).session.cursor.offset = text.length ∧
        left = follow settings steps (start text))) ∧
    (∀ step, step = .current ∨ step = .number →
      (follow settings steps (start text)).session.cursor.offset = text.length →
      perform settings step (follow settings steps (start text)) =
        .error .pastEnd (follow settings steps (start text))) ∧
    (Guarded.next? = next? ∧ Guarded.advance = advance ∧ Guarded.run = run ∧
      Guarded.skip = skip ∧ Guarded.number = number) ∧
    ∀ constants word stack, Evaluation.Guarded.feed constants word stack =
      Evaluation.worded (Evaluation.feed constants word stack) := by
  have hstands : (follow settings steps (start text)).session.cursor.StandsIn text :=
    ((standsIn_start text).follow steps).1
  have hend : (follow settings steps (start text)).session.cursor.rest = [] ↔
      (follow settings steps (start text)).session.cursor.offset = text.length := by
    rw [hstands.rest_eq, List.drop_eq_nil_iff]
    have hle := hstands.offset_le
    omega
  refine ⟨fun step error left hperform => ?_, fun step hstep hoffset => ?_,
    ⟨Guarded.next?_eq, Guarded.advance_eq, Guarded.run_eq, Guarded.skip_eq, Guarded.number_eq⟩,
    Evaluation.guarded_feed_eq⟩
  · obtain ⟨hrefuses, hsaved⟩ := refuses_of_perform hperform
    rcases hrefuses with hlocated | hnests | ⟨herror, hstep, hrest, hleft⟩
    · exact .inl hlocated
    · exact .inr (.inl hnests)
    · refine .inr (.inr ⟨herror, hstep, hend.mp hrest, ?_⟩)
      rcases left with ⟨session, saved⟩
      obtain rfl : session = _ := hleft
      obtain rfl : saved = _ := hsaved
      rfl
  · exact perform_of_end hstep (hend.mpr hoffset)

theorem refusals_after_steps_open_list :
    (∃ left, perform {} .list (start "[x".toList) =
        .error (.located (.unknownName ['x']) ⟨1, 3⟩) left ∧
      (ReadError.located (.unknownName ['x']) ⟨1, 3⟩).IsLocatedAt left.session.cursor) ∧
    perform {} .number (follow {} [.save, .list] (start "[x".toList)) =
      .error .pastEnd (follow {} [.save, .list] (start "[x".toList)) := by
  constructor
  · have hperform : perform {} .list (follow {} [] (start "[x".toList)) =
        .error (.located (.unknownName ['x']) ⟨1, 3⟩) _ := rfl
    refine ⟨_, hperform, ?_⟩
    rcases (refusals_after_steps {} _ []).1 _ _ _ hperform with
      hlocated | ⟨herror, -⟩ | ⟨herror, -⟩
    · exact hlocated
    · cases herror
    · cases herror
  · exact (refusals_after_steps {} "[x".toList [.save, .list]).2.1 .number (.inr rfl) rfl

end Walk

end ConfTree
