import ConfTree.Proofs.ProperWalk
import ConfTree.Proofs.RefusedStep

namespace ConfTree

namespace SessionReading

open Reading

variable {α β : Type} {settings : Settings} {session : Session} {name : Text} {place : Cursor}

theorem declaration_of_opensBinding (h : OpensBinding session.cursor name place) :
    declaration settings session =
      match value settings session.constants place with
      | .ok found after => .ok true ⟨after, session.constants.bind name found⟩
      | .error error left => .error error ⟨left, session.constants⟩ := by
  have hread := h.bindsAt (value settings session.constants)
  cases hvalue : value settings session.constants place with
  | ok found after =>
      rw [bind_of_ok hvalue] at hread
      exact declaration_of_some hread
  | error error left =>
      rw [bind_of_error hvalue] at hread
      exact declaration_of_error hread

theorem declaration_of_staysOpen (h : StaysOpen session.cursor) :
    declaration settings session = .error
      (.located .unterminatedComment
        (session.cursor.advance session.cursor.rest.length).position)
      ⟨session.cursor.advance session.cursor.rest.length, session.constants⟩ :=
  declaration_of_error h.declarationBy?_eq

theorem declaration_of_not_opensBinding
    (hbinding : ¬∃ name place, OpensBinding session.cursor name place)
    (hopen : ¬StaysOpen session.cursor) : declaration settings session = .ok false session := by
  rcases declarationBy?_cases session.cursor with hopens | hstays | hnone
  · exact absurd hopens hbinding
  · exact absurd hstays hopen
  · exact declaration_of_none (hnone _)

def KeepsConstants (reading : SessionReading α) : Prop :=
  ∀ session, match reading session with
    | .ok _ after => after.constants = session.constants
    | .error _ left => left.constants = session.constants

theorem keepsConstants_ofReading (reading : Constants → Reading α) :
    KeepsConstants (ofReading reading) := by
  intro session
  cases hread : ofReading reading session with
  | ok value after => exact (exists_of_ofReading_eq_ok hread).2
  | error error left => exact (exists_of_ofReading_eq_error hread).2

theorem KeepsConstants.map {reading : SessionReading α} (f : α → β) (h : KeepsConstants reading) :
    KeepsConstants (f <$> reading) := by
  intro session
  have hkeeps := h session
  rw [map_eq_pure_bind]
  cases hread : reading session with
  | ok value after =>
      rw [hread] at hkeeps
      rw [bind_of_ok hread]
      exact hkeeps
  | error error left =>
      rw [hread] at hkeeps
      rw [bind_of_error hread]
      exact hkeeps

end SessionReading

namespace Walk

open SessionReading Reading Document

variable {settings : Settings} {walk : Walk} {step : Step}

def Step.Declares (step : Step) : Prop :=
  step = .declaration ∨ step = .document

theorem keepsConstants_reply (settings : Settings) (hstep : ¬step.Declares) :
    KeepsConstants (reply settings step) := by
  cases step with
  | document => exact absurd (.inr rfl) hstep
  | declaration => exact absurd (.inl rfl) hstep
  | constants => exact fun _ => rfl
  | save => exact fun _ => rfl
  | restore slot => exact fun _ => rfl
  | _ => exact (keepsConstants_ofReading _).map _

theorem constants_afterStep (hstep : ¬step.Declares) :
    (walk.afterStep settings step).session.constants = walk.session.constants := by
  have hkeeps := keepsConstants_reply settings hstep walk.session
  unfold afterStep
  refine perform_induction settings step walk (fun _ => rfl)
    (fun slot _ => constants_restore walk slot) (fun found session hread => ?_)
    fun error session hread => ?_
  · rw [hread] at hkeeps
    exact hkeeps
  · rw [hread] at hkeeps
    exact hkeeps

theorem constants_follow {steps : List Step} (h : ∀ step ∈ steps, ¬step.Declares) :
    (follow settings steps walk).session.constants = walk.session.constants := by
  induction steps generalizing walk with
  | nil => rfl
  | cons step steps ih =>
      obtain ⟨hstep, hsteps⟩ := List.forall_mem_cons.mp h
      exact (ih hsteps).trans (constants_afterStep hstep)

/-- From any walk, an attempt at a declaration commits or leaves the constants.  A value is read
exactly behind a whole name, insignificant content and the marker; without them everything is given
back, unless a comment is open.  What is read under the constants before is bound to that name alone,
and a refusal leaves the cursor where it was met.  Of the other steps only whole documents touch the
constants: these have bound what the items that they got through declare. -/
theorem declaration_all_or_nothing (settings : Settings) (walk : Walk) :
    (declaration? settings walk.session.constants =
        declarationBy? (value settings walk.session.constants) ∧
      ∀ name place, BindsAt walk.session.cursor name place ↔
        OpensBinding walk.session.cursor name place) ∧
    ((¬∃ name place, OpensBinding walk.session.cursor name place) →
      ¬StaysOpen walk.session.cursor →
      perform settings .declaration walk = .ok (.flag false) walk) ∧
    (StaysOpen walk.session.cursor →
      perform settings .declaration walk = .error
        (.located .unterminatedComment
          (walk.session.cursor.advance walk.session.cursor.rest.length).position)
        { walk with session :=
            ⟨walk.session.cursor.advance walk.session.cursor.rest.length,
              walk.session.constants⟩ }) ∧
    (∀ name place found after, OpensBinding walk.session.cursor name place →
      value settings walk.session.constants place = .ok found after →
      ∃ constants text,
        perform settings .declaration walk =
          .ok (.flag true) { walk with session := ⟨after, constants⟩ } ∧
        (∀ sought, constants.valueOf? sought =
          if sought = name then some found else walk.session.constants.valueOf? sought) ∧
        place.Moves text after ∧
        Spells settings walk.session.constants (nestingLimit + 1) text after.rest found) ∧
    (∀ name place error left, OpensBinding walk.session.cursor name place →
      value settings walk.session.constants place = .error error left →
      perform settings .declaration walk =
        .error error { walk with session := ⟨left, walk.session.constants⟩ }) ∧
    (∀ error left, perform settings .declaration walk = .error error left →
      left.session.constants = walk.session.constants ∧
      Accounts settings walk.session.cursor error left.session.cursor) ∧
    (∀ steps : List Step, (∀ step ∈ steps, ¬step.Declares) →
      (follow settings steps walk).session.constants = walk.session.constants) ∧
    ∃ found, GetsThrough settings .null walk.session found (document settings walk.session) ∧
      (walk.afterStep settings .document).session.constants =
        (bindings walk.session.constants found).reverse ++ walk.session.constants := by
  refine ⟨⟨rfl, fun name place => bindsAt_iff⟩, fun hbinding hopen => ?_, fun hopen => ?_,
    fun name place found after hopens hvalue => ?_, fun name place error left hopens hvalue => ?_,
    fun error left hperform => ?_, fun steps hsteps => constants_follow hsteps, ?_⟩
  · rw [perform_declaration, declaration_of_not_opensBinding hbinding hopen]
    rfl
  · rw [perform_declaration, declaration_of_staysOpen hopen]
    rfl
  · obtain ⟨text, hmoves, hspells⟩ := ensures_value settings _ place after found hvalue
    refine ⟨walk.session.constants.bind name found, text, ?_, fun sought => ?_, hmoves, hspells⟩
    · rw [perform_declaration, declaration_of_opensBinding hopens, hvalue]
      rfl
    · exact Constants.valueOf?_bind _ name sought found
  · rw [perform_declaration, declaration_of_opensBinding hopens, hvalue]
    rfl
  · rw [perform_declaration] at hperform
    cases hread : declaration settings walk.session with
    | ok declared session =>
        rw [hread] at hperform
        cases hperform
    | error stop session =>
        rw [hread] at hperform
        obtain ⟨rfl, rfl⟩ := EStateM.Result.error.inj hperform
        exact ⟨(exists_of_declaration_eq_error hread).2,
          isAccounted_declaration settings _ _ _ hread⟩
  · obtain ⟨found, hfound⟩ := exists_getsThrough_document settings walk.session
    refine ⟨found, hfound, ?_⟩
    rw [afterStep, perform_document]
    cases hread : document settings walk.session with
    | ok value session =>
        rw [hread] at hfound
        exact hfound.constants_eq
    | error error session =>
        rw [hread] at hfound
        exact hfound.constants_eq_of_error

/-- A name is bound again, to a list that holds what it stood for.  A list that is not closed binds
nothing, and a name with no marker behind its comment is given back with the comment. -/
theorem declaration_all_or_nothing_rebinding :
    (∃ constants after,
      perform {} .declaration (follow {} [.declaration, .skip]
        (start "x := @\"a\" x(comment):=[x]".toList)) = .ok (.flag true) ⟨⟨after, constants⟩, []⟩ ∧
      constants.valueOf? ['x'] = some (.list [.text ['a']])) ∧
    (∃ left,
      perform {} .declaration (follow {} [.declaration, .skip] (start "x := [] y := [x".toList)) =
        .error (.located .expectedListSeparator ⟨1, 16⟩) left ∧
      left.session.constants.valueOf? ['x'] = some (.list []) ∧
      left.session.constants.valueOf? ['y'] = none) ∧
    perform {} .declaration (start "x REM :=".toList) =
      .ok (.flag false) (start "x REM :=".toList) := by
  refine ⟨?_, ?_, ?_⟩
  · have hopens : OpensBinding (follow {} [.declaration, .skip]
        (start "x := @\"a\" x(comment):=[x]".toList)).session.cursor ['x']
        ⟨"[x]".toList, 22, ⟨1, 23⟩⟩ :=
      ⟨[.blockComment []], ⟨by simp, List.all_eq_true.mp rfl⟩, Gap.isInner_blockComment (by simp),
        Text.endsRun_cons (by decide), rfl, rfl⟩
    obtain ⟨constants, _, hperform, hvalueOf, -⟩ :=
      (declaration_all_or_nothing {} _).2.2.2.1 _ _ (.list [.text ['a']]) _ hopens rfl
    exact ⟨constants, _, hperform, hvalueOf ['x']⟩
  · have hperform : perform {} .declaration (follow {} [.declaration, .skip]
        (start "x := [] y := [x".toList)) = .error (.located .expectedListSeparator ⟨1, 16⟩) _ := rfl
    obtain ⟨hconstants, -⟩ := (declaration_all_or_nothing {} _).2.2.2.2.2.1 _ _ hperform
    refine ⟨_, hperform, ?_, ?_⟩
    · rw [hconstants]
      rfl
    · rw [hconstants]
      rfl
  · have hnone : perform {} .declaration (start "x REM :=".toList) = .ok (.flag false) _ := rfl
    refine (declaration_all_or_nothing {} (start "x REM :=".toList)).2.1 ?_ fun hopen => ?_
    · rintro ⟨name, place, hopens⟩
      have hbinds := ((declaration_all_or_nothing {} _).1.2 name place).mpr hopens (pure .null)
      cases hbinds
    · have herror := (declaration_all_or_nothing {} _).2.2.1 hopen
      rw [hnone] at herror
      cases herror

end Walk

end ConfTree
