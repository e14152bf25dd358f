import ConfTree.Proofs.CursorPlace
import ConfTree.Proofs.ReadingProgress

/-!
How far the steps of a walk get, and why reading a document comes to an end.  A pass over the items
of a document may return to where it has begun to look for a declaration, but then it reads a value
there, so it goes on only if something has been read.
-/

namespace ConfTree

namespace SessionReading

open Reading

variable {α β : Type} {settings : Settings} {session : Session} {last : Value}

theorem gains_ofReading {reading : Constants → Reading α} {least : Nat}
    (h : Gains id least session.cursor (reading session.constants session.cursor)) :
    Gains Session.cursor least session (ofReading reading session) := by
  cases hread : reading session.constants session.cursor with
  | ok result cursor =>
      rw [hread] at h
      rw [ofReading_of_ok hread]
      exact h
  | error error cursor =>
      rw [hread] at h
      rw [ofReading_of_error hread]
      exact h

theorem IsUniform.gains {reading : SessionReading α} (h : IsUniform reading) (session : Session) :
    Gains Session.cursor 0 session (reading session) := by
  obtain ⟨count, -, after, verdict, hsettles⟩ := h session.cursor.rest session.constants
  have hmoves := session.cursor.moves_take count
  rw [hsettles session.cursor rfl]
  cases verdict with
  | ok value => exact ⟨_, Nat.zero_le _, hmoves⟩
  | error failure => exact ⟨_, Nat.zero_le _, hmoves⟩

theorem reaches_of_declaration {after : Session}
    (h : declaration settings session = .ok true after) :
    session.cursor.Reaches 1 after.cursor := by
  rcases exists_of_declaration h with ⟨-, name, value, hread, -⟩ | ⟨hfalse, -⟩
  · obtain ⟨beforeMarker, beforeValue, term, hitem, -, hmoves, -⟩ :=
      exists_item_of_declaration? hread
    obtain ⟨c, tail, hwritten, -⟩ := Item.exists_cons_of_isValid hitem
    exact ⟨_, by simp [hwritten], hmoves⟩
  · cases hfalse

theorem gains_item (settings : Settings) (last : Value) (session : Session) :
    Gains Session.cursor 1 session (item settings last session) := by
  refine ((isUniform_item settings last).gains session).of_ok fun value after hok => ?_
  obtain ⟨gap, written, -, hwritten, -, hmoves, -⟩ := exists_item hok
  obtain ⟨c, tail, htext, -⟩ := Item.exists_cons_of_isValid hwritten
  have hne : gap.text ++ written.written ≠ [] := by simp [htext]
  exact ⟨_, List.length_pos_of_ne_nil hne, hmoves⟩

def documentPass (settings : Settings) (last : Value) : SessionReading (ForInStep Value) := do
  ofReading fun _ => skip
  if ← ofReading fun _ => atEnd then
    pure (.done last)
  else
    .yield <$> item settings last

theorem items_succ_pass (settings : Settings) (bound : Nat) (last : Value) :
    items settings (bound + 1) last =
      (documentPass settings last >>= Loops.continueWith (items settings bound)) := by
  rw [items_succ, documentPass, bind_assoc]
  refine bind_congr fun _ => ?_
  rw [bind_assoc]
  refine bind_congr fun ended => ?_
  cases ended with
  | true => rfl
  | false => simp [Loops.continueWith]

/-- What one pass comes to: it ends at the end of the text, goes on behind a character at least, or
fails without going back. -/
def PassesFrom (last : Value) (session : Session) :
    EStateM.Result ReadError Session (ForInStep Value) → Prop
  | .ok (.done found) after => found = last ∧ after.cursor.rest = [] ∧
      session.cursor.Reaches 0 after.cursor
  | .ok (.yield _) after => session.cursor.Reaches 1 after.cursor
  | .error _ left => session.cursor.Reaches 0 left.cursor

theorem passesFrom_documentPass (settings : Settings) (last : Value) (session : Session) :
    PassesFrom last session (documentPass settings last session) := by
  have hskips := (isUniform_ofReading fun _ => isUniform_skip).gains session
  rw [documentPass]
  cases hskip : ofReading (fun _ => skip) session with
  | error error left =>
      rw [hskip] at hskips
      rw [bind_of_error hskip]
      exact hskips
  | ok _ here =>
      rw [hskip] at hskips
      have hend : ofReading (fun _ => atEnd) here = .ok here.cursor.rest.isEmpty here := rfl
      rw [bind_of_ok hskip, bind_of_ok hend]
      cases hrest : here.cursor.rest.isEmpty with
      | true => exact ⟨rfl, List.isEmpty_iff.mp hrest, hskips⟩
      | false =>
          have hitem := gains_item settings last here
          change PassesFrom last session ((ForInStep.yield <$> item settings last) here)
          rw [map_eq_pure_bind]
          cases hread : item settings last here with
          | ok value after =>
              rw [hread] at hitem
              rw [bind_of_ok hread]
              exact (Cursor.Reaches.trans hskips hitem).mono (Nat.le_add_left _ _)
          | error error left =>
              rw [hread] at hitem
              rw [bind_of_error hread]
              exact Cursor.Reaches.trans hskips hitem

theorem exists_loops_document (settings : Settings) (session : Session) :
    (∃ count ≤ session.cursor.rest.length + 1,
      Loops (documentPass settings) count .null session (document settings session)) ∧
    ∀ value after, document settings session = .ok value after →
      session.cursor.Moves session.cursor.rest after.cursor := by
  have hloops : ∃ count ≤ session.cursor.rest.length + 1,
      Loops (documentPass settings) count .null session (document settings session) := by
    refine exists_loops_of_bounded (fun place : Session => place.cursor.rest.length) ?_
      (items settings)
      (fun bound last place => congrFun (items_succ_pass settings bound last) place) .null (Nat.lt_succ_self _)
    intro last next place between hyield
    have hpass := passesFrom_documentPass settings last place
    rw [hyield] at hpass
    exact Cursor.Reaches.length_rest_le hpass
  refine ⟨hloops, fun value after hread => ?_⟩
  have hgains := (isUniform_document settings).gains session
  obtain ⟨count, -, hloops⟩ := hloops
  rw [hread] at hloops hgains
  obtain ⟨last, place, hdone⟩ := hloops.exists_last_pass
  have hpass := passesFrom_documentPass settings last place
  rw [hdone] at hpass
  obtain ⟨taken, -, hmoves⟩ := hgains
  have htaken : session.cursor.rest = taken := by rw [hmoves.1, hpass.2.1, List.append_nil]
  rwa [htaken]

end SessionReading

namespace Walk

open SessionReading Reading

variable {settings : Settings}

def Step.ReadsValue : Step → Prop
  | .value | .quotedText | .number | .list | .mapping | .expression => True
  | _ => False

def cursor (walk : Walk) : Cursor :=
  walk.session.cursor

theorem gains_resume {α : Type} {walk : Walk} {least : Nat} (answer : α → Reply)
    {result : EStateM.Result ReadError Session α}
    (h : Gains Session.cursor least walk.session result) :
    Gains cursor least walk (walk.resume answer result) := by
  cases result with
  | ok value session => exact h
  | error error session => exact h

theorem gains_perform_of_ofReading {walk : Walk} {step : Step} {reading : Constants → Reading Value}
    (hstep : step.ReadsValue) (hreply : reply settings step = .value <$> .ofReading reading)
    (h : Gains id 1 walk.session.cursor (reading walk.session.constants walk.session.cursor)) :
    Gains cursor 1 walk (perform settings step walk) := by
  have hsave : step ≠ .save := by rintro rfl; exact hstep
  have hrestore : ∀ slot, step ≠ .restore slot := by rintro slot rfl; exact hstep
  rw [perform_eq_resume hsave hrestore hreply]
  exact gains_resume _ (gains_ofReading h)

theorem gains_perform {walk : Walk} {step : Step} (hstep : step.ReadsValue) :
    Gains cursor 1 walk (perform settings step walk) := by
  cases step with
  | value =>
      exact gains_perform_of_ofReading hstep rfl (gains_valueWithin settings _ (nestingLimit + 1) _)
  | quotedText => exact gains_perform_of_ofReading hstep rfl (gains_quotedText _)
  | number => exact gains_perform_of_ofReading hstep rfl (gains_number _ _)
  | list => exact gains_perform_of_ofReading hstep rfl (gains_list settings _ nestingLimit _)
  | mapping => exact gains_perform_of_ofReading hstep rfl (gains_mapping settings _ nestingLimit _)
  | expression => exact gains_perform_of_ofReading hstep rfl (gains_expression _ _)
  | _ => exact hstep.elim

theorem reaches_of_perform_declaration {walk after : Walk}
    (h : perform settings .declaration walk = .ok (.flag true) after) :
    walk.cursor.Reaches 1 after.cursor := by
  rw [perform_declaration] at h
  cases hread : declaration settings walk.session with
  | ok declared session =>
      rw [hread] at h
      obtain ⟨hflag, rfl⟩ := EStateM.Result.ok.inj h
      obtain rfl := Reply.flag.inj hflag
      exact reaches_of_declaration hread
  | error error session =>
      rw [hread] at h
      cases h

/-- From wherever a walk has got, a step that reads a value gets over a character at least, and so
does a declaration that is found; none goes back when it fails.  So every pass over the members of a
collection reads something, at whatever depth, and so does every pass over the items of a document
but the one that finds the end.  All these loops end after at most as many passes as there are
characters to be read and one more, and a document that is read is read to the end of the text. -/
theorem steps_get_on (settings : Settings) (walk : Walk) :
    (∀ step : Step, step.ReadsValue → Gains cursor 1 walk (perform settings step walk)) ∧
    (Gains cursor 0 walk (perform settings .declaration walk) ∧
      ∀ after, perform settings .declaration walk = .ok (.flag true) after →
        walk.cursor.Reaches 1 after.cursor) ∧
    (∀ constants depth place,
      (∀ before, Gains id 1 place (itemPass (valueWithin settings constants depth) before place)) ∧
      (∀ before, Gains id 1 place (entryPass (valueWithin settings constants depth) before place)) ∧
      (∃ count ≤ place.rest.length + 1,
        Loops (itemPass (valueWithin settings constants (depth + 1))) count [] place
          (items (valueWithin settings constants (depth + 1)) place.rest.length place)) ∧
      ∃ count ≤ place.rest.length + 1,
        Loops (entryPass (valueWithin settings constants depth)) count [] place
          (entries (valueWithin settings constants depth) place.rest.length [] place)) ∧
    (∀ last session, PassesFrom last session (documentPass settings last session)) ∧
    perform settings .document walk = walk.resume .value (document settings walk.session) ∧
    (∃ count ≤ walk.cursor.rest.length + 1,
      Loops (documentPass settings) count .null walk.session (document settings walk.session)) ∧
    ∀ value after, document settings walk.session = .ok value after →
      walk.cursor.Moves walk.cursor.rest after.cursor ∧ after.cursor.rest = [] := by
  refine ⟨fun step => gains_perform, ⟨?_, fun after => reaches_of_perform_declaration⟩,
    fun constants depth place => ?_, passesFrom_documentPass settings,
    perform_document settings walk, (exists_loops_document settings walk.session).1,
    fun value after hread => ?_⟩
  · rw [perform_declaration]
    exact gains_resume _ ((isUniform_declaration settings).gains walk.session)
  · exact ⟨fun before => gains_itemPass settings constants depth before place,
      fun before => gains_entryPass settings constants depth before place,
      exists_loops_items settings constants depth place,
      exists_loops_entries settings constants depth place⟩
  · have hall := (exists_loops_document settings walk.session).2 value after hread
    exact ⟨hall, List.self_eq_append_right.mp hall.1⟩

theorem steps_get_on_declaration :
    ∃ after later : Walk,
      perform {} .declaration (start "x := @\"a\" [x]".toList) = .ok (.flag true) after ∧
      0 < after.cursor.offset ∧
      perform {} .list after = .ok (.value (.list [.text ['a']])) later ∧
      after.cursor.offset < later.cursor.offset ∧
      document {} (.start "x := @\"a\" [x]".toList []) = .ok (.list [.text ['a']]) later.session ∧
      later.cursor.rest = [] := by
  have hdeclared : perform {} .declaration (start "x := @\"a\" [x]".toList) =
      .ok (.flag true) ⟨⟨⟨" [x]".toList, 9, ⟨1, 10⟩⟩, [("x".toList, .text ['a'])]⟩, []⟩ := rfl
  have hlist : perform {} .list ⟨⟨⟨" [x]".toList, 9, ⟨1, 10⟩⟩, [("x".toList, .text ['a'])]⟩, []⟩ =
      .ok (.value (.list [.text ['a']]))
        ⟨⟨⟨[], 13, ⟨1, 14⟩⟩, [("x".toList, .text ['a'])]⟩, []⟩ := rfl
  have hdocument : document {} (.start "x := @\"a\" [x]".toList []) =
      .ok (.list [.text ['a']]) ⟨⟨[], 13, ⟨1, 14⟩⟩, [("x".toList, .text ['a'])]⟩ := rfl
  obtain ⟨-, ⟨-, hreaches⟩, -, -, -, -, hend⟩ := steps_get_on {} (start "x := @\"a\" [x]".toList)
  have hgains := (steps_get_on {}
    ⟨⟨⟨" [x]".toList, 9, ⟨1, 10⟩⟩, [("x".toList, .text ['a'])]⟩, []⟩).1 .list trivial
  rw [hlist] at hgains
  exact ⟨_, _, hdeclared, (hreaches _ hdeclared).offset_le, hlist,
    Cursor.Reaches.offset_le hgains, hdocument, (hend _ _ hdocument).2⟩

end Walk

end ConfTree
