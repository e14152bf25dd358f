import ConfTree.Proofs.DocumentProgress
import ConfTree.Proofs.StrictNumbers

/-!
What readings refuse.  A refusal has a cause and is located at the cursor where reading stops, with
two exceptions.  Where lists and mappings open inside each other beyond the limit, reading stops
without a cause, and a number needs a character to begin with.
-/

namespace ConfTree

def ReadError.IsLocatedAt (error : ReadError) (cursor : Cursor) : Prop :=
  ∃ cause, error = .located cause cursor.position

namespace Reading

variable {α β : Type} {settings : Settings} {constants : Constants} {member : Reading Value}
  {cursor left : Cursor} {error : ReadError}

/-! Readings with located refusals only. -/

def IsLocated (reading : Reading α) : Prop :=
  ∀ cursor error left, reading cursor = .error error left → error.IsLocatedAt left

theorem isLocated_of_ok {reading : Reading α}
    (h : ∀ cursor, ∃ value after, reading cursor = .ok value after) : IsLocated reading := by
  intro cursor error left hread
  obtain ⟨value, after, hok⟩ := h cursor
  rw [hok] at hread
  cases hread

theorem isLocated_pure (value : α) : IsLocated (pure value) :=
  isLocated_of_ok fun cursor => ⟨value, cursor, rfl⟩

theorem isLocated_fail (cause : Cause) : IsLocated (fail cause : Reading α) := by
  intro cursor error left h
  cases h
  exact ⟨cause, rfl⟩

theorem isLocated_next? : IsLocated next? :=
  isLocated_of_ok fun _ => ⟨_, _, rfl⟩

theorem isLocated_atEnd : IsLocated atEnd :=
  isLocated_of_ok fun _ => ⟨_, _, rfl⟩

theorem isLocated_advance (count : Nat) : IsLocated (advance count) :=
  isLocated_of_ok fun _ => ⟨_, _, rfl⟩

theorem isLocated_run (inClass : Char → Bool) : IsLocated (run inClass) :=
  isLocated_of_ok fun _ => ⟨_, _, rfl⟩

theorem IsLocated.bind {first : Reading α} {next : α → Reading β} (hfirst : IsLocated first)
    (hnext : ∀ value, IsLocated (next value)) : IsLocated (first >>= next) := by
  intro cursor error left h
  rcases exists_of_bind_eq_error h with hstop | ⟨value, between, -, hstop⟩
  · exact hfirst cursor error left hstop
  · exact hnext value between error left hstop

theorem IsLocated.ite {condition : Prop} [Decidable condition] {yes no : Reading α}
    (hyes : IsLocated yes) (hno : IsLocated no) : IsLocated (if condition then yes else no) := by
  split
  · exact hyes
  · exact hno

theorem isLocated_of_cursor {reading : Cursor → Reading α} (h : ∀ start, IsLocated (reading start)) :
    IsLocated (do
      let cursor ← get
      reading cursor) :=
  fun cursor => h cursor cursor

theorem isLocated_skip : IsLocated skip := by
  refine isLocated_of_cursor fun start => ?_
  cases Insignificant.length? .between start.rest with
  | some count => exact isLocated_advance count
  | none => exact (isLocated_advance _).bind fun _ => isLocated_fail _

theorem isLocated_peek (c : Char) : IsLocated (peek c) :=
  isLocated_skip.bind fun _ => isLocated_next?.bind fun _ => isLocated_pure _

theorem isLocated_accept (c : Char) : IsLocated (accept c) :=
  (isLocated_peek c).bind fun _ =>
    .ite ((isLocated_advance 1).bind fun _ => isLocated_pure _) (isLocated_pure _)

theorem isLocated_expect (c : Char) : IsLocated (expect c) :=
  (isLocated_peek c).bind fun _ => .ite (isLocated_advance 1) (isLocated_fail _)

theorem isLocated_quotedText : IsLocated quotedText :=
  (isLocated_expect '@').bind fun _ => isLocated_next?.bind fun _ =>
    .ite ((isLocated_advance 1).bind fun _ => (isLocated_run _).bind fun _ =>
        isLocated_atEnd.bind fun _ =>
          .ite (isLocated_fail _) ((isLocated_advance 1).bind fun _ => isLocated_pure _))
      (isLocated_fail _)

theorem isLocated_continues (separator closing : Char) (otherwise : Cause) :
    IsLocated (continues separator closing otherwise) :=
  (isLocated_accept separator).bind fun _ =>
    .ite ((isLocated_accept closing).bind fun _ => isLocated_pure _)
      ((isLocated_accept closing).bind fun _ => .ite (isLocated_pure _) (isLocated_fail _))

theorem isLocated_evaluateWord (constants : Constants) (word : Text) (stack : OperandStack) :
    IsLocated (evaluateWord constants word stack) := by
  unfold evaluateWord
  split
  · exact isLocated_pure _
  · exact isLocated_fail _

theorem isLocated_finished (stack : OperandStack) : IsLocated (finished stack) := by
  unfold finished
  split
  · exact isLocated_pure _
  · exact isLocated_fail _

theorem isLocated_words (constants : Constants) (bound : Nat) (stack : OperandStack) :
    IsLocated (words constants bound stack) := by
  induction bound generalizing stack with
  | zero => exact isLocated_fail _
  | succ bound ih =>
      refine (isLocated_run _).bind fun word => isLocated_next?.bind fun next => ?_
      cases next with
      | none => exact isLocated_fail _
      | some delimiter =>
          exact (isLocated_evaluateWord constants word stack).bind fun after =>
            (isLocated_advance 1).bind fun _ => .ite (isLocated_finished after) (ih after)

theorem isLocated_expression (constants : Constants) : IsLocated (expression constants) :=
  (isLocated_expect '|').bind fun _ => isLocated_of_cursor fun _ => isLocated_words constants _ []

theorem isLocated_reference (constants : Constants) : IsLocated (reference constants) := by
  refine (isLocated_run _).bind fun name => ?_
  cases constants.valueOf? name with
  | none => exact isLocated_fail _
  | some value => exact isLocated_pure value

/-! Numbers. -/

theorem current_of_end (hend : cursor.rest = []) : current cursor = .error .pastEnd cursor := by
  simp only [current, hend]

theorem number_of_end (fractionRequired : Bool) (hend : cursor.rest = []) :
    number fractionRequired cursor = .error .pastEnd cursor := by
  have hsign : sign cursor = .error .pastEnd cursor := bind_of_error (current_of_end hend) _
  rw [number, bind_of_error hsign]

theorem isLocatedAt_of_number {fractionRequired : Bool} (hmore : cursor.rest ≠ [])
    (h : number fractionRequired cursor = .error error left) : error.IsLocatedAt left := by
  obtain ⟨c, tail, hrest⟩ := List.exists_cons_of_ne_nil hmore
  rw [number, bind_of_ok (exists_sign (by rw [hrest]; rfl))] at h
  refine IsLocated.bind (isLocated_run _) (fun whole => isLocated_next?.bind fun next => ?_) _ _ _ h
  exact .ite
    ((isLocated_advance 1).bind fun _ => (isLocated_run _).bind fun _ =>
      .ite (isLocated_fail _) (isLocated_pure _))
    (.ite (isLocated_fail _) (.ite (isLocated_fail _) (isLocated_pure _)))

/-! Where members begin. -/

/-- An item of a list, read from a cursor on, begins at a place: there or behind a separator. -/
inductive ItemAt (member : Reading Value) : Cursor → Cursor → Prop where
  | first (cursor : Cursor) : ItemAt member cursor cursor
  | further {cursor between next place : Cursor} {item : Value}
      (hitem : member cursor = .ok item between)
      (hcontinues : continues ';' ']' .expectedListSeparator between = .ok true next)
      (hplace : ItemAt member next place) : ItemAt member cursor place

def key : Reading Text := do
  skip
  let key ← name
  if key = [] then
    fail .expectedName
  else
    expect ':'
    pure key

/-- The value of an entry of a mapping, read from a cursor on, begins at a place: behind the key
there or behind the key of a further entry. -/
inductive EntryAt (member : Reading Value) : Cursor → Cursor → Prop where
  | first {cursor place : Cursor} {found : Text} (hkey : key cursor = .ok found place) :
      EntryAt member cursor place
  | further {cursor between next place : Cursor} {found : Text × Value}
      (hentry : entry member cursor = .ok found between)
      (hcontinues : continues ',' '\x7d' .expectedMappingSeparator between = .ok true next)
      (hplace : EntryAt member next place) : EntryAt member cursor place

def Opens (opening closing : Char) (cursor first : Cursor) : Prop :=
  ∃ opened, expect opening cursor = .ok () opened ∧ accept closing opened = .ok false first

/-- A list or mapping opens at a cursor, and while it is open one of its members begins at a
place. -/
def Encloses (member : Reading Value) (cursor place : Cursor) : Prop :=
  (∃ first, Opens '[' ']' cursor first ∧ ItemAt member first place) ∨
    ∃ first, Opens '\x7b' '\x7d' cursor first ∧ EntryAt member first place

theorem isLocated_key : IsLocated key :=
  isLocated_skip.bind fun _ => (isLocated_run _).bind fun _ =>
    .ite (isLocated_fail _) ((isLocated_expect ':').bind fun _ => isLocated_pure _)

theorem entry_eq (member : Reading Value) :
    entry member = (do
      let key ← key
      let value ← member
      pure (key, value)) := by
  rw [entry, key, bind_assoc]
  congr 1
  funext _
  rw [bind_assoc]
  congr 1
  funext found
  split
  · rfl
  · rw [bind_assoc]
    rfl

theorem refused_of_entry (h : entry member cursor = .error error left) :
    error.IsLocatedAt left ∨
      ∃ found place, key cursor = .ok found place ∧ member place = .error error left := by
  rw [entry_eq] at h
  rcases exists_of_bind_eq_error h with hkey | ⟨found, place, hkey, hrest⟩
  · exact .inl (isLocated_key cursor error left hkey)
  · rcases exists_of_bind_eq_error hrest with hvalue | ⟨value, between, -, hpure⟩
    · exact .inr ⟨found, place, hkey, hvalue⟩
    · cases hpure

theorem refused_of_items {bound : Nat} (h : items member bound cursor = .error error left) :
    error.IsLocatedAt left ∨ ∃ place, ItemAt member cursor place ∧
      member place = .error error left := by
  induction bound generalizing cursor with
  | zero => exact .inl (isLocated_fail _ cursor error left h)
  | succ bound ih =>
      rcases exists_of_bind_eq_error h with hitem | ⟨item, between, hitem, hmore⟩
      · exact .inr ⟨cursor, .first cursor, hitem⟩
      · rcases exists_of_bind_eq_error hmore with hstop | ⟨further, next, hcontinues, hrest⟩
        · exact .inl (isLocated_continues _ _ _ between error left hstop)
        · cases further with
          | false => cases hrest
          | true =>
              rcases exists_of_bind_eq_error hrest with hitems | ⟨_, _, -, hpure⟩
              · exact (ih hitems).imp_right fun ⟨place, hplace, hmember⟩ =>
                  ⟨place, .further hitem hcontinues hplace, hmember⟩
              · cases hpure

theorem refused_of_entries {bound : Nat} {before : Entries}
    (h : entries member bound before cursor = .error error left) :
    error.IsLocatedAt left ∨ ∃ place, EntryAt member cursor place ∧
      member place = .error error left := by
  induction bound generalizing cursor before with
  | zero => exact .inl (isLocated_fail _ cursor error left h)
  | succ bound ih =>
      rcases exists_of_bind_eq_error h with hentry | ⟨found, between, hentry, hmore⟩
      · exact (refused_of_entry hentry).imp_right fun ⟨_, place, hkey, hmember⟩ =>
          ⟨place, .first hkey, hmember⟩
      · rcases exists_of_bind_eq_error hmore with hstop | ⟨further, next, hcontinues, hrest⟩
        · exact .inl (isLocated_continues _ _ _ between error left hstop)
        · cases further with
          | false => cases hrest
          | true =>
              exact (ih hrest).imp_right fun ⟨place, hplace, hmember⟩ =>
                ⟨place, .further hentry hcontinues hplace, hmember⟩

theorem refused_of_brackets {opening closing : Char} {empty : β} {wrap : α → β}
    (loop : Nat → Reading α)
    (h : (do
      expect opening
      if ← accept closing then
        pure empty
      else
        let cursor ← get
        wrap <$> loop cursor.rest.length : Reading β) cursor = .error error left) :
    error.IsLocatedAt left ∨ ∃ first, Opens opening closing cursor first ∧
      loop first.rest.length first = .error error left := by
  rcases exists_of_bind_eq_error h with hstop | ⟨_, opened, hopened, hmore⟩
  · exact .inl (isLocated_expect _ cursor error left hstop)
  · rcases exists_of_bind_eq_error hmore with hstop | ⟨closed, first, hclosed, hrest⟩
    · exact .inl (isLocated_accept _ opened error left hstop)
    · cases closed with
      | true => cases hrest
      | false =>
          have hmap : (wrap <$> loop first.rest.length) first = .error error left := hrest
          exact .inr ⟨first, ⟨opened, hopened, hclosed⟩, error_of_map hmap⟩

theorem refused_of_list (h : list member cursor = .error error left) :
    error.IsLocatedAt left ∨ ∃ place, Encloses member cursor place ∧
      member place = .error error left := by
  rcases refused_of_brackets (items member) h with hlocated | ⟨first, hopens, hitems⟩
  · exact .inl hlocated
  · exact (refused_of_items hitems).imp_right fun ⟨place, hplace, hmember⟩ =>
      ⟨place, .inl ⟨first, hopens, hplace⟩, hmember⟩

theorem refused_of_mapping (h : mapping member cursor = .error error left) :
    error.IsLocatedAt left ∨ ∃ place, Encloses member cursor place ∧
      member place = .error error left := by
  rcases refused_of_brackets (fun bound => entries member bound []) h with
    hlocated | ⟨first, hopens, hentries⟩
  · exact .inl hlocated
  · exact (refused_of_entries hentries).imp_right fun ⟨place, hplace, hmember⟩ =>
      ⟨place, .inr ⟨first, hopens, hplace⟩, hmember⟩

/-! Values. -/

/-- From a cursor on, a number of lists and mappings open inside each other. -/
inductive Nests (settings : Settings) (constants : Constants) : Nat → Cursor → Prop where
  | none (cursor : Cursor) : Nests settings constants 0 cursor
  | inside {depth : Nat} {cursor place : Cursor}
      (hencloses : Encloses (valueWithin settings constants depth) cursor place)
      (hplace : Nests settings constants depth place) : Nests settings constants (depth + 1) cursor

theorem expect_of_skip {c : Char} {here : Cursor} (hskip : skip cursor = .ok () here) :
    expect c cursor = expect c here := by
  obtain ⟨_, -, _, -, -, habsent⟩ := ensures_skip cursor here () hskip
  have hstay : skip here = .ok () here := by
    rw [skip_eq_of_some habsent, advance, Cursor.advance_zero]
  have hpeek : peek c cursor = peek c here := by
    rw [peek, bind_of_ok hskip, bind_of_ok hstay]
  change EStateM.bind _ _ _ = EStateM.bind _ _ _
  rw [EStateM.bind, EStateM.bind, hpeek]

theorem Encloses.of_skip {here place : Cursor} (h : Encloses member here place)
    (hskip : skip cursor = .ok () here) : Encloses member cursor place := by
  simpa only [Encloses, Opens, expect_of_skip hskip] using h

theorem refused_of_valueWith (h : valueWith settings constants member cursor = .error error left) :
    error.IsLocatedAt left ∨ ∃ place, Encloses member cursor place ∧
      member place = .error error left := by
  rcases exists_of_bind_eq_error h with hstop | ⟨_, here, hskip, hmore⟩
  · exact .inl (isLocated_skip cursor error left hstop)
  · obtain ⟨next, _, hnext, hform⟩ | hstop := (exists_of_bind_eq_error hmore).symm
    · obtain ⟨hhead, rfl⟩ := eq_of_next? hnext
      have hinside : (∃ place, Encloses member here place ∧ member place = .error error left) →
          ∃ place, Encloses member cursor place ∧ member place = .error error left :=
        fun ⟨place, hplace, hmember⟩ => ⟨place, hplace.of_skip hskip, hmember⟩
      cases next with
      | none => exact .inl (isLocated_fail _ here error left hform)
      | some c =>
          have hmore : here.rest ≠ [] := by
            intro hnil
            simp [hnil] at hhead
          dsimp only at hform
          split at hform
          · exact .inl (isLocated_quotedText here error left hform)
          split at hform
          · exact (refused_of_list hform).imp_right hinside
          split at hform
          · exact (refused_of_mapping hform).imp_right hinside
          split at hform
          · exact .inl (isLocated_expression constants here error left hform)
          split at hform
          · exact .inl (isLocatedAt_of_number hmore hform)
          · exact .inl (IsLocated.ite (isLocated_reference constants) (isLocated_fail _)
              here error left hform)
    · cases hstop

/-- What a value refuses is located, unless as many literals open inside each other as there is
room for. -/
theorem refused_of_valueWithin {depth : Nat}
    (h : valueWithin settings constants depth cursor = .error error left) :
    error.IsLocatedAt left ∨ error = .nestingTooDeep ∧ Nests settings constants depth cursor := by
  -- On the depth: a refused member stands one bracket further inside.
  induction depth generalizing cursor with
  | zero =>
      cases h
      exact .inr ⟨rfl, .none left⟩
  | succ depth ih =>
      rcases refused_of_valueWith h with hlocated | ⟨place, hencloses, hmember⟩
      · exact .inl hlocated
      · exact (ih hmember).imp_right fun ⟨herror, hplace⟩ => ⟨herror, .inside hencloses hplace⟩

end Reading

end ConfTree
