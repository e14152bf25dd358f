import ConfTree.Proofs.ReadingStep
import ConfTree.Source.Document

/-!
Readings that see nothing but the text still to be read.  Wherever that text stands, such a reading
moves on by the same number of characters and comes to the same verdict, and what it refuses is
located where it stops.  Every reading is of this kind, the attempt at a declaration included,
which moves by nothing if it gives back what it has looked at.
-/

namespace ConfTree

/-- Why a reading stops, apart from the place where it does. -/
inductive Failure where
  | refused (cause : Cause)
  | nestingTooDeep
  | pastEnd

def Failure.errorAt (position : Position) : Failure → ReadError
  | .refused cause => .located cause position
  | .nestingTooDeep => .nestingTooDeep
  | .pastEnd => .pastEnd

/-- What a reading comes to: a result or a failure, reached in a state at a position. -/
def reached {α σ : Type} (position : Position) (state : σ) :
    Except Failure α → EStateM.Result ReadError σ α
  | .ok value => .ok value state
  | .error failure => .error (failure.errorAt position) state

theorem Cursor.advance_min (cursor : Cursor) (count : Nat) :
    cursor.advance (min count cursor.rest.length) = cursor.advance count := by
  rcases Nat.le_total count cursor.rest.length with hle | hle
  · rw [Nat.min_eq_left hle]
  · simp [advance, List.take_of_length_le hle, hle]

theorem Cursor.moves_take (cursor : Cursor) (count : Nat) :
    cursor.Moves (cursor.rest.take count) (cursor.advance count) := by
  refine ⟨?_, ?_⟩
  · rw [rest_advance, List.take_append_drop]
  · rw [List.length_take, advance_min]

namespace Reading

variable {α β : Type}

/-- In front of a text, a reading moves on by a number of characters and comes to a verdict. -/
def Settles (reading : Reading α) (text : Text) (count : Nat)
    (verdict : Except Failure α) : Prop :=
  ∀ cursor : Cursor, cursor.rest = text →
    reading cursor = reached (cursor.advance count).position (cursor.advance count) verdict

/-- A reading settles in front of every text, and within the text. -/
def IsUniform (reading : Reading α) : Prop :=
  ∀ text : Text, ∃ count ≤ text.length, ∃ verdict, reading.Settles text count verdict

theorem isUniform_pure (value : α) : IsUniform (pure value) := by
  refine fun text => ⟨0, Nat.zero_le _, .ok value, fun cursor _ => ?_⟩
  rw [Cursor.advance_zero]
  rfl

theorem isUniform_fail (cause : Cause) : IsUniform (fail cause : Reading α) := by
  refine fun text => ⟨0, Nat.zero_le _, .error (.refused cause), fun cursor _ => ?_⟩
  rw [Cursor.advance_zero]
  rfl

theorem isUniform_nestingTooDeep : IsUniform (nestingTooDeep : Reading α) := by
  refine fun text => ⟨0, Nat.zero_le _, .error .nestingTooDeep, fun cursor _ => ?_⟩
  rw [Cursor.advance_zero]
  rfl

theorem isUniform_next? : IsUniform next? := by
  refine fun text => ⟨0, Nat.zero_le _, .ok text.head?, fun cursor hcursor => ?_⟩
  rw [Cursor.advance_zero, ← hcursor]
  rfl

theorem isUniform_atEnd : IsUniform atEnd := by
  refine fun text => ⟨0, Nat.zero_le _, .ok text.isEmpty, fun cursor hcursor => ?_⟩
  rw [Cursor.advance_zero, ← hcursor]
  rfl

theorem isUniform_current : IsUniform current := by
  intro text
  cases text with
  | nil =>
      refine ⟨0, Nat.zero_le _, .error .pastEnd, fun cursor hcursor => ?_⟩
      simp only [current, hcursor, Cursor.advance_zero, reached, Failure.errorAt]
  | cons c text =>
      refine ⟨0, Nat.zero_le _, .ok c, fun cursor hcursor => ?_⟩
      simp only [current, hcursor, Cursor.advance_zero, reached]

theorem isUniform_advance (count : Nat) : IsUniform (advance count) := by
  refine fun text => ⟨min count text.length, Nat.min_le_right _ _, .ok (), ?_⟩
  rintro cursor rfl
  rw [Cursor.advance_min]
  rfl

theorem isUniform_run (inClass : Char → Bool) : IsUniform (run inClass) := by
  intro text
  refine ⟨(text.takeWhile inClass).length, ?_, .ok (text.takeWhile inClass), ?_⟩
  · exact (List.takeWhile_prefix inClass).length_le
  · rintro cursor rfl
    rfl

theorem Settles.bind {first : Reading α} {next : α → Reading β} {text : Text} {count further : Nat}
    {value : α} {verdict : Except Failure β} (hfirst : first.Settles text count (.ok value))
    (hnext : (next value).Settles (text.drop count) further verdict) :
    (first >>= next).Settles text (count + further) verdict := by
  intro cursor hcursor
  have hrest : (cursor.advance count).rest = text.drop count := by
    rw [Cursor.rest_advance, hcursor]
  rw [bind_of_ok (hfirst cursor hcursor), hnext _ hrest, Cursor.advance_advance]

theorem Settles.bind_of_error {first : Reading α} {text : Text} {count : Nat} {failure : Failure}
    (hfirst : first.Settles text count (.error failure)) (next : α → Reading β) :
    (first >>= next).Settles text count (.error failure) :=
  fun cursor hcursor => Reading.bind_of_error (hfirst cursor hcursor) next

theorem IsUniform.bind {first : Reading α} {next : α → Reading β} (hfirst : IsUniform first)
    (hnext : ∀ value, IsUniform (next value)) : IsUniform (first >>= next) := by
  intro text
  obtain ⟨count, hcount, verdict, hsettles⟩ := hfirst text
  cases verdict with
  | ok value =>
      obtain ⟨further, hfurther, verdict, hthen⟩ := hnext value (text.drop count)
      rw [List.length_drop] at hfurther
      exact ⟨count + further, by omega, verdict, hsettles.bind hthen⟩
  | error failure => exact ⟨count, hcount, .error failure, hsettles.bind_of_error next⟩

theorem IsUniform.map {reading : Reading α} (f : α → β) (h : IsUniform reading) :
    IsUniform (f <$> reading) := by
  rw [map_eq_pure_bind]
  exact h.bind fun value => isUniform_pure (f value)

theorem IsUniform.ite {condition : Prop} [Decidable condition] {yes no : Reading α}
    (hyes : IsUniform yes) (hno : IsUniform no) :
    IsUniform (if condition then yes else no) := by
  split
  · exact hyes
  · exact hno

/-- A reading may also look at all of the text still to be read. -/
theorem isUniform_of_rest {reading : Text → Reading α} (h : ∀ text, IsUniform (reading text)) :
    IsUniform (do
      let cursor ← get
      reading cursor.rest) := by
  intro text
  obtain ⟨count, hcount, verdict, hsettles⟩ := h text text
  refine ⟨count, hcount, verdict, fun cursor hcursor => ?_⟩
  have hget : (get : Reading Cursor) cursor = .ok cursor cursor := rfl
  rw [bind_of_ok hget, hcursor, hsettles cursor hcursor]

/-! The readings one by one. -/

theorem isUniform_skip : IsUniform skip := by
  intro text
  cases hcount : Insignificant.length? .between text with
  | some count =>
      refine ⟨min count text.length, Nat.min_le_right _ _, .ok (), ?_⟩
      rintro cursor rfl
      rw [skip_eq_of_some hcount, Cursor.advance_min]
      rfl
  | none =>
      refine ⟨text.length, Nat.le_refl _, .error (.refused .unterminatedComment), ?_⟩
      rintro cursor rfl
      rw [skip_eq_of_none hcount]
      rfl

theorem isUniform_peek (c : Char) : IsUniform (peek c) :=
  isUniform_skip.bind fun _ => isUniform_next?.bind fun _ => isUniform_pure _

theorem isUniform_accept (c : Char) : IsUniform (accept c) :=
  (isUniform_peek c).bind fun _ =>
    .ite ((isUniform_advance 1).bind fun _ => isUniform_pure _) (isUniform_pure _)

theorem isUniform_expect (c : Char) : IsUniform (expect c) :=
  (isUniform_peek c).bind fun _ => .ite (isUniform_advance 1) (isUniform_fail _)

theorem isUniform_quotedText : IsUniform quotedText :=
  (isUniform_expect '@').bind fun _ => isUniform_next?.bind fun _ =>
    .ite ((isUniform_advance 1).bind fun _ => (isUniform_run _).bind fun _ =>
        isUniform_atEnd.bind fun _ =>
          .ite (isUniform_fail _) ((isUniform_advance 1).bind fun _ => isUniform_pure _))
      (isUniform_fail _)

theorem isUniform_sign : IsUniform sign :=
  isUniform_current.bind fun _ => (isUniform_advance _).bind fun _ => isUniform_pure _

theorem isUniform_number (fractionRequired : Bool) : IsUniform (number fractionRequired) :=
  isUniform_sign.bind fun _ => (isUniform_run _).bind fun _ => isUniform_next?.bind fun _ =>
    .ite
      ((isUniform_advance 1).bind fun _ => (isUniform_run _).bind fun _ =>
        .ite (isUniform_fail _) (isUniform_pure _))
      (.ite (isUniform_fail _) (.ite (isUniform_fail _) (isUniform_pure _)))

theorem isUniform_continues (separator closing : Char) (otherwise : Cause) :
    IsUniform (continues separator closing otherwise) :=
  (isUniform_accept separator).bind fun _ =>
    .ite ((isUniform_accept closing).bind fun _ => isUniform_pure _)
      ((isUniform_accept closing).bind fun _ => .ite (isUniform_pure _) (isUniform_fail _))

section

variable {member : Reading Value} (hmember : IsUniform member)

include hmember

theorem isUniform_items (bound : Nat) : IsUniform (items member bound) := by
  induction bound with
  | zero => exact isUniform_fail _
  | succ bound ih =>
      exact hmember.bind fun _ => (isUniform_continues _ _ _).bind fun _ =>
        .ite (ih.bind fun _ => isUniform_pure _) (isUniform_pure _)

theorem isUniform_list : IsUniform (list member) :=
  (isUniform_expect '[').bind fun _ => (isUniform_accept ']').bind fun _ =>
    .ite (isUniform_pure _)
      (isUniform_of_rest fun text => (isUniform_items hmember text.length).map Value.list)

theorem isUniform_entry : IsUniform (entry member) :=
  isUniform_skip.bind fun _ => (isUniform_run _).bind fun _ =>
    .ite (isUniform_fail _)
      ((isUniform_expect ':').bind fun _ => hmember.bind fun _ => isUniform_pure _)

theorem isUniform_entries (bound : Nat) (before : Entries) :
    IsUniform (entries member bound before) := by
  induction bound generalizing before with
  | zero => exact isUniform_fail _
  | succ bound ih =>
      exact (isUniform_entry hmember).bind fun _ => (isUniform_continues _ _ _).bind fun _ =>
        .ite (ih _) (isUniform_pure _)

theorem isUniform_mapping : IsUniform (mapping member) :=
  (isUniform_expect '\x7b').bind fun _ => (isUniform_accept '\x7d').bind fun _ =>
    .ite (isUniform_pure _)
      (isUniform_of_rest fun text => (isUniform_entries hmember text.length []).map Value.mapping)

end

theorem isUniform_evaluateWord (constants : Constants) (word : Text) (stack : OperandStack) :
    IsUniform (evaluateWord constants word stack) := by
  unfold evaluateWord
  split
  · exact isUniform_pure _
  · exact isUniform_fail _

theorem isUniform_finished (stack : OperandStack) : IsUniform (finished stack) := by
  unfold finished
  split
  · exact isUniform_pure _
  · exact isUniform_fail _

theorem isUniform_words (constants : Constants) (bound : Nat) (stack : OperandStack) :
    IsUniform (words constants bound stack) := by
  induction bound generalizing stack with
  | zero => exact isUniform_fail _
  | succ bound ih =>
      refine (isUniform_run _).bind fun word => isUniform_next?.bind fun next => ?_
      cases next with
      | none => exact isUniform_fail _
      | some delimiter =>
          exact (isUniform_evaluateWord constants word stack).bind fun after =>
            (isUniform_advance 1).bind fun _ => .ite (isUniform_finished after) (ih after)

theorem isUniform_expression (constants : Constants) : IsUniform (expression constants) :=
  (isUniform_expect '|').bind fun _ =>
    isUniform_of_rest fun text => isUniform_words constants text.length []

theorem isUniform_reference (constants : Constants) : IsUniform (reference constants) := by
  refine (isUniform_run _).bind fun name => ?_
  cases constants.valueOf? name with
  | none => exact isUniform_fail _
  | some value => exact isUniform_pure value

theorem isUniform_valueWith (settings : Settings) (constants : Constants) {member : Reading Value}
    (hmember : IsUniform member) : IsUniform (valueWith settings constants member) := by
  refine isUniform_skip.bind fun _ => isUniform_next?.bind fun next => ?_
  cases next with
  | none => exact isUniform_fail _
  | some c =>
      exact .ite isUniform_quotedText <| .ite (isUniform_list hmember) <|
        .ite (isUniform_mapping hmember) <| .ite (isUniform_expression constants) <|
        .ite (isUniform_number _) <| .ite (isUniform_reference constants) (isUniform_fail _)

theorem isUniform_valueWithin (settings : Settings) (constants : Constants) (depth : Nat) :
    IsUniform (valueWithin settings constants depth) := by
  induction depth with
  | zero => exact isUniform_nestingTooDeep
  | succ depth ih => exact isUniform_valueWith settings constants ih

theorem isUniform_member (settings : Settings) (constants : Constants) :
    IsUniform (member settings constants) :=
  isUniform_valueWithin settings constants nestingLimit

theorem isUniform_value (settings : Settings) (constants : Constants) :
    IsUniform (value settings constants) :=
  isUniform_valueWith settings constants (isUniform_member settings constants)

end Reading

end ConfTree
