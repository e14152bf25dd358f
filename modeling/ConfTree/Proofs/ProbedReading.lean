import ConfTree.Proofs.UniformDocument

/-!
Reading values with the reader of numbers as a parameter.  A parameter that fails at a single place
tells whether a run comes to that place: then its failure is the failure of the whole run.  This
compares the run where fractions are required with the run where they are not: both go the same way
until the former is refused for a number, and the latter comes to this number as well.
-/

namespace ConfTree

/-- A parameter of readings that is looked at in two of its values, and in those that fail at one
place only. -/
structure Probing (ρ σ : Type) where
  /-- Where the parameter may be run. -/
  Place : Type
  lax : ρ
  strict : ρ
  /-- A place that may still come, seen from a state. -/
  Ahead : σ → Place → Prop
  /-- A parameter fails at a place, and is the lax one everywhere else. -/
  FailsAt : ρ → Place → ReadError → σ → Prop
  /-- How the strict parameter is refused at a place. -/
  Refused : Place → ReadError → σ → Prop

namespace Probing

open Reading

variable {ρ σ α β : Type} {probing : Probing ρ σ}

/-- What the parameter decides about a reading.  Where it fails at a single place, the reading does
not notice or fails likewise.  Where it is strict, the reading does not notice or is refused at a
place, and any failure there would have been its own. -/
structure IsFaithful (probing : Probing ρ σ) (reading : ρ → EStateM ReadError σ α) : Prop where
  ahead : ∀ {start value after}, reading probing.lax start = .ok value after →
    ∀ place, probing.Ahead after place → probing.Ahead start place
  probed : ∀ {reader place error left}, probing.FailsAt reader place error left → ∀ start,
    reading reader start = reading probing.lax start ∨ reading reader start = .error error left
  follows : ∀ start, reading probing.strict start = reading probing.lax start ∨
    ∃ place error left, probing.Ahead start place ∧ probing.Refused place error left ∧
      reading probing.strict start = .error error left ∧
      ∀ {reader error left}, probing.FailsAt reader place error left →
        reading reader start = .error error left

theorem isFaithful_pure (value : α) :
    probing.IsFaithful fun _ => (pure value : EStateM ReadError σ α) where
  ahead := by
    rintro start _ after h place hplace
    obtain ⟨-, rfl⟩ := EStateM.Result.ok.inj h
    exact hplace
  probed := fun _ _ => .inl rfl
  follows := fun _ => .inl rfl

theorem IsFaithful.bind {first : ρ → EStateM ReadError σ α}
    {next : ρ → α → EStateM ReadError σ β} (hfirst : probing.IsFaithful first)
    (hnext : ∀ value, probing.IsFaithful fun reader => next reader value) :
    probing.IsFaithful fun reader => first reader >>= next reader where
  ahead := by
    intro start result after h place hplace
    obtain ⟨value, between, hread, h⟩ := exists_of_bind_eq_ok h
    exact hfirst.ahead hread place ((hnext value).ahead h place hplace)
  probed := by
    intro reader place error left hfails start
    rcases hfirst.probed hfails start with hsame | hstop
    · cases hread : first probing.lax start with
      | ok value between =>
          rw [bind_of_ok (hsame.trans hread), bind_of_ok hread]
          exact (hnext value).probed hfails between
      | error stop between =>
          left
          rw [bind_of_error (hsame.trans hread), bind_of_error hread]
    · exact .inr (bind_of_error hstop _)
  follows := by
    intro start
    rcases hfirst.follows start with
      hsame | ⟨place, error, left, hahead, hrefused, hstop, henters⟩
    · cases hread : first probing.lax start with
      | ok value between =>
          rw [bind_of_ok (hsame.trans hread), bind_of_ok hread]
          rcases (hnext value).follows between with
            hboth | ⟨place, error, left, hahead, hrefused, hstop, henters⟩
          · exact .inl hboth
          · refine .inr ⟨place, error, left, hfirst.ahead hread place hahead, hrefused, hstop, ?_⟩
            intro reader error left hfails
            rcases hfirst.probed hfails start with hpassed | hearly
            · rw [bind_of_ok (hpassed.trans hread)]
              exact henters hfails
            · exact bind_of_error hearly _
      | error stop between =>
          left
          rw [bind_of_error (hsame.trans hread), bind_of_error hread]
    · exact .inr ⟨place, error, left, hahead, hrefused, bind_of_error hstop _, fun hfails =>
        bind_of_error (henters hfails) _⟩

theorem IsFaithful.map {reading : ρ → EStateM ReadError σ α} (f : α → β)
    (h : probing.IsFaithful reading) : probing.IsFaithful fun reader => f <$> reading reader := by
  simp only [map_eq_pure_bind]
  exact h.bind fun value => isFaithful_pure (f value)

theorem IsFaithful.ite {condition : Prop} [Decidable condition]
    {yes no : ρ → EStateM ReadError σ α} (hyes : probing.IsFaithful yes)
    (hno : probing.IsFaithful no) :
    probing.IsFaithful fun reader => if condition then yes reader else no reader := by
  split
  · exact hyes
  · exact hno

end Probing

namespace Reading

open Probing

variable {α β : Type} {constants : Constants}

def formBy (number : Reading Value) (constants : Constants) (member : Reading Value) (c : Char) :
    Reading Value :=
  if c = '@' then quotedText
  else if c = '[' then list member
  else if c = '\x7b' then mapping member
  else if c = '|' then expression constants
  else if c = '+' ∨ c = '-' ∨ Text.isDigit c then number
  else if Text.isNameLetter c then reference constants
  else fail (.unexpectedCharacter c)

def valueHereBy (number : Reading Value) (constants : Constants) (member : Reading Value) :
    Reading Value := do
  match ← next? with
  | none => fail .missingValue
  | some c => formBy number constants member c

/-- Reads a value in which numbers are read by a given reader. -/
def valueBy (number : Reading Value) (constants : Constants) (member : Reading Value) :
    Reading Value := do
  skip
  valueHereBy number constants member

def valueByWithin (number : Reading Value) (constants : Constants) : Nat → Reading Value
  | 0 => nestingTooDeep
  | depth + 1 => valueBy number constants (valueByWithin number constants depth)

theorem valueWithin_eq (settings : Settings) (constants : Constants) (depth : Nat) :
    valueWithin settings constants depth =
      valueByWithin (number settings.fractionRequired) constants depth := by
  induction depth with
  | zero => rfl
  | succ depth ih => rw [valueWithin, ih]; rfl

theorem formBy_number {number member : Reading Value} {c : Char}
    (h : c = '+' ∨ c = '-' ∨ Text.isDigit c = true) :
    formBy number constants member c = number := by
  rw [formBy, if_neg (ne_of_number_start h (by decide) (by decide) (by decide)),
    if_neg (ne_of_number_start h (by decide) (by decide) (by decide)),
    if_neg (ne_of_number_start h (by decide) (by decide) (by decide)),
    if_neg (ne_of_number_start h (by decide) (by decide) (by decide)), if_pos h]

theorem valueHereBy_of_head? {number member : Reading Value} {cursor : Cursor} {c : Char}
    (hc : cursor.rest.head? = some c) :
    valueHereBy number constants member cursor = formBy number constants member c cursor := by
  have hnext : next? cursor = .ok (some c) cursor := by rw [next?, hc]
  rw [valueHereBy, bind_of_ok hnext]

theorem valueHereBy_of_end {number member : Reading Value} {cursor : Cursor}
    (hend : cursor.rest.head? = none) :
    valueHereBy number constants member cursor = (fail .missingValue : Reading Value) cursor := by
  have hnext : next? cursor = .ok none cursor := by rw [next?, hend]
  rw [valueHereBy, bind_of_ok hnext]

/-! Numbers without a fraction. -/

/-- A sign or digits stand at a cursor up to another, and neither a further digit nor a point. -/
def StandsBare (entry after : Cursor) : Prop :=
  ∃ (sign : Sign) (whole : Text), sign.text ++ whole ≠ [] ∧
    (∀ c ∈ whole, Text.isDigit c = true) ∧ entry.Moves (sign.text ++ whole) after ∧
    Text.EndsRun Text.isDigit after.rest ∧ after.rest.head? ≠ some '.'

theorem exists_sign {cursor : Cursor} {c : Char} (hc : cursor.rest.head? = some c) :
    sign cursor = .ok (Sign.leading [c]) (cursor.advance (Sign.leading [c]).text.length) := by
  obtain ⟨tail, hrest⟩ := List.head?_eq_some_iff.mp hc
  have hcurrent : current cursor = .ok c cursor := by simp only [current, hrest]
  rw [sign, bind_of_ok hcurrent]
  rfl

theorem ne_nil_of_endsRun {c : Char} {tail whole rest : Text}
    (hnumber : c = '+' ∨ c = '-' ∨ Text.isDigit c = true)
    (hsplit : c :: tail = (Sign.leading [c]).text ++ whole ++ rest)
    (hends : Text.EndsRun Text.isDigit rest) : (Sign.leading [c]).text ++ whole ≠ [] := by
  intro hnil
  rw [hnil, List.nil_append] at hsplit
  have hdigit : Text.isDigit c = false := hends c (by simp [← hsplit])
  rcases hnumber with rfl | rfl | htrue
  · simp [Sign.leading, Sign.text] at hnil
  · simp [Sign.leading, Sign.text] at hnil
  · simp [htrue] at hdigit

/-- A number is read alike, or it is bare and refused only where fractions are required. -/
theorem number_true_eq_or {cursor : Cursor} {c : Char} (hc : cursor.rest.head? = some c)
    (hnumber : c = '+' ∨ c = '-' ∨ Text.isDigit c = true) :
    number true cursor = number false cursor ∨ ∃ after, StandsBare cursor after ∧
      number true cursor = .error (.located .fractionRequired after.position) after := by
  obtain ⟨tail, hrest⟩ := List.head?_eq_some_iff.mp hc
  have hsign := exists_sign hc
  obtain ⟨_, hsigned, rfl, -⟩ := ensures_sign cursor _ _ hsign
  generalize hbegun : cursor.advance (Sign.leading [c]).text.length = begun at hsign hsigned
  obtain ⟨whole, between, hdigits⟩ : ∃ whole between, digits begun = .ok whole between :=
    ⟨_, _, rfl⟩
  obtain ⟨_, hbetween, rfl, hwhole, hends⟩ := ensures_run _ begun between whole hdigits
  have hnext : next? between = .ok between.rest.head? between := rfl
  unfold number
  rw [bind_of_ok hsign, bind_of_ok hsign, bind_of_ok hdigits, bind_of_ok hdigits,
    bind_of_ok hnext, bind_of_ok hnext]
  by_cases hpoint : between.rest.head? = some '.'
  · left
    rw [if_pos hpoint, if_pos hpoint]
  · right
    have hmoves := hsigned.trans hbetween
    have hsplit : c :: tail = (Sign.leading [c]).text ++ whole ++ between.rest :=
      hrest.symm.trans hmoves.1
    refine ⟨between, ⟨_, whole, ne_nil_of_endsRun hnumber hsplit hends, hwhole, hmoves, hends,
      hpoint⟩, ?_⟩
    rw [if_neg hpoint]
    rfl

/-! Faithful readings. -/

/-- A reader of numbers that fails at one cursor and requires no fractions anywhere else. -/
structure FailsAt (reader : Reading Value) (entry : Cursor) (error : ReadError)
    (left : Cursor) : Prop where
  fails : reader entry = .error error left
  agrees : ∀ cursor, cursor ≠ entry → reader cursor = number false cursor

/-- The reader of numbers as a parameter of readings. -/
def numberProbing : Probing (Reading Value) Cursor where
  Place := Cursor
  lax := number false
  strict := number true
  Ahead := fun cursor entry => ∃ count, entry = cursor.advance count
  FailsAt := FailsAt
  Refused := fun entry error after =>
    StandsBare entry after ∧ error = .located .fractionRequired after.position

abbrev IsFaithful (reading : Reading Value → Reading α) : Prop :=
  numberProbing.IsFaithful reading

theorem IsUniform.exists_advance {reading : Reading α} (h : IsUniform reading)
    {cursor after : Cursor} {value : α} (hread : reading cursor = .ok value after) :
    ∃ count, after = cursor.advance count := by
  obtain ⟨count, -, verdict, hsettles⟩ := h cursor.rest
  have hreached := (hsettles cursor rfl).symm.trans hread
  cases verdict with
  | ok found => exact ⟨count, (EStateM.Result.ok.inj hreached).2.symm⟩
  | error failure => simp [reached] at hreached

theorem ahead_of_advance {cursor entry : Cursor} {count : Nat}
    (h : numberProbing.Ahead (cursor.advance count) entry) : numberProbing.Ahead cursor entry := by
  obtain ⟨further, rfl⟩ := h
  exact ⟨count + further, Cursor.advance_advance cursor count further⟩

theorem IsUniform.isFaithful {reading : Reading α} (h : IsUniform reading) :
    IsFaithful fun _ => reading where
  ahead := by
    intro cursor value after hread entry hentry
    obtain ⟨count, rfl⟩ := h.exists_advance hread
    exact ahead_of_advance hentry
  probed := fun _ _ => .inl rfl
  follows := fun _ => .inl rfl

theorem isFaithful_fail (cause : Cause) : IsFaithful fun _ => (fail cause : Reading α) :=
  (isUniform_fail cause).isFaithful

theorem isFaithful_of_rest {reading : Reading Value → Text → Reading α}
    (h : ∀ text, IsFaithful fun reader => reading reader text) :
    IsFaithful fun reader => do
      let cursor ← get
      reading reader cursor.rest where
  ahead := fun {cursor _ _} hread => (h cursor.rest).ahead hread
  probed := fun hfails cursor => (h cursor.rest).probed hfails cursor
  follows := fun cursor => (h cursor.rest).follows cursor

section

variable {member : Reading Value → Reading Value} (hmember : IsFaithful member)

include hmember

theorem isFaithful_items (bound : Nat) : IsFaithful fun reader => items (member reader) bound := by
  induction bound with
  | zero => exact isFaithful_fail _
  | succ bound ih =>
      exact hmember.bind fun _ => (isUniform_continues _ _ _).isFaithful.bind fun _ =>
        .ite (ih.bind fun _ => isFaithful_pure _) (isFaithful_pure _)

theorem isFaithful_list : IsFaithful fun reader => list (member reader) :=
  (isUniform_expect '[').isFaithful.bind fun _ => (isUniform_accept ']').isFaithful.bind fun _ =>
    .ite (isFaithful_pure _)
      (isFaithful_of_rest fun text => (isFaithful_items hmember text.length).map Value.list)

theorem isFaithful_entry : IsFaithful fun reader => entry (member reader) :=
  isUniform_skip.isFaithful.bind fun _ => (isUniform_run _).isFaithful.bind fun _ =>
    .ite (isFaithful_fail _)
      ((isUniform_expect ':').isFaithful.bind fun _ => hmember.bind fun _ => isFaithful_pure _)

theorem isFaithful_entries (bound : Nat) (before : Entries) :
    IsFaithful fun reader => entries (member reader) bound before := by
  induction bound generalizing before with
  | zero => exact isFaithful_fail _
  | succ bound ih =>
      exact (isFaithful_entry hmember).bind fun _ =>
        (isUniform_continues _ _ _).isFaithful.bind fun _ => .ite (ih _) (isFaithful_pure _)

theorem isFaithful_mapping : IsFaithful fun reader => mapping (member reader) :=
  (isUniform_expect '\x7b').isFaithful.bind fun _ =>
    (isUniform_accept '\x7d').isFaithful.bind fun _ =>
      .ite (isFaithful_pure _)
        (isFaithful_of_rest fun text =>
          (isFaithful_entries hmember text.length []).map Value.mapping)

theorem isFaithful_formBy (constants : Constants) {c : Char}
    (hnumber : ¬(c = '+' ∨ c = '-' ∨ Text.isDigit c = true)) :
    IsFaithful fun reader => formBy reader constants (member reader) c := by
  simp only [formBy, if_neg hnumber]
  exact .ite isUniform_quotedText.isFaithful <| .ite (isFaithful_list hmember) <|
    .ite (isFaithful_mapping hmember) <| .ite (isUniform_expression constants).isFaithful <|
    .ite (isUniform_reference constants).isFaithful (isFaithful_fail _)

/-- Where a number is at hand the parameter itself is run, and the number may be bare. -/
theorem isFaithful_valueHereBy (constants : Constants) :
    IsFaithful fun reader => valueHereBy reader constants (member reader) where
  ahead := by
    intro cursor value after hread
    cases hc : cursor.rest.head? with
    | none =>
        rw [valueHereBy_of_end hc] at hread
        exact absurd hread not_fail_eq_ok
    | some c =>
        rw [valueHereBy_of_head? hc] at hread
        by_cases hnumber : c = '+' ∨ c = '-' ∨ Text.isDigit c = true
        · rw [formBy_number hnumber] at hread
          exact (isUniform_number false).isFaithful.ahead hread
        · exact (isFaithful_formBy hmember constants hnumber).ahead hread
  probed := by
    intro reader entry error left hfails cursor
    cases hc : cursor.rest.head? with
    | none =>
        rw [valueHereBy_of_end hc, valueHereBy_of_end hc]
        exact .inl rfl
    | some c =>
        rw [valueHereBy_of_head? hc, valueHereBy_of_head? hc]
        by_cases hnumber : c = '+' ∨ c = '-' ∨ Text.isDigit c = true
        · rw [formBy_number hnumber, formBy_number hnumber]
          by_cases hentry : cursor = entry
          · exact .inr (hentry ▸ hfails.fails)
          · exact .inl (hfails.agrees cursor hentry)
        · exact (isFaithful_formBy hmember constants hnumber).probed hfails cursor
  follows := by
    intro cursor
    cases hc : cursor.rest.head? with
    | none =>
        rw [valueHereBy_of_end hc, valueHereBy_of_end hc]
        exact .inl rfl
    | some c =>
        simp only [valueHereBy_of_head? hc]
        by_cases hnumber : c = '+' ∨ c = '-' ∨ Text.isDigit c = true
        · simp only [formBy_number hnumber]
          rcases number_true_eq_or hc hnumber with hsame | ⟨after, hbare, hstop⟩
          · exact .inl hsame
          · exact .inr ⟨cursor, _, after, ⟨0, by rw [Cursor.advance_zero]⟩, ⟨hbare, rfl⟩, hstop,
              fun hfails => hfails.fails⟩
        · exact (isFaithful_formBy hmember constants hnumber).follows cursor

theorem isFaithful_valueBy (constants : Constants) :
    IsFaithful fun reader => valueBy reader constants (member reader) :=
  isUniform_skip.isFaithful.bind fun _ => isFaithful_valueHereBy hmember constants

end

theorem isFaithful_valueByWithin (constants : Constants) (depth : Nat) :
    IsFaithful fun reader => valueByWithin reader constants depth := by
  induction depth with
  | zero => exact isUniform_nestingTooDeep.isFaithful
  | succ depth ih => exact isFaithful_valueBy ih constants

def topValueBy (number : Reading Value) (constants : Constants) : Reading Value :=
  valueByWithin number constants (nestingLimit + 1)

theorem value_eq (settings : Settings) (constants : Constants) :
    value settings constants = topValueBy (number settings.fractionRequired) constants :=
  valueWithin_eq settings constants (nestingLimit + 1)

theorem declaration?_eq_by (settings : Settings) (constants : Constants) :
    declaration? settings constants =
      declarationBy? (topValueBy (number settings.fractionRequired) constants) := by
  rw [← value_eq]
  rfl

theorem isFaithful_declarationBy? (constants : Constants) :
    IsFaithful fun reader => declarationBy? (topValueBy reader constants) where
  ahead := by
    change ∀ {cursor found after}, declarationBy? (topValueBy (number false) constants) cursor =
      .ok found after → _
    rw [← declaration?_eq_by { fractionRequired := false } constants]
    exact (isUniform_declaration? _ constants).isFaithful.ahead
  probed := by
    intro reader entry error left hfails cursor
    rcases declarationBy?_eq_or cursor with ⟨result, hresult⟩ | ⟨written, count, hrun⟩
    · exact .inl (by rw [hresult, hresult])
    · simp only [hrun]
      exact ((isFaithful_valueByWithin constants _).bind fun _ =>
        isFaithful_pure _).probed hfails _
  follows := by
    intro cursor
    rcases declarationBy?_eq_or cursor with ⟨result, hresult⟩ | ⟨written, count, hrun⟩
    · exact .inl (by rw [hresult, hresult])
    · simp only [hrun]
      rcases ((isFaithful_valueByWithin constants (nestingLimit + 1)).bind fun value =>
        isFaithful_pure (some (written, value))).follows (cursor.advance count) with
        hsame | ⟨entry, error, left, hahead, hrefused, hstop, henters⟩
      · exact .inl hsame
      · exact .inr ⟨entry, error, left, ahead_of_advance hahead, hrefused, hstop, henters⟩

end Reading

end ConfTree
