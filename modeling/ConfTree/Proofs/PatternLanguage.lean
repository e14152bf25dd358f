import ConfTree.Styled.Pattern

namespace ConfTree.Pattern

inductive Matches : Pattern → Text → Prop where
  | empty : Matches .empty []
  | character {inClass : Char → Bool} {c : Char} (h : inClass c = true) :
      Matches (.character inClass) [c]
  | sequence {first second : Pattern} {text more : Text} (hfirst : Matches first text)
      (hsecond : Matches second more) : Matches (.sequence first second) (text ++ more)
  | left {left right : Pattern} {text : Text} (h : Matches left text) :
      Matches (.choice left right) text
  | right {left right : Pattern} {text : Text} (h : Matches right text) :
      Matches (.choice left right) text
  | finished {body : Pattern} : Matches (.repeated body) []
  | again {body : Pattern} {text more : Text} (hbody : Matches body text)
      (hmore : Matches (.repeated body) more) : Matches (.repeated body) (text ++ more)

variable {pattern first second left right body : Pattern} {text rest : Text} {c : Char}

/-! Inversion. -/

theorem not_matches_nothing (text : Text) : ¬Matches .nothing text :=
  nofun

theorem matches_empty_iff : Matches .empty text ↔ text = [] := by
  refine ⟨fun h => ?_, fun h => h ▸ .empty⟩
  cases h
  rfl

theorem matches_character_iff {inClass : Char → Bool} :
    Matches (.character inClass) (c :: rest) ↔ inClass c = true ∧ rest = [] := by
  constructor
  · intro h
    cases h with
    | character h => exact ⟨h, rfl⟩
  · rintro ⟨h, rfl⟩
    exact .character h

theorem not_matches_character_nil (inClass : Char → Bool) : ¬Matches (.character inClass) [] :=
  nofun

theorem matches_sequence_iff :
    Matches (.sequence first second) text ↔
      ∃ before behind, text = before ++ behind ∧ first.Matches before ∧ second.Matches behind := by
  constructor
  · intro h
    cases h with
    | sequence hfirst hsecond => exact ⟨_, _, rfl, hfirst, hsecond⟩
  · rintro ⟨before, behind, rfl, hfirst, hsecond⟩
    exact .sequence hfirst hsecond

theorem matches_sequence_cons_iff :
    Matches (.sequence first second) (c :: rest) ↔
      first.Matches [] ∧ second.Matches (c :: rest) ∨
      ∃ before behind, rest = before ++ behind ∧ first.Matches (c :: before) ∧
        second.Matches behind := by
  rw [matches_sequence_iff]
  constructor
  · rintro ⟨before, behind, htext, hfirst, hsecond⟩
    rcases List.cons_eq_append_iff.mp htext with ⟨rfl, rfl⟩ | ⟨before, rfl, hrest⟩
    · exact .inl ⟨hfirst, hsecond⟩
    · exact .inr ⟨before, behind, hrest, hfirst, hsecond⟩
  · rintro (⟨hfirst, hsecond⟩ | ⟨before, behind, rfl, hfirst, hsecond⟩)
    · exact ⟨[], _, rfl, hfirst, hsecond⟩
    · exact ⟨c :: before, behind, rfl, hfirst, hsecond⟩

theorem matches_choice_iff : Matches (.choice left right) text ↔
    left.Matches text ∨ right.Matches text := by
  constructor
  · intro h
    cases h with
    | left h => exact .inl h
    | right h => exact .inr h
  · rintro (h | h)
    · exact .left h
    · exact .right h

/-! Matching by derivatives. -/

theorem acceptsEmpty_iff : pattern.acceptsEmpty = true ↔ pattern.Matches [] := by
  induction pattern with
  | nothing => simp [acceptsEmpty, not_matches_nothing]
  | empty => simp [acceptsEmpty, matches_empty_iff]
  | character inClass => simp [acceptsEmpty, not_matches_character_nil]
  | sequence first second ihfirst ihsecond =>
      rw [acceptsEmpty, Bool.and_eq_true, ihfirst, ihsecond, matches_sequence_iff]
      constructor
      · rintro ⟨hfirst, hsecond⟩
        exact ⟨[], [], rfl, hfirst, hsecond⟩
      · rintro ⟨before, behind, htext, hfirst, hsecond⟩
        obtain ⟨rfl, rfl⟩ := List.append_eq_nil_iff.mp htext.symm
        exact ⟨hfirst, hsecond⟩
  | choice left right ihleft ihright =>
      rw [acceptsEmpty, Bool.or_eq_true, ihleft, ihright, matches_choice_iff]
  | repeated body => exact ⟨fun _ => .finished, fun _ => rfl⟩

theorem matches_andThen_iff :
    (first.andThen second).Matches text ↔ Matches (.sequence first second) text := by
  cases first with
  | nothing => simp [andThen, matches_sequence_iff, not_matches_nothing]
  | empty =>
      rw [andThen, matches_sequence_iff]
      constructor
      · intro h
        exact ⟨[], text, rfl, .empty, h⟩
      · rintro ⟨before, behind, rfl, hempty, h⟩
        obtain rfl := matches_empty_iff.mp hempty
        exact h
  | _ => rfl

theorem matches_orElse_iff :
    (left.orElse right).Matches text ↔ Matches (.choice left right) text := by
  rw [matches_choice_iff]
  unfold orElse
  split
  · simp [not_matches_nothing]
  · simp [not_matches_nothing]
  · exact matches_choice_iff

theorem matches_repeated_cons_iff :
    Matches (.repeated body) (c :: rest) ↔
      ∃ before behind, rest = before ++ behind ∧ body.Matches (c :: before) ∧
        Matches (.repeated body) behind := by
  constructor
  · intro h
    generalize hpattern : Pattern.repeated body = pattern at h
    generalize htext : c :: rest = text at h
    induction h with
    | again hbody hmore _ ihmore =>
        obtain rfl := Pattern.repeated.inj hpattern
        rcases List.cons_eq_append_iff.mp htext with ⟨rfl, hmore⟩ | ⟨before, rfl, hrest⟩
        · exact ihmore rfl hmore.symm
        · exact ⟨before, _, hrest, hbody, hmore⟩
    | finished => cases htext
    | _ => cases hpattern
  · rintro ⟨before, behind, rfl, hbody, hmore⟩
    exact .again hbody hmore

theorem matches_derivative_iff :
    (pattern.derivative c).Matches rest ↔ pattern.Matches (c :: rest) := by
  induction pattern generalizing rest with
  | nothing => simp [derivative, not_matches_nothing]
  | empty => simp [derivative, not_matches_nothing, matches_empty_iff]
  | character inClass =>
      rw [derivative, matches_character_iff]
      split
      · rename_i hc
        simp [matches_empty_iff, hc]
      · rename_i hc
        simp [not_matches_nothing, hc]
  | sequence first second ihfirst ihsecond =>
      have hcontinued : ((first.derivative c).andThen second).Matches rest ↔
          ∃ before behind, rest = before ++ behind ∧ first.Matches (c :: before) ∧
            second.Matches behind := by
        rw [matches_andThen_iff, matches_sequence_iff]
        simp only [ihfirst]
      rw [derivative, matches_sequence_cons_iff, ← hcontinued, ← acceptsEmpty_iff, ← ihsecond]
      split
      · rename_i hempty
        rw [matches_orElse_iff, matches_choice_iff, or_comm]
        simp [hempty]
      · rename_i hempty
        simp [hempty]
  | choice left right ihleft ihright =>
      rw [derivative, matches_orElse_iff, matches_choice_iff, matches_choice_iff, ihleft, ihright]
  | repeated body ih =>
      rw [derivative, matches_andThen_iff, matches_sequence_iff, matches_repeated_cons_iff]
      simp only [ih]

/-- Taking derivatives accepts just what a pattern matches. -/
theorem accepts_iff : pattern.accepts text = true ↔ pattern.Matches text := by
  induction text generalizing pattern with
  | nil => exact acceptsEmpty_iff
  | cons c rest ih => exact ih.trans matches_derivative_iff

/-! Words. -/

theorem matches_anyOf_iff {alternatives : List Pattern} :
    (anyOf alternatives).Matches text ↔ ∃ pattern ∈ alternatives, pattern.Matches text := by
  induction alternatives with
  | nil => simp [anyOf, not_matches_nothing]
  | cons pattern alternatives ih =>
      change Matches (.choice pattern (anyOf alternatives)) text ↔ _
      rw [matches_choice_iff, ih]
      simp

theorem matches_exactly_iff {word : Text} : (exactly word).Matches text ↔ text = word := by
  induction word generalizing text with
  | nil => exact matches_empty_iff
  | cons c word ih =>
      change Matches (.sequence (.character (· = c)) (exactly word)) text ↔ _
      cases text with
      | nil =>
          rw [← acceptsEmpty_iff]
          simp [acceptsEmpty]
      | cons d rest =>
          have hword : (∃ before behind, rest = before ++ behind ∧
              Matches (.character (· = c)) (d :: before) ∧ (exactly word).Matches behind) ↔
              rest = word ∧ d = c := by
            simp [matches_character_iff, ih]
          have hempty := not_matches_character_nil fun d => decide (d = c)
          rw [matches_sequence_cons_iff, hword, List.cons.injEq, and_comm (a := d = c)]
          exact or_iff_right fun h => hempty h.1

/-! First characters. -/

def mayBegin (c : Char) : Pattern → Bool
  | .nothing => false
  | .empty => false
  | .character inClass => inClass c
  | .sequence first second => first.mayBegin c || (first.acceptsEmpty && second.mayBegin c)
  | .choice left right => left.mayBegin c || right.mayBegin c
  | .repeated body => body.mayBegin c

theorem mayBegin_of_matches (h : pattern.Matches (c :: rest)) : pattern.mayBegin c = true := by
  induction pattern generalizing rest with
  | nothing => exact absurd h (not_matches_nothing _)
  | empty => exact absurd (matches_empty_iff.mp h) (List.cons_ne_nil _ _)
  | character inClass => exact (matches_character_iff.mp h).1
  | sequence first second ihfirst ihsecond =>
      rw [mayBegin, Bool.or_eq_true, Bool.and_eq_true]
      rcases matches_sequence_cons_iff.mp h with ⟨hempty, hsecond⟩ | ⟨before, _, -, hfirst, -⟩
      · exact .inr ⟨acceptsEmpty_iff.mpr hempty, ihsecond hsecond⟩
      · exact .inl (ihfirst hfirst)
  | choice left right ihleft ihright =>
      rw [mayBegin, Bool.or_eq_true]
      exact (matches_choice_iff.mp h).imp ihleft ihright
  | repeated body ih =>
      obtain ⟨before, _, -, hbody, -⟩ := matches_repeated_cons_iff.mp h
      exact ih hbody

theorem accepts_eq_false_of_mayBegin (h : pattern.mayBegin c = false) (rest : Text) :
    pattern.accepts (c :: rest) = false := by
  rw [Bool.eq_false_iff]
  intro haccepts
  rw [mayBegin_of_matches (accepts_iff.mp haccepts)] at h
  cases h

end ConfTree.Pattern
