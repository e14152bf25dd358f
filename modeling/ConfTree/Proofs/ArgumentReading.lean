import ConfTree.CommandLine.Arguments

namespace ConfTree.CommandLine

variable {convention : Convention}

namespace Draft

theorem performAll_complete {word : Word} {actions : List Action}
    (hword : Demand.ofWord? convention word = some (.complete actions)) (draft : Draft)
    (argument : Text) (words : List (Text × Word)) :
    draft.performAll convention ((argument, word) :: words) =
      (actions.foldlM (perform convention) draft >>= fun next =>
        next.performAll convention words) := by
  rw [performAll.eq_def]
  simp only [hword]

theorem performAll_needsValue {word : Word} {actions : List Action} {option : Switch}
    (hword : Demand.ofWord? convention word = some (.needsValue actions option)) (draft : Draft)
    (argument value : Text) (words : List (Text × Word)) :
    draft.performAll convention ((argument, word) :: (value, .plain) :: words) =
      ((actions ++ [Action.assign option value]).foldlM (perform convention) draft >>= fun next =>
        next.performAll convention words) := by
  rw [performAll.eq_def]
  simp only [hword]

theorem performAll_missing {word : Word} {actions : List Action} {option : Switch}
    (hword : Demand.ofWord? convention word = some (.needsValue actions option))
    {words : List (Text × Word)} (hvalue : ∀ value rest, words ≠ (value, .plain) :: rest)
    (draft : Draft) (argument : Text) :
    draft.performAll convention ((argument, word) :: words) = .error .misuse :=
  performAll.eq_5 _ _ _ _ _ _ _ hword hvalue

end Draft

def Options.ofDraft (draft : Draft) : Except Stop Options :=
  match draft.output? with
  | none => .error .misuse
  | some output =>
      if draft.hasStray then .error .misuse
      else .ok ⟨output, draft.settings, draft.format, draft.isVerbose⟩

theorem Options.ofArguments_eq {arguments : List Text} {words : List (Text × Word)}
    (h : Word.ofArguments? arguments = some words) :
    ofArguments arguments convention = (Draft.performAll convention {} words >>= ofDraft) := by
  simp only [ofArguments, h]
  rfl

/-! Asking for the log. -/

namespace Draft

def verbose (draft : Draft) : Draft :=
  { draft with isVerbose := true }

end Draft

def Options.verbose (options : Options) : Options :=
  { options with isVerbose := true }

/-- An option of the word, if it has one, stands without a value. -/
def Word.IsDetached : Word → Prop
  | .long _ value => value = none
  | .short _ rest => rest = []
  | _ => True

theorem Demand.exists_of_isDetached {word : Word} (h : word.IsDetached) :
    ∃ demand, (∀ convention, ofWord? convention word = some demand) ∧
      ((∃ action, demand = .complete [action] ∧ ∀ option value, action ≠ .assign option value) ∨
        ∃ option, demand = .needsValue [] option) := by
  have hswitch (option : Switch) :
      (∃ action, ofSwitch option = .complete [action] ∧
        ∀ option value, action ≠ .assign option value) ∨
      ∃ needed, ofSwitch option = .needsValue [] needed := by
    rw [ofSwitch]
    split
    · exact .inr ⟨option, rfl⟩
    · exact .inl ⟨.set option, rfl, nofun⟩
  cases word with
  | long option value =>
      obtain rfl : value = none := h
      exact ⟨ofSwitch option, fun _ => rfl, hswitch option⟩
  | short option rest =>
      obtain rfl : rest = [] := h
      exact ⟨ofSwitch option, fun convention => by cases convention <;> rfl, hswitch option⟩
  | _ => exact ⟨.complete [.note], fun _ => rfl, .inl ⟨.note, rfl, nofun⟩⟩

namespace Draft

variable (first second : Convention)

theorem perform_eq {action : Action} (h : ∀ option, action ≠ .assign option ['-', '-'])
    (draft : Draft) : draft.perform first action = draft.perform second action := by
  cases action with
  | set option => cases option <;> rfl
  | assign option value =>
      have hvalue : value ≠ ['-', '-'] := fun heq => h option (heq ▸ rfl)
      cases option <;> simp [perform, assign, hvalue]
  | note => rfl

theorem performAll_eq {words : List (Text × Word)}
    (h : ∀ word ∈ words, word.2.IsDetached ∧ word.1 ≠ ['-', '-']) (draft : Draft) :
    draft.performAll first words = draft.performAll second words := by
  induction draft, words using performAll.induct first with
  | case1 draft => rfl
  | case2 draft argument word words hword =>
      obtain ⟨demand, hdemand, -⟩ := Demand.exists_of_isDetached (h _ List.mem_cons_self).1
      simp [hdemand] at hword
  | case3 draft argument word actions words hword ih =>
      obtain ⟨hhead, htail⟩ := List.forall_mem_cons.mp h
      obtain ⟨demand, hdemand, hform⟩ := Demand.exists_of_isDetached hhead.1
      obtain rfl : demand = .complete actions :=
        Option.some.inj ((hdemand first).symm.trans hword)
      obtain ⟨action, haction, hassign⟩ | ⟨option, hneeds⟩ := hform
      · cases haction
        rw [performAll_complete hword, performAll_complete (hdemand second), List.foldlM_cons,
          List.foldlM_cons, perform_eq first second fun option => hassign option _]
        cases draft.perform second action with
        | error stop => rfl
        | ok next => exact ih next htail
      · cases hneeds
  | case4 draft argument word actions option value words hword ih =>
      obtain ⟨hhead, htail⟩ := List.forall_mem_cons.mp h
      obtain ⟨hvalue, htail⟩ := List.forall_mem_cons.mp htail
      obtain ⟨demand, hdemand, hform⟩ := Demand.exists_of_isDetached hhead.1
      obtain rfl : demand = .needsValue actions option :=
        Option.some.inj ((hdemand first).symm.trans hword)
      obtain ⟨action, haction, -⟩ | ⟨needed, hneeds⟩ := hform
      · cases haction
      · cases hneeds
        have hassign : ∀ other, Action.assign option value ≠ .assign other ['-', '-'] := by
          rintro other heq
          cases heq
          exact hvalue.2 rfl
        rw [performAll_needsValue hword, performAll_needsValue (hdemand second), List.nil_append,
          List.foldlM_cons, List.foldlM_cons, perform_eq first second hassign]
        cases draft.perform second (.assign option value) with
        | error stop => rfl
        | ok next => exact ih next htail
  | case5 draft argument word words actions option hword hvalue =>
      obtain ⟨demand, hdemand, -⟩ := Demand.exists_of_isDetached (h _ List.mem_cons_self).1
      have hsecond : Demand.ofWord? second word = some (.needsValue actions option) := by
        rw [hdemand, ← hdemand first, hword]
      rw [performAll_missing hword hvalue, performAll_missing hsecond hvalue]

end Draft

/-- The conventions differ in attached values only: arguments without any mean the same by both. -/
theorem Options.ofArguments_eq_of_isDetached {arguments : List Text} {words : List (Text × Word)}
    (hwords : Word.ofArguments? arguments = some words)
    (h : ∀ word ∈ words, word.2.IsDetached ∧ word.1 ≠ ['-', '-']) (first second : Convention) :
    ofArguments arguments first = ofArguments arguments second := by
  rw [ofArguments_eq hwords, ofArguments_eq hwords, Draft.performAll_eq first second h]

example : Options.ofArguments ["-vo=x".toList] .earlier = .ok ⟨"=x".toList, {}, .block, true⟩ := rfl

example : Options.ofArguments ["-vo=x".toList] .later = .ok ⟨"x".toList, {}, .block, true⟩ := rfl

end ConfTree.CommandLine
