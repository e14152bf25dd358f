import ConfTree.Proofs.OperandClass
import ConfTree.Proofs.WrittenTerm

namespace ConfTree

namespace Value

mutual

/-- There is no null at any depth, and the keys of every mapping are distinct names. -/
def IsProper : Value → Prop
  | .null => False
  | .number _ => True
  | .text _ => True
  | .list items => AreProper items
  | .mapping entries => (entries.map Prod.fst).Nodup ∧ AreProperEntries entries

def AreProper : List Value → Prop
  | [] => True
  | item :: items => item.IsProper ∧ AreProper items

def AreProperEntries : List (Text × Value) → Prop
  | [] => True
  | (key, value) :: entries => Text.IsName key ∧ value.IsProper ∧ AreProperEntries entries

end

theorem isProper_list_iff {items : List Value} :
    (Value.list items).IsProper ↔ ∀ item ∈ items, item.IsProper := by
  rw [IsProper]
  induction items with
  | nil => simp [AreProper]
  | cons item items ih => rw [AreProper, ih, List.forall_mem_cons]

theorem areProperEntries_iff {entries : List (Text × Value)} :
    AreProperEntries entries ↔ ∀ entry ∈ entries, Text.IsName entry.1 ∧ entry.2.IsProper := by
  induction entries with
  | nil => simp [AreProperEntries]
  | cons entry entries ih => rw [AreProperEntries, ih, List.forall_mem_cons, and_assoc]

theorem IsProper.ne_null {value : Value} (h : value.IsProper) : value ≠ .null := by
  rintro rfl
  exact h

theorem areProperEntries_put {key : Text} {value : Value} {entries : Entries}
    (hkey : Text.IsName key) (hvalue : value.IsProper) (h : AreProperEntries entries) :
    AreProperEntries (entries.put key value) := by
  induction entries with
  | nil => exact ⟨hkey, hvalue, trivial⟩
  | cons entry entries ih =>
      rcases entry with ⟨present, old⟩
      rcases h with ⟨hpresent, hold, hentries⟩
      rw [Entries.put]
      split
      · exact ⟨hpresent, hvalue, hentries⟩
      · exact ⟨hpresent, hold, ih hentries⟩

theorem nodup_put (key : Text) (value : Value) {entries : Entries}
    (h : (entries.map Prod.fst).Nodup) : ((entries.put key value).map Prod.fst).Nodup := by
  rw [Entries.map_fst_put]
  split
  · exact h
  · rename_i hfresh
    refine List.nodup_append.mpr ⟨h, by simp, fun other hother found hfound => ?_⟩
    rw [List.mem_singleton.mp hfound]
    rintro rfl
    exact hfresh hother

theorem isProper_mapping_put {key : Text} {value : Value} {entries : Entries}
    (hkey : Text.IsName key) (hvalue : value.IsProper) (h : (mapping entries).IsProper) :
    (mapping (entries.put key value)).IsProper :=
  ⟨nodup_put key value h.1, areProperEntries_put hkey hvalue h.2⟩

end Value

/-- Every value that was ever bound is proper. -/
def Constants.AreProper (constants : Constants) : Prop :=
  ∀ binding ∈ constants, binding.2.IsProper

namespace Constants

theorem AreProper.bind {constants : Constants} (h : constants.AreProper) (name : Text)
    {value : Value} (hvalue : value.IsProper) : (constants.bind name value).AreProper :=
  List.forall_mem_cons.mpr ⟨hvalue, h⟩

end Constants

namespace Operator

theorem isProper_concatenate? {left right joint : Value} (hleft : left.IsProper)
    (hright : right.IsProper) (h : concatenate? left right = some joint) : joint.IsProper := by
  unfold concatenate? at h
  split at h
  · obtain rfl := Option.some.inj h
    rw [Value.isProper_list_iff] at hleft hright ⊢
    exact List.forall_mem_append.mpr ⟨hleft, hright⟩
  · obtain rfl := Option.some.inj h
    trivial
  · obtain rfl := Option.some.inj h
    rw [Value.isProper_list_iff] at hleft ⊢
    exact List.forall_mem_append.mpr ⟨hleft, List.forall_mem_singleton.mpr hright⟩
  · obtain rfl := Option.some.inj h
    rw [Value.isProper_list_iff] at hright ⊢
    exact List.forall_mem_cons.mpr ⟨hleft, hright⟩
  · simp at h

theorem isProper_evaluate {operator : Operator} {left right value : Value} (hleft : left.IsProper)
    (hright : right.IsProper) (h : operator.evaluate left right = .ok value) :
    value.IsProper := by
  rcases evaluate_eq_ok h with hjoint | ⟨x, rfl⟩
  · exact isProper_concatenate? hleft hright hjoint
  · trivial

end Operator

theorem Operand.isProper_value {constants : Constants} (hconstants : constants.AreProper)
    {operand : Operand} {value : Value} (h : operand.value constants = .ok value) :
    value.IsProper :=
  of_value (fun _ => trivial) hconstants (fun _ _ => trivial) h

namespace Evaluation

def IsProper (stack : OperandStack) : Prop :=
  ∀ value ∈ stack, value.IsProper

theorem isProper_of_feedAll {constants : Constants} {words : List Text}
    {stack after : OperandStack} (hconstants : constants.AreProper) (hstack : IsProper stack)
    (h : feedAll constants words stack = .ok () after) : IsProper after :=
  forall_mem_of_feedAll (fun _ _ _ _ => Operator.isProper_evaluate)
    (fun _ _ _ _ _ => Operand.isProper_value hconstants) hstack h

end Evaluation

namespace Term

variable {settings : Settings} {constants : Constants}

theorem valueOf?_of_reference {name : Text} {value : Value}
    (h : (reference name).value constants = .ok value) : constants.valueOf? name = some value := by
  rw [Term.value] at h
  split at h
  · rename_i found hfound
    obtain rfl : found = value := by simpa using h
    exact hfound
  · simp at h

theorem feedAll_of_expressionValue {body : Text} {value : Value}
    (h : expressionValue constants body = .ok value) :
    Evaluation.feedAll constants (wordsOf body) [] = .ok () [value] := by
  unfold expressionValue at h
  split at h
  · rename_i found hfound
    obtain rfl : found = value := by simpa using h
    exact hfound
  · simp at h
  · simp at h

theorem isProper_expressionValue {body : Text} {value : Value} (hconstants : constants.AreProper)
    (h : expressionValue constants body = .ok value) : value.IsProper := by
  have hstack : Evaluation.IsProper [value] := Evaluation.isProper_of_feedAll hconstants
    (by simp [Evaluation.IsProper]) (feedAll_of_expressionValue h)
  exact hstack value (by simp)

theorem exists_value_of_bind_eq_ok {α β : Type} {first : Except Cause α} {next : α → Except Cause β}
    {result : β} (h : (first >>= next) = .ok result) :
    ∃ value, first = .ok value ∧ next value = .ok result := by
  cases first with
  | ok value => exact ⟨value, rfl, h⟩
  | error cause => simp [Bind.bind, Except.bind] at h

theorem exists_value_of_map_eq_ok {α β : Type} {first : Except Cause α} {f : α → β} {result : β}
    (h : f <$> first = .ok result) : ∃ value, first = .ok value ∧ f value = result := by
  cases first with
  | ok value => exact ⟨value, rfl, Except.ok.inj h⟩
  | error cause => simp [Functor.map, Except.map] at h

theorem areProper_itemValues {items : List (Spaced Term)} {values : List Value}
    (hitems : ∀ item ∈ items, ∀ value, item.content.value constants = .ok value → value.IsProper)
    (h : itemValues constants items = .ok values) : (Value.list values).IsProper := by
  rw [Value.isProper_list_iff]
  induction items generalizing values with
  | nil =>
      obtain rfl : [] = values := by simpa [itemValues] using h
      simp
  | cons item items ih =>
      rw [itemValues] at h
      obtain ⟨value, hvalue, h⟩ := exists_value_of_bind_eq_ok h
      obtain ⟨further, hfurther, h⟩ := exists_value_of_bind_eq_ok h
      obtain rfl : value :: further = values := by simpa using h
      obtain ⟨hitem, hitems⟩ := List.forall_mem_cons.mp hitems
      exact List.forall_mem_cons.mpr ⟨hitem value hvalue, ih hitems hfurther⟩

theorem isProper_putEntryValues {before after : Entries} {entries : List (WrittenEntry Term)}
    (hentries : ∀ entry ∈ entries, Text.IsName entry.key ∧
      ∀ value, entry.value.content.value constants = .ok value → value.IsProper)
    (hbefore : (Value.mapping before).IsProper)
    (h : putEntryValues constants before entries = .ok after) :
    (Value.mapping after).IsProper := by
  induction entries generalizing before with
  | nil =>
      obtain rfl : before = after := by simpa [putEntryValues] using h
      exact hbefore
  | cons entry entries ih =>
      rw [putEntryValues] at h
      obtain ⟨value, hvalue, h⟩ := exists_value_of_bind_eq_ok h
      obtain ⟨⟨hkey, hentry⟩, hentries⟩ := List.forall_mem_cons.mp hentries
      exact ih hentries (Value.isProper_mapping_put hkey (hentry value hvalue) hbefore) h

theorem isValid_of_mem_items {items : List (Spaced Term)} (h : AreValidItems settings items) :
    ∀ item ∈ items, item.content.IsValid settings := by
  induction items with
  | nil => simp
  | cons item items ih => exact List.forall_mem_cons.mpr ⟨h.2.1, ih h.2.2.2⟩

theorem isValid_of_mem_entries {entries : List (WrittenEntry Term)}
    (h : AreValidEntries settings entries) :
    ∀ entry ∈ entries, Text.IsName entry.key ∧ entry.value.content.IsValid settings := by
  induction entries with
  | nil => simp
  | cons entry entries ih =>
      rcases h with ⟨-, hkey, -, -, hcontent, -, hentries⟩
      exact List.forall_mem_cons.mpr ⟨⟨hkey, hcontent⟩, ih hentries⟩

theorem isProper_value (hconstants : constants.AreProper) {term : Term}
    (hterm : term.IsValid settings) {value : Value} (h : term.value constants = .ok value) :
    value.IsProper := by
  induction term using Term.induction generalizing value with
  | text content =>
      obtain rfl : Value.text content = value := by simpa [Term.value] using h
      trivial
  | number literal =>
      obtain rfl : Value.number literal.value = value := by simpa [Term.value] using h
      trivial
  | reference name => exact Constants.of_valueOf? hconstants (valueOf?_of_reference h)
  | expression body => exact isProper_expressionValue hconstants h
  | emptyList inner =>
      obtain rfl : Value.list [] = value := by simpa [Term.value] using h
      trivial
  | list first further trailing hfirst hfurther =>
      rw [value_list] at h
      obtain ⟨values, hvalues, rfl⟩ := exists_value_of_map_eq_ok h
      rcases hterm with ⟨-, hfirstValid, -, hfurtherValid, -⟩
      refine areProper_itemValues (List.forall_mem_cons.mpr ⟨?_, fun item hitem => ?_⟩) hvalues
      · exact fun value => hfirst hfirstValid
      · exact fun value => hfurther item hitem (isValid_of_mem_items hfurtherValid item hitem)
  | emptyMapping inner =>
      obtain rfl : Value.mapping [] = value := by simpa [Term.value] using h
      exact ⟨List.nodup_nil, trivial⟩
  | mapping first further trailing hfirst hfurther =>
      rw [value_mapping] at h
      obtain ⟨entries, hentries, rfl⟩ := exists_value_of_map_eq_ok h
      rcases hterm with ⟨-, hkey, -, -, hfirstValid, -, hfurtherValid, -⟩
      have hempty : (Value.mapping []).IsProper := ⟨List.nodup_nil, trivial⟩
      refine isProper_putEntryValues (List.forall_mem_cons.mpr ⟨⟨hkey, ?_⟩, fun entry hentry => ?_⟩)
        hempty hentries
      · exact fun value => hfirst hfirstValid
      · obtain ⟨hname, hvalid⟩ := isValid_of_mem_entries hfurtherValid entry hentry
        exact ⟨hname, fun value => hfurther entry hentry hvalid⟩

end Term

end ConfTree
