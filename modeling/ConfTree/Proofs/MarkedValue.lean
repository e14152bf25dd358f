import ConfTree.Proofs.BlockLines

namespace ConfTree

def Scalar.value : Scalar → Value
  | .null => .null
  | .number x => .number x
  | .text content => .text content

namespace Value

theorem induction {motive : Value → Prop} (null : motive .null) (number : ∀ x, motive (.number x))
    (text : ∀ content, motive (.text content))
    (list : ∀ items, (∀ item ∈ items, motive item) → motive (.list items))
    (mapping : ∀ entries : List (Text × Value), (∀ entry ∈ entries, motive entry.2) →
      motive (.mapping entries)) :
    ∀ value, motive value := by
  intro value
  refine @Value.rec motive (fun items => ∀ item ∈ items, motive item)
    (fun entries => ∀ entry ∈ entries, motive entry.2) (fun entry => motive entry.2)
    null number text list mapping ?_ ?_ ?_ ?_ ?_ value
  · intro item hitem
    simp at hitem
  · intro item items hitem hitems
    exact List.forall_mem_cons.mpr ⟨hitem, hitems⟩
  · intro entry hentry
    simp at hentry
  · intro entry entries hentry hentries
    exact List.forall_mem_cons.mpr ⟨hentry, hentries⟩
  · intro _ _ hvalue
    exact hvalue

mutual

/-- A value with one common marker, the empty list, in place of every empty collection. -/
def markEmpty : Value → Value
  | .null => .null
  | .number x => .number x
  | .text content => .text content
  | .list items => .list (markEmptyItems items)
  | .mapping entries =>
      if entries.isEmpty then .list [] else .mapping (markEmptyEntries entries)

def markEmptyItems : List Value → List Value
  | [] => []
  | item :: items => item.markEmpty :: markEmptyItems items

def markEmptyEntries : List (Text × Value) → List (Text × Value)
  | [] => []
  | (key, value) :: entries => (key, value.markEmpty) :: markEmptyEntries entries

end

mutual

def KeysAreNames : Value → Prop
  | .null => True
  | .number _ => True
  | .text _ => True
  | .list items => KeysOfItemsAreNames items
  | .mapping entries => KeysOfEntriesAreNames entries

def KeysOfItemsAreNames : List Value → Prop
  | [] => True
  | item :: items => item.KeysAreNames ∧ KeysOfItemsAreNames items

def KeysOfEntriesAreNames : List (Text × Value) → Prop
  | [] => True
  | (key, value) :: entries =>
      Text.IsName key ∧ value.KeysAreNames ∧ KeysOfEntriesAreNames entries

end

theorem markEmptyItems_eq (items : List Value) : markEmptyItems items = items.map markEmpty := by
  induction items with
  | nil => rfl
  | cons item items ih => rw [markEmptyItems, ih, List.map_cons]

theorem markEmptyEntries_eq (entries : List (Text × Value)) :
    markEmptyEntries entries = entries.map fun entry => (entry.1, entry.2.markEmpty) := by
  induction entries with
  | nil => rfl
  | cons entry entries ih => rw [markEmptyEntries, ih, List.map_cons]

theorem keysOfItemsAreNames_iff {items : List Value} :
    KeysOfItemsAreNames items ↔ ∀ item ∈ items, item.KeysAreNames := by
  induction items with
  | nil => simp [KeysOfItemsAreNames]
  | cons item items ih => rw [KeysOfItemsAreNames, ih, List.forall_mem_cons]

theorem keysOfEntriesAreNames_iff {entries : List (Text × Value)} :
    KeysOfEntriesAreNames entries ↔
      ∀ entry ∈ entries, Text.IsName entry.1 ∧ entry.2.KeysAreNames := by
  induction entries with
  | nil => simp [KeysOfEntriesAreNames]
  | cons entry entries ih => rw [KeysOfEntriesAreNames, ih, List.forall_mem_cons, and_assoc]

theorem scalar?_markEmpty (value : Value) : value.markEmpty.scalar? = value.scalar? := by
  cases value with
  | mapping entries =>
      rw [markEmpty]
      split <;> rfl
  | _ => rfl

theorem eq_of_scalar?_eq_some {value : Value} {scalar : Scalar} (h : value.scalar? = some scalar) :
    value = scalar.value := by
  cases value with
  | null => exact congrArg Scalar.value (Option.some.inj h)
  | number x => exact congrArg Scalar.value (Option.some.inj h)
  | text content => exact congrArg Scalar.value (Option.some.inj h)
  | list items => simp [scalar?] at h
  | mapping entries => simp [scalar?] at h

end Value

namespace Block

theorem induction_members {motive : Value → Prop}
    (step : ∀ value, (∀ member ∈ members value, motive member.item) → motive value)
    (value : Value) : motive value := by
  induction value using Value.induction with
  | null => exact step .null (by simp [members])
  | number x => exact step (.number x) (by simp [members])
  | text content => exact step (.text content) (by simp [members])
  | list items ih =>
      apply step
      intro member hmember
      obtain ⟨item, hitem, rfl⟩ := List.mem_map.mp hmember
      exact ih item hitem
  | mapping entries ih =>
      apply step
      intro member hmember
      obtain ⟨entry, hentry, rfl⟩ := List.mem_map.mp hmember
      exact ih entry hentry

def Member.markEmpty (member : Member) : Member :=
  { member with item := member.item.markEmpty }

theorem members_markEmpty (value : Value) :
    members value.markEmpty = (members value).map Member.markEmpty := by
  cases value with
  | list items =>
      rw [Value.markEmpty, Value.markEmptyItems_eq]
      simp [members, Member.ofItem, Member.markEmpty]
  | mapping entries =>
      cases entries with
      | nil => rfl
      | cons entry entries =>
          rw [Value.markEmpty, Value.markEmptyEntries_eq]
          simp [members, Member.ofEntry, Member.markEmpty]
  | _ => rfl

theorem render_eq_of_markEmpty {level : Int} {member : Member}
    (h : ∀ level, renderMembers level member.item.markEmpty = renderMembers level member.item) :
    member.markEmpty.render level = member.render level := by
  unfold Member.render Member.markEmpty
  simp only [Value.scalar?_markEmpty, h]

theorem renderAll_map_markEmpty {level : Int} {list : List Member}
    (h : ∀ member ∈ list, ∀ level,
      renderMembers level member.item.markEmpty = renderMembers level member.item) :
    renderAll level (list.map Member.markEmpty) = renderAll level list := by
  induction list with
  | nil => rfl
  | cons member list ih =>
      obtain ⟨hmember, hlist⟩ := List.forall_mem_cons.mp h
      simp only [renderAll, List.map_cons, List.flatMap_cons, render_eq_of_markEmpty hmember]
      exact congrArg (member.render level ++ ·) (ih hlist)

theorem renderMembers_markEmpty (value : Value) (level : Int) :
    renderMembers level value.markEmpty = renderMembers level value := by
  induction value using induction_members generalizing level with
  | step value ih =>
      rw [renderMembers_eq, members_markEmpty, renderMembers_eq]
      exact renderAll_map_markEmpty ih

theorem render_markEmpty (level : Int) (value : Value) :
    render level value.markEmpty = render level value := by
  simp only [render, Value.scalarText?, Value.scalar?_markEmpty, renderMembers_markEmpty]

end Block

end ConfTree
