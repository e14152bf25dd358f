import ConfTree.Block.ScalarText

/-!
The block format, written by a loop over the collections that are still open.  Every member of a
collection has a line of its own: a scalar stands on it, and the members of a collection follow
two columns further in.  An empty collection adds nothing to the line of its own.
-/

namespace ConfTree

namespace Block

def indentStep : Int := 2

/-- A member of a collection, with what comes before a nested collection and before a scalar. -/
structure Member where
  header : Text
  lead : Text
  item : Value

def Member.ofItem (item : Value) : Member :=
  ⟨['-', ' '], ['-', ' '], item⟩

def Member.ofEntry (entry : Text × Value) : Member :=
  ⟨entry.1 ++ [':'], entry.1 ++ [':', ' '], entry.2⟩

/-- The members of a value in order; a scalar has none. -/
def members : Value → List Member
  | .list items => items.map Member.ofItem
  | .mapping entries => entries.map Member.ofEntry
  | _ => []

/-- The spaces before a line; a negative level gives none. -/
def indentation (level : Int) : Text :=
  Text.spaces level.toNat

/-- An open collection: the members still to be written, and their level. -/
structure Frame where
  members : List Member
  level : Int

mutual

/-- The number of steps that the members of a value take, two for a collection and one for a
scalar. -/
def weight : Value → Nat
  | .null => 1
  | .number _ => 1
  | .text _ => 1
  | .list items => weightOfItems items + 2
  | .mapping entries => weightOfEntries entries + 2

def weightOfItems : List Value → Nat
  | [] => 0
  | item :: items => weight item + weightOfItems items

def weightOfEntries : List (Text × Value) → Nat
  | [] => 0
  | (_, value) :: entries => weight value + weightOfEntries entries

end

def weightOfMembers (members : List Member) : Nat :=
  members.foldr (fun member total => weight member.item + total) 0

def weightOfFrames (frames : List Frame) : Nat :=
  frames.foldr (fun frame total => weightOfMembers frame.members + 1 + total) 0

theorem weightOfItems_eq (items : List Value) :
    weightOfItems items = weightOfMembers (items.map Member.ofItem) := by
  induction items with
  | nil => rfl
  | cons item items ih => simp_all [weightOfItems, weightOfMembers, Member.ofItem]

theorem weightOfEntries_eq (entries : List (Text × Value)) :
    weightOfEntries entries = weightOfMembers (entries.map Member.ofEntry) := by
  induction entries with
  | nil => rfl
  | cons entry entries ih => simp_all [weightOfEntries, weightOfMembers, Member.ofEntry]

theorem weight_eq_of_scalar?_eq_none {value : Value} (h : value.scalar? = none) :
    weight value = weightOfMembers (members value) + 2 := by
  cases value with
  | list items => simp [weight, members, weightOfItems_eq]
  | mapping entries => simp [weight, members, weightOfEntries_eq]
  | null => simp [Value.scalar?] at h
  | number x => simp [Value.scalar?] at h
  | text content => simp [Value.scalar?] at h

theorem weight_pos (value : Value) : 0 < weight value := by
  cases value <;> simp [weight]

/-- The lines of the open collections, the innermost first. -/
def lines : List Frame → Text
  | [] => []
  | ⟨[], _⟩ :: frames => lines frames
  | ⟨member :: later, level⟩ :: frames =>
      match _hscalar : member.item.scalar? with
      | some scalar =>
          indentation level ++ member.lead ++ scalar.blockText ++ '\n' ::
            lines (⟨later, level⟩ :: frames)
      | none =>
          indentation level ++ member.header ++ '\n' ::
            lines (⟨members member.item, level + indentStep⟩ :: ⟨later, level⟩ :: frames)
termination_by frames => weightOfFrames frames
decreasing_by
  · simp [weightOfFrames, weightOfMembers]
  · simp [weightOfFrames, weightOfMembers, weight_pos]
  · simp [weightOfFrames, weightOfMembers, weight_eq_of_scalar?_eq_none _hscalar]
    omega

/-- The text of a value whose outermost lines stand at a given level. -/
def text (value : Value) (level : Int) : Text :=
  match value.scalar? with
  | some scalar => indentation level ++ scalar.blockText ++ ['\n']
  | none => lines [⟨members value, level⟩]

end Block

end ConfTree
