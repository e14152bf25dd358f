import ConfTree.Binary64.Basic
import ConfTree.Text.Basic

namespace ConfTree

inductive Value where
  | null
  | number (x : Binary64)
  | text (content : Text)
  | list (items : List Value)
  | mapping (entries : List (Text × Value))

/-- The entries of a mapping in order. -/
abbrev Entries := List (Text × Value)

inductive Kind where
  | null
  | number
  | text
  | list
  | mapping
deriving DecidableEq

namespace Kind

def word : Kind → Text
  | .null => "null".toList
  | .number => "number".toList
  | .text => "string".toList
  | .list => "list".toList
  | .mapping => "dict".toList

end Kind

/-- The values that are written on one line. -/
inductive Scalar where
  | null
  | number (x : Binary64)
  | text (content : Text)
deriving DecidableEq

/-- Entries with one more: a key that is there already keeps its place and takes the new value. -/
def Entries.put (key : Text) (value : Value) : Entries → Entries
  | [] => [(key, value)]
  | (present, old) :: rest =>
      if present = key then (present, value) :: rest
      else (present, old) :: Entries.put key value rest

theorem Entries.map_fst_put (key : Text) (value : Value) (entries : Entries) :
    (entries.put key value).map Prod.fst =
      if key ∈ entries.map Prod.fst then entries.map Prod.fst
      else entries.map Prod.fst ++ [key] := by
  induction entries with
  | nil => simp [Entries.put]
  | cons entry rest ih =>
      obtain ⟨present, old⟩ := entry
      by_cases h : present = key
      · simp [Entries.put, h]
      · have hne : ¬key = present := fun heq => h heq.symm
        simp only [Entries.put, h, if_false, List.map_cons, List.mem_cons, hne, false_or, ih]
        split <;> simp

theorem Entries.lookup_cons (key sought : Text) (value : Value) (entries : Entries) :
    List.lookup sought ((key, value) :: entries) =
      if sought = key then some value else List.lookup sought entries := by
  rw [List.lookup_cons]
  by_cases h : sought = key
  · simp [h]
  · have hbeq : (sought == key) = false := beq_eq_false_iff_ne.mpr h
    rw [hbeq, if_neg h]

theorem Entries.lookup_put (key sought : Text) (value : Value) (entries : Entries) :
    List.lookup sought (entries.put key value) =
      if sought = key then some value else List.lookup sought entries := by
  induction entries with
  | nil => simp [Entries.put, Entries.lookup_cons]
  | cons entry rest ih =>
      obtain ⟨present, old⟩ := entry
      by_cases h : present = key
      · subst h
        by_cases hsought : sought = present <;> simp [Entries.put, Entries.lookup_cons, hsought]
      · by_cases hsought : sought = present
        · subst hsought
          simp [Entries.put, h]
        · simp [Entries.put, Entries.lookup_cons, h, hsought, ih]

namespace Value

def kind : Value → Kind
  | .null => .null
  | .number _ => .number
  | .text _ => .text
  | .list _ => .list
  | .mapping _ => .mapping

def scalar? : Value → Option Scalar
  | .null => some .null
  | .number x => some (.number x)
  | .text content => some (.text content)
  | .list _ => none
  | .mapping _ => none

mutual

/-- How deep collections are nested in a value; a scalar has depth zero. -/
def depth : Value → Nat
  | .null => 0
  | .number _ => 0
  | .text _ => 0
  | .list items => depthOfItems items + 1
  | .mapping entries => depthOfEntries entries + 1

def depthOfItems : List Value → Nat
  | [] => 0
  | item :: items => max item.depth (depthOfItems items)

def depthOfEntries : List (Text × Value) → Nat
  | [] => 0
  | (_, value) :: entries => max value.depth (depthOfEntries entries)

end

end Value

end ConfTree
