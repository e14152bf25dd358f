import ConfTree.Value

namespace ConfTree

/-- Names bound to values, most recent first. -/
abbrev Constants := List (Text × Value)

namespace Constants

def valueOf? (constants : Constants) (name : Text) : Option Value :=
  constants.lookup name

def bind (constants : Constants) (name : Text) (value : Value) : Constants :=
  (name, value) :: constants

theorem valueOf?_bind (constants : Constants) (name sought : Text) (value : Value) :
    (constants.bind name value).valueOf? sought =
      if sought = name then some value else constants.valueOf? sought := by
  exact Entries.lookup_cons name sought value constants

/-- The table of the constants, in the order in which their names were first bound. -/
def table (constants : Constants) : Entries :=
  constants.foldr (fun binding => Entries.put binding.1 binding.2) []

/-- The table sorted by name in the order of the code points.  It is the same for the same
constants, in whatever order they were bound. -/
def listing (constants : Constants) : List (Text × Value) :=
  constants.table.mergeSort fun left right => left.1.isAtMost right.1

end Constants

end ConfTree
