import ConfTree.Block.ScalarText

namespace ConfTree.Block

def line (level : Int) (content : Text) : Text :=
  Text.spaces level.toNat ++ content ++ ['\n']

mutual

def renderMembers (level : Int) : Value → Text
  | .null => []
  | .number _ => []
  | .text _ => []
  | .list items => renderItems level items
  | .mapping entries => renderEntries level entries

def renderItems (level : Int) : List Value → Text
  | [] => []
  | item :: items =>
      (match item.scalarText? with
        | some scalar => line level (['-', ' '] ++ scalar)
        | none => line level ['-', ' '] ++ renderMembers (level + 2) item) ++
      renderItems level items

def renderEntries (level : Int) : List (Text × Value) → Text
  | [] => []
  | (key, value) :: entries =>
      (match value.scalarText? with
        | some scalar => line level (key ++ [':', ' '] ++ scalar)
        | none => line level (key ++ [':']) ++ renderMembers (level + 2) value) ++
      renderEntries level entries

end

/-- The text of a value: one line for a scalar, and the lines of its members for a collection. -/
def render (level : Int) (value : Value) : Text :=
  match value.scalarText? with
  | some scalar => line level scalar
  | none => renderMembers level value

end ConfTree.Block
