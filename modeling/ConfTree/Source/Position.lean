import ConfTree.Text.Basic

namespace ConfTree

/-- A line and a column, both counted from one. -/
structure Position where
  line : Nat
  column : Nat
deriving DecidableEq

namespace Position

def start : Position :=
  ⟨1, 1⟩

def step (position : Position) (c : Char) : Position :=
  if c = '\n' then ⟨position.line + 1, 1⟩ else ⟨position.line, position.column + 1⟩

def past (position : Position) (text : Text) : Position :=
  text.foldl step position

theorem past_append (position : Position) (first second : Text) :
    position.past (first ++ second) = (position.past first).past second := by
  simp [past]

end Position

/-- A place in a text, with what is still to be read. -/
structure Cursor where
  rest : Text
  offset : Nat
  position : Position
deriving DecidableEq

namespace Cursor

def start (text : Text) : Cursor :=
  ⟨text, 0, .start⟩

/-- The cursor a number of characters further, or at the end if there are fewer. -/
def advance (cursor : Cursor) (count : Nat) : Cursor where
  rest := cursor.rest.drop count
  offset := cursor.offset + (cursor.rest.take count).length
  position := cursor.position.past (cursor.rest.take count)

@[simp]
theorem rest_advance (cursor : Cursor) (count : Nat) :
    (cursor.advance count).rest = cursor.rest.drop count := rfl

theorem advance_advance (cursor : Cursor) (first second : Nat) :
    (cursor.advance first).advance second = cursor.advance (first + second) := by
  have htext : cursor.rest.take (first + second) =
      cursor.rest.take first ++ (cursor.rest.drop first).take second := List.take_add
  simp only [advance, List.drop_drop, htext, Position.past_append, List.length_append,
    Nat.add_assoc]

def startsWith (cursor : Cursor) (text : Text) : Bool :=
  text.isPrefixOf cursor.rest

end Cursor

end ConfTree
