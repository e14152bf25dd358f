import ConfTree.Text.Basic

namespace ConfTree.Styled

/-- The text written so far, its latest piece first, with the column behind it. -/
structure Output where
  column : Nat
  /-- Whether the next indicator needs no space before it. -/
  isSetOff : Bool
  /-- Whether nothing but indentation and indicators stands on the line. -/
  isInIndentation : Bool
  pieces : List Text

namespace Output

def start : Output :=
  ⟨0, true, true, []⟩

def text (output : Output) : Text :=
  output.pieces.reverse.flatten

def put (output : Output) (piece : Text) : Output :=
  { output with column := output.column + piece.length, pieces := piece :: output.pieces }

/-- Notes that the line has content, directly behind which nothing else may stand. -/
def beginContent (output : Output) : Output :=
  { output with isSetOff := false, isInIndentation := false }

/-- Adds a space unless the place is set off. -/
def separate (output : Output) : Output :=
  if output.isSetOff then output else output.put [' ']

/-- Adds an indicator, which may leave the next place set off and may belong to the
indentation. -/
def indicator (output : Output) (mark : Text) (setsOff belongsToIndentation : Bool) : Output :=
  { output.put mark with
    isSetOff := setsOff
    isInIndentation := output.isInIndentation && belongsToIndentation }

def breakLine (output : Output) (lineBreak : Char) : Output :=
  ⟨0, true, true, [lineBreak] :: output.pieces⟩

/-- Moves to a column at the start of a line, on a new line unless this one is still free. -/
def indentTo (output : Output) (indent : Nat) : Output :=
  let isFree := output.isInIndentation &&
    (output.column < indent || (output.column = indent && output.isSetOff))
  let fresh := if isFree then output else output.breakLine '\n'
  if fresh.column < indent then
    { fresh.put (Text.spaces (indent - fresh.column)) with isSetOff := true }
  else
    fresh

end Output

end ConfTree.Styled
