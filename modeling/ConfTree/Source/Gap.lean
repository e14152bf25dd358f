import ConfTree.Source.Insignificant

namespace ConfTree

inductive Piece where
  | blank (c : Char)
  | lineComment (body : Text)
  | blockComment (body : Text)
deriving DecidableEq

namespace Piece

/-- The text of a piece; a line comment does not include the end of its line. -/
def text : Piece → Text
  | .blank c => [c]
  | .lineComment body => Insignificant.lineMarker ++ body
  | .blockComment body => Insignificant.blockMarker ++ body ++ [')']

/-- A comment does not hold what ends it. -/
def IsValid : Piece → Prop
  | .blank c => Text.isBlank c = true
  | .lineComment body => '\n' ∉ body
  | .blockComment body => ')' ∉ body

end Piece

abbrev Gap := List Piece

namespace Gap

def text (gap : Gap) : Text :=
  gap.flatMap Piece.text

/-- The pieces are valid, and every line comment is the last one or ends with its line. -/
def IsValid : Gap → Prop
  | [] => True
  | .lineComment body :: rest =>
      (Piece.lineComment body).IsValid ∧
        (rest = [] ∨ rest.head? = some (.blank '\n')) ∧ IsValid rest
  | piece :: rest => piece.IsValid ∧ IsValid rest

/-- The last piece is no line comment, so anything may follow. -/
def IsClosed (gap : Gap) : Prop :=
  ∀ body, gap.getLast? ≠ some (.lineComment body)

/-- Content that may stand before something significant. -/
def IsInner (gap : Gap) : Prop :=
  gap.IsValid ∧ gap.IsClosed

end Gap

end ConfTree
