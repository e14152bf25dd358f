import ConfTree.Text.Basic

namespace ConfTree.Insignificant

def lineMarker : Text :=
  "REM".toList

def blockMarker : Text :=
  "(comment".toList

/-- What the text before a place leaves open: nothing, a line comment or a block comment. -/
inductive Region where
  | between
  | lineComment
  | blockComment
deriving DecidableEq

/-- How many characters at the start of a text are insignificant, or none if a block comment is
not closed.  The markers hold neither a newline nor a closing bracket, so a comment is open from
the first character of its marker on. -/
def length? : Region → Text → Option Nat
  | .between, [] => some 0
  | .between, c :: rest =>
      if Text.isBlank c then (length? .between rest).map (· + 1)
      else if lineMarker.isPrefixOf (c :: rest) then (length? .lineComment rest).map (· + 1)
      else if blockMarker.isPrefixOf (c :: rest) then (length? .blockComment rest).map (· + 1)
      else some 0
  | .lineComment, [] => some 0
  | .lineComment, c :: rest =>
      (length? (if c = '\n' then .between else .lineComment) rest).map (· + 1)
  | .blockComment, [] => none
  | .blockComment, c :: rest =>
      (length? (if c = ')' then .between else .blockComment) rest).map (· + 1)

end ConfTree.Insignificant
