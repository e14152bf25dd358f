import ConfTree.Source.Insignificant
import ConfTree.Source.ReadError

/-!
Reading: steps that move a cursor and may fail.  A failing step keeps the cursor where the
failure was noticed, and every cause is located at that cursor.
-/

namespace ConfTree

/-- A step that moves a cursor. -/
abbrev Reading := EStateM ReadError Cursor

namespace Reading

def fail {α : Type} (cause : Cause) : Reading α :=
  fun cursor => .error (.located cause cursor.position) cursor

def nestingTooDeep {α : Type} : Reading α :=
  fun cursor => .error .nestingTooDeep cursor

def next? : Reading (Option Char) :=
  fun cursor => .ok cursor.rest.head? cursor

def current : Reading Char :=
  fun cursor =>
    match cursor.rest with
    | c :: _ => .ok c cursor
    | [] => .error .pastEnd cursor

def atEnd : Reading Bool :=
  fun cursor => .ok cursor.rest.isEmpty cursor

def advance (count : Nat) : Reading Unit :=
  fun cursor => .ok () (cursor.advance count)

/-- Reads the longest run of characters of a class. -/
def run (inClass : Char → Bool) : Reading Text :=
  fun cursor =>
    let taken := cursor.rest.takeWhile inClass
    .ok taken (cursor.advance taken.length)

def name : Reading Text :=
  run Text.isNameLetter

def digits : Reading Text :=
  run Text.isDigit

/-- Skips insignificant content.  An unclosed block comment reaches to the end of the text. -/
def skip : Reading Unit := do
  let cursor ← get
  match Insignificant.length? .between cursor.rest with
  | some count => advance count
  | none => do
      advance cursor.rest.length
      fail .unterminatedComment

/-- Whether a given character follows insignificant content, which is skipped. -/
def peek (c : Char) : Reading Bool := do
  skip
  let next ← next?
  pure (next = some c)

/-- Reads a given character if it follows insignificant content, and tells whether it did. -/
def accept (c : Char) : Reading Bool := do
  if ← peek c then
    advance 1
    pure true
  else
    pure false

def expect (c : Char) : Reading Unit := do
  if ← peek c then advance 1 else fail (.expectedCharacter c)

end Reading

end ConfTree
