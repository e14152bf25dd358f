import ConfTree.Decimal.Literal
import ConfTree.Source.Reading
import ConfTree.Value

/-!
Literals: quoted texts, numbers, lists and mappings.  The readers of lists and mappings are given
the reader of their members.  Their loops are bounded by the length of the text still to be read,
of which every member takes at least one character; where the bound is used up the text is too,
and the answer is what a further member would give there.
-/

namespace ConfTree.Reading

/-- Reads a quoted text, taken verbatim up to the next quote. -/
def quotedText : Reading Value := do
  expect '@'
  if (← next?) = some '"' then
    advance 1
    let content ← run (· ≠ '"')
    if ← atEnd then
      fail .unterminatedText
    else
      advance 1
      pure (.text content)
  else
    fail (.expectedCharacter '"')

def sign : Reading Sign := do
  let sign := Sign.leading [← current]
  advance sign.text.length
  pure sign

/-- Reads a number.  Where fractions are required, a literal without a point is refused before
its digits are looked at. -/
def number (fractionRequired : Bool) : Reading Value := do
  let sign ← sign
  let whole ← digits
  if (← next?) = some '.' then
    advance 1
    let fraction ← digits
    if whole = [] ∨ fraction = [] then
      fail .invalidNumber
    else
      pure (.number (NumberLiteral.value ⟨sign, whole, some fraction⟩))
  else if fractionRequired then
    fail .fractionRequired
  else if whole = [] then
    fail (.noDigits sign.text)
  else
    pure (.number (NumberLiteral.value ⟨sign, whole, none⟩))

/-- Reads what follows a member of a collection and tells whether a further member has to come.
One separator may stand before the closing bracket. -/
def continues (separator closing : Char) (otherwise : Cause) : Reading Bool := do
  if ← accept separator then
    pure !(← accept closing)
  else if ← accept closing then
    pure false
  else
    fail otherwise

def items (member : Reading Value) : Nat → Reading (List Value)
  | 0 => fail .missingValue
  | bound + 1 => do
      let item ← member
      if ← continues ';' ']' .expectedListSeparator then
        let further ← items member bound
        pure (item :: further)
      else
        pure [item]

def list (member : Reading Value) : Reading Value := do
  expect '['
  if ← accept ']' then
    pure (.list [])
  else
    let cursor ← get
    .list <$> items member cursor.rest.length

def entry (member : Reading Value) : Reading (Text × Value) := do
  skip
  let key ← name
  if key = [] then
    fail .expectedName
  else
    expect ':'
    let value ← member
    pure (key, value)

/-- Reads the entries of a mapping that is not empty, and its closing bracket, and puts them to
those read before. -/
def entries (member : Reading Value) : Nat → Entries → Reading Entries
  | 0, _ => fail .expectedName
  | bound + 1, before => do
      let (key, value) ← entry member
      let after := before.put key value
      if ← continues ',' '\x7d' .expectedMappingSeparator then
        entries member bound after
      else
        pure after

def mapping (member : Reading Value) : Reading Value := do
  expect '\x7b'
  if ← accept '\x7d' then
    pure (.mapping [])
  else
    let cursor ← get
    .mapping <$> entries member cursor.rest.length []

end ConfTree.Reading
