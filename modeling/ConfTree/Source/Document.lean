import ConfTree.Source.ConstantExpression
import ConfTree.Source.Literal

namespace ConfTree

structure Settings where
  /-- Whether number literals must have a fraction. -/
  fractionRequired : Bool := false

/-- How many list and mapping literals may stand inside each other. -/
def nestingLimit : Nat := 1000

/-- A reader between two items: the cursor and the constants declared so far. -/
structure Session where
  cursor : Cursor
  constants : Constants

namespace Session

def start (text : Text) (constants : Constants) : Session :=
  ⟨.start text, constants⟩

end Session

namespace Reading

def reference (constants : Constants) : Reading Value := do
  let name ← name
  match constants.valueOf? name with
  | some value => pure value
  | none => fail (.unknownName name)

/-- Reads a value whose first character tells its form.  The reader of the members of lists and
mappings is given. -/
def valueWith (settings : Settings) (constants : Constants) (member : Reading Value) :
    Reading Value := do
  skip
  match ← next? with
  | none => fail .missingValue
  | some c =>
      if c = '@' then quotedText
      else if c = '[' then list member
      else if c = '\x7b' then mapping member
      else if c = '|' then expression constants
      else if c = '+' ∨ c = '-' ∨ Text.isDigit c then number settings.fractionRequired
      else if Text.isNameLetter c then reference constants
      else fail (.unexpectedCharacter c)

/-- Reads a value in which literals may stand inside each other up to a given depth. -/
def valueWithin (settings : Settings) (constants : Constants) : Nat → Reading Value
  | 0 => nestingTooDeep
  | depth + 1 => valueWith settings constants (valueWithin settings constants depth)

def member (settings : Settings) (constants : Constants) : Reading Value :=
  valueWithin settings constants nestingLimit

def value (settings : Settings) (constants : Constants) : Reading Value :=
  valueWith settings constants (member settings constants)

def bindingMarker : Text :=
  ":=".toList

/-- Reads a declaration if one follows, and gives its name and value.  If none follows, the
cursor does not move. -/
def declaration? (settings : Settings) (constants : Constants) :
    Reading (Option (Text × Value)) := do
  let start ← get
  let name ← name
  if name = [] then
    pure none
  else
    skip
    if (← get).startsWith bindingMarker then
      advance bindingMarker.length
      let value ← value settings constants
      pure (some (name, value))
    else
      set start
      pure none

end Reading

abbrev SessionReading := EStateM ReadError Session

namespace SessionReading

/-- Moves the cursor of a session; what is read may depend on the constants. -/
def ofReading {α : Type} (reading : Constants → Reading α) : SessionReading α :=
  fun session =>
    match reading session.constants session.cursor with
    | .ok result cursor => .ok result { session with cursor := cursor }
    | .error error cursor => .error error { session with cursor := cursor }

def bind (name : Text) (value : Value) : SessionReading Unit :=
  modify fun session => { session with constants := session.constants.bind name value }

/-- Reads and binds a declaration if one follows, and tells whether one did. -/
def declaration (settings : Settings) : SessionReading Bool := do
  match ← ofReading (Reading.declaration? settings) with
  | some (name, value) =>
      bind name value
      pure true
  | none => pure false

/-- Reads items up to the end of the text and gives the last value among them, or the one given
if there is none.  Every item takes at least one character, so the bound is never used up. -/
def items (settings : Settings) : Nat → Value → SessionReading Value
  | 0, last => pure last
  | bound + 1, last => do
      ofReading fun _ => Reading.skip
      if ← ofReading fun _ => Reading.atEnd then
        pure last
      else if ← declaration settings then
        items settings bound last
      else
        let value ← ofReading (Reading.value settings)
        items settings bound value

def document (settings : Settings) : SessionReading Value := do
  let session ← get
  items settings (session.cursor.rest.length + 1) .null

end SessionReading

/-- Reads a whole text as a document, from given constants on. -/
def readDocument (settings : Settings) (constants : Constants) (text : Text) :
    EStateM.Result ReadError Session Value :=
  SessionReading.document settings (.start text constants)

end ConfTree
