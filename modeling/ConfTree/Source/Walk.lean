import ConfTree.Source.Document

namespace ConfTree

/-- A session with the cursors saved so far, the first one first. -/
structure Walk where
  session : Session
  saved : List Cursor

namespace Walk

def start (text : Text) : Walk :=
  ⟨.start text [], []⟩

inductive Step where
  | document
  | value
  | quotedText
  | number
  | list
  | mapping
  | expression
  | declaration
  | atEnd
  | digits
  | name
  | current
  | skip
  | advance (count : Nat)
  | peek (c : Char)
  | expect (c : Char)
  | constants
  | save
  | restore (slot : Nat)

inductive Reply where
  | nothing
  | value (value : Value)
  | flag (flag : Bool)
  | count (count : Nat)
  | text (text : Text)
  | constants (listing : List (Text × Value))

/-- The step of a session that a step of a walk performs; saving and restoring perform none. -/
def reply (settings : Settings) : Step → SessionReading Reply
  | .document => .value <$> SessionReading.document settings
  | .value => .value <$> .ofReading (Reading.value settings)
  | .quotedText => .value <$> .ofReading fun _ => Reading.quotedText
  | .number => .value <$> .ofReading fun _ => Reading.number settings.fractionRequired
  | .list => .value <$> .ofReading fun constants =>
      Reading.list (Reading.member settings constants)
  | .mapping => .value <$> .ofReading fun constants =>
      Reading.mapping (Reading.member settings constants)
  | .expression => .value <$> .ofReading Reading.expression
  | .declaration => .flag <$> SessionReading.declaration settings
  | .atEnd => .flag <$> .ofReading fun _ => Reading.atEnd
  | .digits => (fun run => .count run.length) <$> .ofReading fun _ => Reading.digits
  | .name => .text <$> .ofReading fun _ => Reading.name
  | .current => (fun c => .text [c]) <$> .ofReading fun _ => Reading.current
  | .skip => (fun _ => .nothing) <$> .ofReading fun _ => Reading.skip
  | .advance count => (fun _ => .nothing) <$> .ofReading fun _ => Reading.advance count
  | .peek c => .flag <$> .ofReading fun _ => Reading.peek c
  | .expect c => (fun _ => .nothing) <$> .ofReading fun _ => Reading.expect c
  | .constants => do
      let session ← get
      pure (.constants session.constants.listing)
  | .save => pure .nothing
  | .restore _ => pure .nothing

def save (walk : Walk) : Walk :=
  { walk with saved := walk.saved ++ [walk.session.cursor] }

/-- Returns to a saved cursor; the constants stay. -/
def restore (walk : Walk) (slot : Nat) : Walk :=
  match walk.saved[slot]? with
  | some cursor => { walk with session := { walk.session with cursor := cursor } }
  | none => walk

def perform (settings : Settings) (step : Step) : EStateM ReadError Walk Reply :=
  fun walk =>
    match step with
    | .save => .ok .nothing walk.save
    | .restore slot => .ok .nothing (walk.restore slot)
    | step =>
        match reply settings step walk.session with
        | .ok reply session => .ok reply { walk with session := session }
        | .error error session => .error error { walk with session := session }

end Walk

end ConfTree
