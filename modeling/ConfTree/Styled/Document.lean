import ConfTree.Decimal.NumberText
import ConfTree.Styled.ScalarText
import ConfTree.Styled.Style
import ConfTree.Value

namespace ConfTree.Styled

/-- How deep collections may be nested in a value that is written in the styled format. -/
def depthLimit : Nat := 300

/-- Where a node stands: the column of the collection around it, if there is one, whether that
is a mapping, and whether the node is a key on the line of its value. -/
structure Place where
  indent : Option Nat
  isInMapping : Bool
  isSimpleKey : Bool

namespace Place

def root : Place :=
  ⟨none, false, false⟩

/-- The column of the further lines of a scalar at a place. -/
def scalarIndent (place : Place) : Nat :=
  match place.indent with
  | none => 2
  | some indent => indent + 2

/-- The column of the members of a collection at a place.  They may stand no further in than the
collection around them. -/
def memberIndent (place : Place) (isFlush : Bool) : Nat :=
  match place.indent with
  | none => 0
  | some indent => if isFlush then indent else indent + 2

def layout (place : Place) : ScalarLayout :=
  ⟨place.scalarIndent, !place.isSimpleKey⟩

end Place

namespace Output

def putText (place : Place) (output : Output) (text : Text) : Output :=
  match styleOf text with
  | .plain => output.putPlain place.layout text
  | .single => output.putSingle place.layout text
  | .double => output.putDouble place.layout text

def putScalar (place : Place) (output : Output) : Scalar → Output
  | .null => output.putPlain place.layout "null".toList
  | .number x => output.putPlain place.layout x.text
  | .text content => output.putText place content

def putEmpty (output : Output) (opening closing : Char) : Output :=
  (output.separate.indicator [opening] true false).indicator [closing] false false

/-- Adds a key with the indicator of its value: on one line if the key is simple, and otherwise
the key and the indicator on a line each. -/
def putKey (indent : Nat) (output : Output) (key : Text) : Output :=
  let fresh := output.indentTo indent
  if isSimpleKey key then
    (fresh.putText ⟨some indent, true, true⟩ key).indicator [':'] false false
  else
    let marked := fresh.separate.indicator ['?'] false true
    let keyed := marked.putText ⟨some indent, true, false⟩ key
    (keyed.indentTo indent).separate.indicator [':'] false true

mutual

def putValue (place : Place) (output : Output) : Value → Output
  | .null => output.putScalar place .null
  | .number x => output.putScalar place (.number x)
  | .text content => output.putScalar place (.text content)
  | .list items =>
      if items.isEmpty then output.putEmpty '[' ']'
      else
        let isFlush := place.isInMapping && !output.isInIndentation
        putItems (place.memberIndent isFlush) output items
  | .mapping entries =>
      if entries.isEmpty then output.putEmpty '\x7b' '\x7d'
      else putEntries (place.memberIndent false) output entries

def putItems (indent : Nat) (output : Output) : List Value → Output
  | [] => output
  | item :: items =>
      let marked := (output.indentTo indent).separate.indicator ['-'] false true
      putItems indent (putValue ⟨some indent, false, false⟩ marked item) items

def putEntries (indent : Nat) (output : Output) : List (Text × Value) → Output
  | [] => output
  | (key, value) :: entries =>
      let keyed := output.putKey indent key
      putEntries indent (putValue ⟨some indent, true, false⟩ keyed value) entries

end

end Output

/-- Whether a whole document is an unquoted scalar, so that its end has to be marked. -/
def isPlainScalar : Value → Bool
  | .null => true
  | .number _ => true
  | .text content => styleOf content = .plain
  | .list _ => false
  | .mapping _ => false

def documentText (value : Value) : Text :=
  let written := ((Output.start.putValue .root value).indentTo 0).text
  if isPlainScalar value then written ++ "...\n".toList else written

/-- The text of a value, unless it is nested too deeply. -/
def text? (value : Value) : Option Text :=
  if value.depth ≤ depthLimit then some (documentText value) else none

end ConfTree.Styled
