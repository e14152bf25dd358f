import ConfTree.Styled.CharacterClass
import ConfTree.Styled.ImplicitType

namespace ConfTree.Styled

inductive Style where
  | plain
  | single
  | double
deriving DecidableEq

/-- Whether a separation, or the end of the text, comes first. -/
def isSetOff : Text → Bool
  | [] => true
  | c :: _ => isSeparation c

/-- The characters that cannot begin an unquoted text. -/
def leadingIndicators : Text :=
  "#,[]\x7b\x7d&*!|>'\"%@\x60".toList

/-- Whether the first character of a text is an indicator there. -/
def beginsWithIndicator : Text → Bool
  | [] => false
  | c :: rest => leadingIndicators.contains c || ((c = '?' || c = ':' || c = '-') && isSetOff rest)

/-- Whether a later character is an indicator: a colon before a separation, or a hash behind one.
The character before the text is given. -/
def hasInnerIndicator (before : Char) : Text → Bool
  | [] => false
  | c :: rest =>
      (c = ':' && isSetOff rest) || (c = '#' && isSeparation before) || hasInnerIndicator c rest

/-- Whether a text would be taken for structure if it were unquoted. -/
def hasIndicator (text : Text) : Bool :=
  ['-', '-', '-'].isPrefixOf text || ['.', '.', '.'].isPrefixOf text ||
    beginsWithIndicator text ||
    match text with
    | [] => false
    | c :: rest => hasInnerIndicator c rest

def beginsWithSpaceOrBreak : Text → Bool
  | [] => false
  | c :: _ => c = ' ' || isBreak c

/-- Whether a space and a break stand side by side, in one order or the other. -/
def hasSpaceBesideBreak : Text → Bool
  | first :: second :: rest =>
      (first = ' ' && isBreak second) || (isBreak first && second = ' ') ||
        hasSpaceBesideBreak (second :: rest)
  | _ => false

/-- Whether a text can stand between single quotes. -/
def allowsSingle (text : Text) : Bool :=
  text.all isOrdinary && !hasSpaceBesideBreak text

/-- Whether a text can stand unquoted and be told from structure. -/
def allowsPlain (text : Text) : Bool :=
  allowsSingle text && !hasIndicator text && !text.any isBreak &&
    !beginsWithSpaceOrBreak text && !beginsWithSpaceOrBreak text.reverse

def styleOf (text : Text) : Style :=
  if (implicitType? text).isNone && allowsPlain text then .plain
  else if allowsSingle text then .single
  else .double

/-- How long a key on the line of its value may be. -/
def simpleKeyLength : Nat := 122

def isSimpleKey (key : Text) : Bool :=
  key ≠ [] && !key.any isBreak && key.length ≤ simpleKeyLength

end ConfTree.Styled
