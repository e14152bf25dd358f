import ConfTree.Styled.CharacterClass
import ConfTree.Styled.Output
import ConfTree.Text.Digits

namespace ConfTree.Styled

def pageWidth : Nat := 80

/-- How a scalar may be laid out: where its further lines begin, and whether it may have any. -/
structure ScalarLayout where
  indent : Nat
  folds : Bool

namespace Output

def isPastPage (output : Output) : Bool :=
  pageWidth < output.column

def putPlainRun (layout : ScalarLayout) (output : Output) (run : Text) : Output :=
  if run = [' '] ∧ output.isPastPage ∧ layout.folds then
    (output.indentTo layout.indent).beginContent
  else
    output.put run

def putPlain (layout : ScalarLayout) (output : Output) (text : Text) : Output :=
  (text.splitBy fun left right => (left == ' ') == (right == ' ')).foldl (putPlainRun layout)
    output.separate.beginContent

/-- Adds a run of line breaks between single quotes.  The first newline of a run is doubled,
because a single one would be read as a space. -/
def putBreaks (layout : ScalarLayout) (output : Output) (run : Text) : Output :=
  let first := if run.head? = some '\n' then output.breakLine '\n' else output
  (run.foldl breakLine first).indentTo layout.indent

def doubleQuotes (text : Text) : Text :=
  text.flatMap fun c => if c = '\'' then ['\'', '\''] else [c]

/-- Adds runs between single quotes: of spaces, of line breaks and of other characters.  A space
is folded only if it is neither the first nor the last of the text. -/
def putSingleRuns (layout : ScalarLayout) (isFirst : Bool) (output : Output) :
    List Text → Output
  | [] => output
  | run :: runs =>
      let next :=
        if run = [' '] ∧ output.isPastPage ∧ layout.folds ∧ ¬isFirst ∧ runs ≠ [] then
          output.indentTo layout.indent
        else if run.any isBreak then
          output.putBreaks layout run
        else
          output.put (doubleQuotes run)
      putSingleRuns layout false next runs

/-- Whether two neighbours belong to one run between single quotes. -/
def isSameRun (left right : Char) : Bool :=
  (left == ' ') == (right == ' ') && isBreak left == isBreak right

def putSingle (layout : ScalarLayout) (output : Output) (text : Text) : Output :=
  let opened := output.separate.indicator ['\''] false false
  (putSingleRuns layout true opened (text.splitBy isSameRun)).indicator ['\''] false false

def capitalHexadecimal (width n : Nat) : Text :=
  (Text.hexadecimal width n).map Char.toUpper

def shortEscapes : List (Char × Char) :=
  [('\x00', '0'), ('\x07', 'a'), ('\x08', 'b'), ('\t', 't'), ('\n', 'n'), ('\x0b', 'v'),
    ('\x0c', 'f'), ('\r', 'r'), ('\x1b', 'e'), ('"', '"'), ('\\', '\\'), ('\x85', 'N'),
    ('\u2028', 'L'), ('\u2029', 'P')]

/-- The escape of a character between double quotes: one letter if there is one, and otherwise
the code point in two, four or eight digits. -/
def escapeOf (c : Char) : Text :=
  match shortEscapes.lookup c with
  | some letter => ['\\', letter]
  | none =>
      if c.toNat ≤ 0xff then '\\' :: 'x' :: capitalHexadecimal 2 c.toNat
      else if c.toNat ≤ 0xffff then '\\' :: 'u' :: capitalHexadecimal 4 c.toNat
      else '\\' :: 'U' :: capitalHexadecimal 8 c.toNat

/-- Adds the characters that are held back, the latest first. -/
def flush (output : Output) (held : Text) : Output :=
  if held = [] then output else output.put held.reverse

/-- Folds between double quotes.  A backslash ends the line, and one begins the next line if that
would begin with a space. -/
def foldDouble (layout : ScalarLayout) (output : Output) (held : Text) (next : Option Char) :
    Output :=
  let folded := ((output.put (held.reverse ++ ['\\'])).indentTo layout.indent).beginContent
  if next = some ' ' then folded.put ['\\'] else folded

/-- Adds characters between double quotes.  Characters that need no escape are held back, the
latest first, until one needs an escape or a fold is due.  A fold may come before a space, and
wherever nothing is held back, but neither at the first character nor at the last; behind an
escape the column counts as one less. -/
def putDoubleFrom (layout : ScalarLayout) (isFirst : Bool) (output : Output) (held : Text) :
    Text → Output
  | [] => output.flush held
  | c :: rest =>
      let isInner := layout.folds && !isFirst && !rest.isEmpty
      if isUnescaped c then
        if isInner && (c = ' ' || held.isEmpty) && pageWidth < output.column + held.length then
          putDoubleFrom layout false (output.foldDouble layout held (some c)) [c] rest
        else
          putDoubleFrom layout false output (c :: held) rest
      else
        let escaped := (output.flush held).put (escapeOf c)
        if isInner && pageWidth + 1 < escaped.column then
          putDoubleFrom layout false (escaped.foldDouble layout [] rest.head?) [] rest
        else
          putDoubleFrom layout false escaped [] rest

def putDouble (layout : ScalarLayout) (output : Output) (text : Text) : Output :=
  let opened := output.separate.indicator ['"'] false false
  (putDoubleFrom layout true opened [] text).indicator ['"'] false false

end Output

end ConfTree.Styled
