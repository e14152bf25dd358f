import ConfTree.Source.Document
import ConfTree.Styled.Pattern
import ConfTree.Text.DecimalDigit

/-!
Command line arguments.  Every argument is first sorted into options and plain arguments, and
then the options are performed from left to right, each taking the plain argument behind it if
it needs a value.  Long options may be shortened as long as only one fits, and short ones may
share a dash.  How a value is attached to an option has changed between two versions of the option
parser, and both are in use.
-/

namespace ConfTree.CommandLine

inductive Format where
  | block
  | styled
deriving DecidableEq

namespace Format

def word : Format → Text
  | .block => "block".toList
  | .styled => "pyyaml".toList

def ofWord? (word : Text) : Option Format :=
  [Format.block, Format.styled].find? fun format => format.word = word

end Format

inductive Switch where
  | help
  | output
  | strictNumbers
  | emitter
  | verbose
deriving DecidableEq

namespace Switch

def takesValue : Switch → Bool
  | .output => true
  | .emitter => true
  | _ => false

def shortNames : List (Char × Switch) :=
  [('h', .help), ('o', .output), ('v', .verbose)]

def longNames : List (Text × Switch) :=
  [("help".toList, .help), ("output".toList, .output), ("strict-numbers".toList, .strictNumbers),
    ("emitter".toList, .emitter), ("verbose".toList, .verbose)]

end Switch

/-- How an attached value is read.  By the earlier convention an equals sign counts only right
behind the first option of an argument, and two dashes are no value.  By the later one, which newer
versions of the option parser follow, it counts behind every option, an option that needs no value
takes none, and two dashes are a value. -/
inductive Convention where
  | earlier
  | later
deriving DecidableEq

/-- What an argument is taken for.  A long option may have a value behind an equals sign, and a
short one has the rest of the argument. -/
inductive Word where
  | plain
  | separator
  | long (option : Switch) (value : Option Text)
  | short (option : Switch) (rest : Text)
  | unknown

namespace Word

/-- Plain arguments that begin with a dash: negative numbers in the digits of any script.  A
newline behind the number does not count. -/
def negativeNumber : Pattern :=
  let digit := Pattern.character Text.isDecimalDigit
  .inOrder
    [.exactly ['-'],
      .choice (.oneOrMore digit) (.inOrder [.repeated digit, .exactly ['.'], .oneOrMore digit]),
      .optional (.exactly ['\n'])]

def ofUnnamed (argument : Text) : Word :=
  if negativeNumber.accepts argument || argument.contains ' ' then .plain else .unknown

/-- The part of a text before its first equals sign, and the part behind it if there is one. -/
def splitAtEquals (text : Text) : Text × Option Text :=
  let name := text.takeWhile (· ≠ '=')
  (name, match text.dropWhile (· ≠ '=') with
    | [] => none
    | _ :: value => some value)

/-- An argument with two dashes, whose text behind them is given; none if several options fit. -/
def ofLong? (argument name : Text) (value : Option Text) : Option Word :=
  match Switch.longNames.lookup name with
  | some option => some (.long option value)
  | none =>
      match Switch.longNames.filter fun entry => name.isPrefixOf entry.1 with
      | [] => some (ofUnnamed argument)
      | [entry] => some (.long entry.2 value)
      | _ => none

/-- What an argument is taken for, none if it could be several options. -/
def ofArgument? (argument : Text) : Option Word :=
  match argument with
  | ['-', '-'] => some .separator
  | '-' :: '-' :: text =>
      let (name, value) := splitAtEquals text
      ofLong? argument name value
  | '-' :: letter :: rest =>
      match Switch.shortNames.lookup letter with
      | none => some (ofUnnamed argument)
      | some option => some (.short option rest)
  | _ => some .plain

/-- What the arguments are taken for; behind a separator all are plain. -/
def ofArguments? : List Text → Option (List (Text × Word))
  | [] => some []
  | argument :: arguments =>
      match ofArgument? argument with
      | none => none
      | some .separator =>
          some ((argument, .separator) :: arguments.map fun later => (later, .plain))
      | some word => (ofArguments? arguments).map ((argument, word) :: ·)

end Word

/-- A single thing that an argument does.  What belongs to no option is only noted. -/
inductive Action where
  | set (option : Switch)
  | assign (option : Switch) (value : Text)
  | note

/-- What one argument asks for: actions, behind which a value may still be missing. -/
inductive Demand where
  | complete (actions : List Action)
  | needsValue (actions : List Action) (option : Switch)

namespace Demand

def after (action : Action) : Demand → Demand
  | .complete actions => .complete (action :: actions)
  | .needsValue actions option => .needsValue (action :: actions) option

def ofSwitch (option : Switch) : Demand :=
  if option.takesValue then .needsValue [] option else .complete [.set option]

/-- The demand of a short option and the rest of its argument by the earlier convention.  The rest
is the value of an option that needs one; otherwise its letters are options that share the dash.
None if a letter is no option, or if there is no letter. -/
def ofJoined? (option : Switch) (rest : Text) : Option Demand :=
  if option.takesValue then
    some (.complete [.assign option rest])
  else
    match rest with
    | [] => none
    | letter :: rest =>
        match Switch.shortNames.lookup letter with
        | none => none
        | some next =>
            if rest = [] then some ((ofSwitch next).after (.set option))
            else (ofJoined? next rest).map (after (.set option))

/-- The demand of a short option and the rest of its argument by the later convention.  None if an
option that needs no value stands before an equals sign or a dash.  A letter that is no option ends
the options of the argument, and what is left of it belongs to none. -/
def ofSeparated? (option : Switch) (rest : Text) : Option Demand :=
  match rest with
  | [] => some (ofSwitch option)
  | letter :: more =>
      if option.takesValue then
        some (.complete [.assign option (if letter = '=' then more else rest)])
      else if letter = '=' ∨ letter = '-' then
        none
      else
        match Switch.shortNames.lookup letter with
        | none => some (.complete [.set option, .note])
        | some next => (ofSeparated? next more).map (after (.set option))

def ofShort? (option : Switch) (rest : Text) : Convention → Option Demand
  | .earlier =>
      match rest with
      | [] => some (ofSwitch option)
      | '=' :: value => ofJoined? option value
      | rest => ofJoined? option rest
  | .later => ofSeparated? option rest

def ofWord? (convention : Convention) : Word → Option Demand
  | .plain => some (.complete [.note])
  | .separator => some (.complete [.note])
  | .unknown => some (.complete [.note])
  | .long option none => some (ofSwitch option)
  | .long option (some value) =>
      if option.takesValue then some (.complete [.assign option value]) else none
  | .short option rest => ofShort? option rest convention

end Demand

structure Draft where
  output? : Option Text := none
  settings : Settings := {}
  format : Format := .block
  isVerbose : Bool := false
  hasStray : Bool := false

inductive Stop where
  | help
  | misuse
deriving DecidableEq

namespace Draft

/-- Assigns a value to an option.  Where two dashes are no value, the path is empty and the format
is the block format. -/
def assign (convention : Convention) (draft : Draft) (option : Switch) (value : Text) :
    Except Stop Draft :=
  let isMissing := convention = .earlier ∧ value = ['-', '-']
  match option with
  | .output => .ok { draft with output? := some (if isMissing then [] else value) }
  | .emitter =>
      if isMissing then
        .ok { draft with format := .block }
      else
        match Format.ofWord? value with
        | some format => .ok { draft with format := format }
        | none => .error .misuse
  | _ => .error .misuse

def perform (convention : Convention) (draft : Draft) : Action → Except Stop Draft
  | .set .help => .error .help
  | .set .strictNumbers => .ok { draft with settings := { fractionRequired := true } }
  | .set .verbose => .ok { draft with isVerbose := true }
  | .set _ => .error .misuse
  | .assign option value => draft.assign convention option value
  | .note => .ok { draft with hasStray := true }

def performAll (convention : Convention) (draft : Draft) : List (Text × Word) → Except Stop Draft
  | [] => .ok draft
  | (_, word) :: words =>
      match Demand.ofWord? convention word, words with
      | none, _ => .error .misuse
      | some (.complete actions), words => do
          let next ← actions.foldlM (perform convention) draft
          performAll convention next words
      | some (.needsValue actions option), (value, .plain) :: words => do
          let next ← (actions ++ [Action.assign option value]).foldlM (perform convention) draft
          performAll convention next words
      | some (.needsValue _ _), _ => .error .misuse

end Draft

structure Options where
  output : Text
  settings : Settings
  format : Format
  isVerbose : Bool

/-- The options that the arguments give by a convention, the earlier one unless told otherwise.  An
output path must be among them, and every argument must belong to an option. -/
def Options.ofArguments (arguments : List Text) (convention : Convention := .earlier) :
    Except Stop Options := do
  match Word.ofArguments? arguments with
  | none => .error .misuse
  | some words =>
      let draft ← Draft.performAll convention {} words
      match draft.output? with
      | none => .error .misuse
      | some output =>
          if draft.hasStray then .error .misuse
          else .ok ⟨output, draft.settings, draft.format, draft.isVerbose⟩

end ConfTree.CommandLine
