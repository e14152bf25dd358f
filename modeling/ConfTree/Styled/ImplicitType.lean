import ConfTree.Styled.Pattern

namespace ConfTree.Styled

open Pattern

/-- What an unquoted text may be taken for. -/
inductive ImplicitType where
  | boolean
  | null
  | merge
  | default
  | float
  | integer
  | timestamp
deriving DecidableEq

def anyWord (words : List String) : Pattern :=
  anyOf (words.map fun word => exactly word.toList)

def optionalSign : Pattern :=
  optional (oneOf ['+', '-'])

def digitsOrUnderscores : Pattern :=
  .repeated (.character fun c => Text.isDigit c || c = '_')

/-- A colon with one or two digits behind it, below sixty. -/
def sexagesimalPart : Pattern :=
  inOrder [exactly [':'], optional (.character fun c => '0' ≤ c && c ≤ '5'), digit]

def optionalExponent : Pattern :=
  optional (inOrder [oneOf ['e', 'E'], oneOf ['+', '-'], oneOrMore digit])

def booleanPattern : Pattern :=
  anyWord ["yes", "Yes", "YES", "no", "No", "NO", "true", "True", "TRUE", "false", "False", "FALSE",
    "on", "On", "ON", "off", "Off", "OFF"]

def nullPattern : Pattern :=
  anyWord ["", "~", "null", "Null", "NULL"]

/-- Numbers with a point, the infinities and the undefined number. -/
def floatPattern : Pattern :=
  anyOf
    [inOrder [optionalSign, digit, digitsOrUnderscores, exactly ['.'], digitsOrUnderscores,
        optionalExponent],
      inOrder [exactly ['.'], digit, digitsOrUnderscores, optionalExponent],
      inOrder [optionalSign, digit, digitsOrUnderscores, oneOrMore sexagesimalPart, exactly ['.'],
        digitsOrUnderscores],
      inOrder [optionalSign, exactly ['.'], anyWord ["inf", "Inf", "INF"]],
      inOrder [exactly ['.'], anyWord ["nan", "NaN", "NAN"]]]

/-- Whole numbers in base two, eight, ten, sixteen and sixty. -/
def integerPattern : Pattern :=
  let positiveDigit := Pattern.character fun c => '1' ≤ c && c ≤ '9'
  let octal := Pattern.character fun c => ('0' ≤ c && c ≤ '7') || c = '_'
  let hexadecimal := Pattern.character fun c =>
    Text.isDigit c || ('a' ≤ c && c ≤ 'f') || ('A' ≤ c && c ≤ 'F') || c = '_'
  .sequence optionalSign <| anyOf
    [inOrder [exactly ['0', 'b'], oneOrMore (oneOf ['0', '1', '_'])],
      inOrder [exactly ['0'], oneOrMore octal],
      exactly ['0'],
      inOrder [positiveDigit, digitsOrUnderscores],
      inOrder [exactly ['0', 'x'], oneOrMore hexadecimal],
      inOrder [positiveDigit, digitsOrUnderscores, oneOrMore sexagesimalPart]]

/-- Dates, and dates with a time of day and perhaps its zone. -/
def timestampPattern : Pattern :=
  let oneOrTwoDigits := Pattern.sequence digit (optional digit)
  let blanks := Pattern.repeated (oneOf [' ', '\t'])
  let zone := anyOf
    [exactly ['Z'],
      inOrder [oneOf ['-', '+'], oneOrTwoDigits, optional (inOrder [exactly [':'], times 2 digit])]]
  anyOf
    [inOrder [times 4 digit, exactly ['-'], times 2 digit, exactly ['-'], times 2 digit],
      inOrder [times 4 digit, exactly ['-'], oneOrTwoDigits, exactly ['-'], oneOrTwoDigits,
        anyOf [oneOf ['T', 't'], oneOrMore (oneOf [' ', '\t'])],
        oneOrTwoDigits, exactly [':'], times 2 digit, exactly [':'], times 2 digit,
        optional (inOrder [exactly ['.'], .repeated digit]),
        optional (inOrder [blanks, zone])]]

def implicitPatterns : List (ImplicitType × Pattern) :=
  [(.boolean, booleanPattern), (.null, nullPattern), (.merge, exactly ['<', '<']),
    (.default, exactly ['=']), (.float, floatPattern), (.integer, integerPattern),
    (.timestamp, timestampPattern)]

/-- What an unquoted text is taken for, if it is not taken for a text. -/
def implicitType? (text : Text) : Option ImplicitType :=
  (implicitPatterns.find? fun entry => entry.2.accepts text).map Prod.fst

end ConfTree.Styled
