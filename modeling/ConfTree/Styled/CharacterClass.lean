import ConfTree.Text.Basic

namespace ConfTree.Styled

def isBreak (c : Char) : Bool :=
  c = '\n' || c = '\x85' || c = '\u2028' || c = '\u2029'

/-- The characters that set an indicator off: NUL, space, tab, carriage return and breaks. -/
def isSeparation (c : Char) : Bool :=
  c = '\x00' || c = ' ' || c = '\t' || c = '\r' || isBreak c

def byteOrderMark : Char := '\ufeff'

/-- The characters that stand for themselves outside double quotes. -/
def isOrdinary (c : Char) : Bool :=
  c != byteOrderMark && Text.isInRanges [(0x0a, 0x0a), (0x20, 0x7e), (0x85, 0x85), (0xa0, 0xd7ff),
    (0xe000, 0xfffd), (0x10000, 0x10fffe)] c

/-- The characters that stand for themselves between double quotes. -/
def isUnescaped (c : Char) : Bool :=
  c != '"' && c != '\\' && c != '\u2028' && c != '\u2029' && c != byteOrderMark &&
    Text.isInRanges [(0x20, 0x7e), (0xa0, 0xd7ff), (0xe000, 0xfffd)] c

end ConfTree.Styled
