namespace ConfTree

/-- A text is the list of its characters, one per Unicode code point. -/
abbrev Text := List Char

namespace Text

def isInRanges (ranges : List (Nat × Nat)) (c : Char) : Bool :=
  ranges.any fun range => range.1 ≤ c.toNat && c.toNat ≤ range.2

def blankRanges : List (Nat × Nat) :=
  [(0x09, 0x0d), (0x1c, 0x20), (0x85, 0x85), (0xa0, 0xa0), (0x1680, 0x1680), (0x2000, 0x200a),
    (0x2028, 0x2029), (0x202f, 0x202f), (0x205f, 0x205f), (0x3000, 0x3000)]

/-- A blank separates items and words and means nothing by itself. -/
def isBlank (c : Char) : Bool :=
  isInRanges blankRanges c

def isDigit (c : Char) : Bool :=
  '0' ≤ c && c ≤ '9'

def isNameLetter (c : Char) : Bool :=
  'a' ≤ c && c ≤ 'z'

def IsName (name : Text) : Prop :=
  name ≠ [] ∧ ∀ c ∈ name, isNameLetter c = true

def spaces (count : Nat) : Text :=
  List.replicate count ' '

/-- Whether a text comes no later than another in the order of the code points. -/
def isAtMost (left right : Text) : Bool :=
  !List.lex right left fun c d => decide (c < d)

theorem isBlank_newline : isBlank '\n' = true := by decide

theorem isBlank_eq_false_of_isDigit {c : Char} (h : isDigit c = true) : isBlank c = false := by
  simp only [isDigit, Bool.and_eq_true, decide_eq_true_eq, Char.le_def, UInt32.le_iff_toNat_le] at h
  have hlow : 48 ≤ c.toNat := h.1
  have hhigh : c.toNat ≤ 57 := h.2
  simp [isBlank, isInRanges, blankRanges]
  omega

theorem isBlank_eq_false_of_isNameLetter {c : Char} (h : isNameLetter c = true) :
    isBlank c = false := by
  simp only [isNameLetter, Bool.and_eq_true, decide_eq_true_eq, Char.le_def,
    UInt32.le_iff_toNat_le] at h
  have hlow : 97 ≤ c.toNat := h.1
  have hhigh : c.toNat ≤ 122 := h.2
  simp [isBlank, isInRanges, blankRanges]
  omega

end Text

end ConfTree
