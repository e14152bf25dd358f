import ConfTree.Text.Basic

namespace ConfTree.Text

def decimal (n : Nat) : Text :=
  Nat.toDigits 10 n

/-- Digits filled up with zeros at the front to a given width. -/
def fill (width : Nat) (digits : Text) : Text :=
  List.replicate (width - digits.length) '0' ++ digits

def hexadecimal (width n : Nat) : Text :=
  fill width (Nat.toDigits 16 n)

end ConfTree.Text
