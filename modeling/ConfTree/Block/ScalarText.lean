import ConfTree.Decimal.NumberText
import ConfTree.Value

namespace ConfTree

namespace Text

def replaceEach (target : Char) (replacement : Text) (text : Text) : Text :=
  text.flatMap fun c => if c = target then replacement else [c]

/-- A text with a backslash put before every backslash and then before every quote. -/
def escape (text : Text) : Text :=
  replaceEach '"' ['\\', '"'] (replaceEach '\\' ['\\', '\\'] text)

def quoted (text : Text) : Text :=
  '"' :: escape text ++ ['"']

end Text

def Scalar.blockText : Scalar → Text
  | .null => "null".toList
  | .number x => x.text
  | .text content => content.quoted

def Value.scalarText? (value : Value) : Option Text :=
  value.scalar?.map Scalar.blockText

end ConfTree
