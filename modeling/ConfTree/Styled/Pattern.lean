import ConfTree.Text.Basic

namespace ConfTree

/-- A regular pattern. -/
inductive Pattern where
  | nothing
  | empty
  | character (inClass : Char → Bool)
  | sequence (first second : Pattern)
  | choice (left right : Pattern)
  | repeated (body : Pattern)

namespace Pattern

def acceptsEmpty : Pattern → Bool
  | .nothing => false
  | .empty => true
  | .character _ => false
  | .sequence first second => first.acceptsEmpty && second.acceptsEmpty
  | .choice left right => left.acceptsEmpty || right.acceptsEmpty
  | .repeated _ => true

/-- One pattern after the other, without parts that match nothing or only the empty text. -/
def andThen : Pattern → Pattern → Pattern
  | .nothing, _ => .nothing
  | .empty, second => second
  | first, second => .sequence first second

/-- One pattern or the other, without parts that match nothing. -/
def orElse : Pattern → Pattern → Pattern
  | .nothing, right => right
  | left, .nothing => left
  | left, right => .choice left right

/-- What a pattern leaves to be matched after a character. -/
def derivative (c : Char) : Pattern → Pattern
  | .nothing => .nothing
  | .empty => .nothing
  | .character inClass => if inClass c then .empty else .nothing
  | .sequence first second =>
      let continued := (first.derivative c).andThen second
      if first.acceptsEmpty then continued.orElse (second.derivative c) else continued
  | .choice left right => (left.derivative c).orElse (right.derivative c)
  | .repeated body => (body.derivative c).andThen (.repeated body)

def accepts (pattern : Pattern) : Text → Bool
  | [] => pattern.acceptsEmpty
  | c :: rest => (pattern.derivative c).accepts rest

def optional (body : Pattern) : Pattern :=
  .choice .empty body

def oneOrMore (body : Pattern) : Pattern :=
  .sequence body (.repeated body)

def inOrder (parts : List Pattern) : Pattern :=
  parts.foldr .sequence .empty

def anyOf (alternatives : List Pattern) : Pattern :=
  alternatives.foldr .choice .nothing

def exactly (text : Text) : Pattern :=
  inOrder (text.map fun c => .character (· = c))

def oneOf (characters : Text) : Pattern :=
  .character fun c => characters.contains c

def times (count : Nat) (body : Pattern) : Pattern :=
  inOrder (List.replicate count body)

def digit : Pattern :=
  .character Text.isDigit

end Pattern

end ConfTree
