import ConfTree.Source.Document
import ConfTree.Source.Gap

/-!
Documents as they are written, with all insignificant content and every optional separator.  A
written document has a text and, independently of that, a meaning: the value and the constants
that its items give from left to right.
-/

namespace ConfTree

/-- Something written with insignificant content before and behind it. -/
structure Spaced (α : Type) where
  before : Gap
  content : α
  after : Gap

/-- An entry of a mapping as it is written: a key, a colon and a value. -/
structure WrittenEntry (α : Type) where
  beforeKey : Gap
  key : Text
  beforeColon : Gap
  value : Spaced α

/-- A value as it is written.  A collection has a first member and further ones, and perhaps a
separator with insignificant content behind the last of them.  The body of an expression is all
that stands between its bars. -/
inductive Term where
  | text (content : Text)
  | number (literal : NumberLiteral)
  | reference (name : Text)
  | expression (body : Text)
  | emptyList (inner : Gap)
  | list (first : Spaced Term) (further : List (Spaced Term)) (trailing : Option Gap)
  | emptyMapping (inner : Gap)
  | mapping (first : WrittenEntry Term) (further : List (WrittenEntry Term))
      (trailing : Option Gap)

namespace Term

def trailingText (separator : Char) : Option Gap → Text
  | none => []
  | some gap => separator :: gap.text

mutual

def written : Term → Text
  | .text content => '@' :: '"' :: content ++ ['"']
  | .number literal => literal.text
  | .reference name => name
  | .expression body => '|' :: body ++ ['|']
  | .emptyList inner => '[' :: inner.text ++ [']']
  | .list first further trailing =>
      '[' :: first.before.text ++ first.content.written ++ first.after.text ++
        writtenItems further ++ trailingText ';' trailing ++ [']']
  | .emptyMapping inner => '\x7b' :: inner.text ++ ['\x7d']
  | .mapping first further trailing =>
      '\x7b' :: first.beforeKey.text ++ first.key ++ first.beforeColon.text ++ ':' ::
        first.value.before.text ++ first.value.content.written ++ first.value.after.text ++
        writtenEntries further ++ trailingText ',' trailing ++ ['\x7d']

def writtenItems : List (Spaced Term) → Text
  | [] => []
  | item :: items =>
      ';' :: item.before.text ++ item.content.written ++ item.after.text ++ writtenItems items

def writtenEntries : List (WrittenEntry Term) → Text
  | [] => []
  | entry :: entries =>
      ',' :: entry.beforeKey.text ++ entry.key ++ entry.beforeColon.text ++ ':' ::
        entry.value.before.text ++ entry.value.content.written ++ entry.value.after.text ++
        writtenEntries entries

end

def wordsOf (body : Text) : List Text :=
  (body.splitOnP Text.isBlank).filter (· ≠ [])

/-- The value of an expression: all of its words are evaluated, and one value is left. -/
def expressionValue (constants : Constants) (body : Text) : Except Cause Value :=
  match Evaluation.feedAll constants (wordsOf body) [] with
  | .ok _ [value] => .ok value
  | .ok _ stack => .error (.malformedExpression stack.length)
  | .error cause _ => .error (.expression cause)

mutual

/-- The value that a term stands for, or the cause that is met first. -/
def value (constants : Constants) : Term → Except Cause Value
  | .text content => .ok (.text content)
  | .number literal => .ok (.number literal.value)
  | .reference name =>
      match constants.valueOf? name with
      | some value => .ok value
      | none => .error (.unknownName name)
  | .expression body => expressionValue constants body
  | .emptyList _ => .ok (.list [])
  | .list first further _ => do
      let firstValue ← first.content.value constants
      let furtherValues ← itemValues constants further
      .ok (.list (firstValue :: furtherValues))
  | .emptyMapping _ => .ok (.mapping [])
  | .mapping first further _ => do
      let firstValue ← first.value.content.value constants
      .mapping <$> putEntryValues constants [(first.key, firstValue)] further

def itemValues (constants : Constants) : List (Spaced Term) → Except Cause (List Value)
  | [] => .ok []
  | item :: items => do
      let itemValue ← item.content.value constants
      let furtherValues ← itemValues constants items
      .ok (itemValue :: furtherValues)

/-- The entries of a mapping put to those before them. -/
def putEntryValues (constants : Constants) (before : Entries) :
    List (WrittenEntry Term) → Except Cause Entries
  | [] => .ok before
  | entry :: entries => do
      let entryValue ← entry.value.content.value constants
      putEntryValues constants (before.put entry.key entryValue) entries

end

mutual

/-- How deep collections are written inside each other; other terms have depth zero. -/
def depth : Term → Nat
  | .text _ => 0
  | .number _ => 0
  | .reference _ => 0
  | .expression _ => 0
  | .emptyList _ => 1
  | .list first further _ => max first.content.depth (depthOfItems further) + 1
  | .emptyMapping _ => 1
  | .mapping first further _ => max first.value.content.depth (depthOfEntries further) + 1

def depthOfItems : List (Spaced Term) → Nat
  | [] => 0
  | item :: items => max item.content.depth (depthOfItems items)

def depthOfEntries : List (WrittenEntry Term) → Nat
  | [] => 0
  | entry :: entries => max entry.value.content.depth (depthOfEntries entries)

end

/-- A separator behind the last member is followed by inner content only. -/
def IsValidTrailing (trailing : Option Gap) : Prop :=
  ∀ gap, trailing = some gap → gap.IsInner

mutual

def IsValid (settings : Settings) : Term → Prop
  | .text content => '"' ∉ content
  | .number literal =>
      literal.WellFormed ∧ (settings.fractionRequired = true → literal.fraction ≠ none)
  | .reference name => Text.IsName name
  | .expression body => '|' ∉ body
  | .emptyList inner => inner.IsInner
  | .list first further trailing =>
      first.before.IsInner ∧ first.content.IsValid settings ∧ first.after.IsInner ∧
        AreValidItems settings further ∧ IsValidTrailing trailing
  | .emptyMapping inner => inner.IsInner
  | .mapping first further trailing =>
      first.beforeKey.IsInner ∧ Text.IsName first.key ∧ first.beforeColon.IsInner ∧
        first.value.before.IsInner ∧ first.value.content.IsValid settings ∧
        first.value.after.IsInner ∧ AreValidEntries settings further ∧ IsValidTrailing trailing

def AreValidItems (settings : Settings) : List (Spaced Term) → Prop
  | [] => True
  | item :: items =>
      item.before.IsInner ∧ item.content.IsValid settings ∧ item.after.IsInner ∧
        AreValidItems settings items

def AreValidEntries (settings : Settings) : List (WrittenEntry Term) → Prop
  | [] => True
  | entry :: entries =>
      entry.beforeKey.IsInner ∧ Text.IsName entry.key ∧ entry.beforeColon.IsInner ∧
        entry.value.before.IsInner ∧ entry.value.content.IsValid settings ∧
        entry.value.after.IsInner ∧ AreValidEntries settings entries

end

end Term

inductive Item where
  | declaration (name : Text) (beforeMarker beforeValue : Gap) (term : Term)
  | value (term : Term)

namespace Item

def term : Item → Term
  | .declaration _ _ _ term => term
  | .value term => term

def written : Item → Text
  | .declaration name beforeMarker beforeValue term =>
      name ++ beforeMarker.text ++ Reading.bindingMarker ++ beforeValue.text ++ term.written
  | .value term => term.written

def IsValid (settings : Settings) : Item → Prop
  | .declaration name beforeMarker beforeValue term =>
      Text.IsName name ∧ beforeMarker.IsInner ∧ beforeValue.IsInner ∧ term.IsValid settings
  | .value term => term.IsValid settings

end Item

/-- What the items of a document have given so far. -/
structure Meaning where
  last : Value
  constants : Constants

def Meaning.add (meaning : Meaning) (item : Item) : Except Cause Meaning :=
  match item with
  | .declaration name _ _ term => do
      let value ← term.value meaning.constants
      .ok { meaning with constants := meaning.constants.bind name value }
  | .value term => do
      let value ← term.value meaning.constants
      .ok { meaning with last := value }

/-- A document as it is written: items, each with what stands before it, and what stands behind
the last one. -/
structure Document where
  items : List (Gap × Item)
  ending : Gap

namespace Document

def written (document : Document) : Text :=
  (document.items.flatMap fun item => item.1.text ++ item.2.written) ++ document.ending.text

/-- The meaning of a document, starting from given constants. -/
def meaning (constants : Constants) (document : Document) : Except Cause Meaning :=
  document.items.foldlM (fun meaning item => meaning.add item.2) ⟨.null, constants⟩

/-- Every item is valid, and only the end of the document may be an open line comment. -/
def IsValid (settings : Settings) (document : Document) : Prop :=
  (∀ item ∈ document.items, item.1.IsInner ∧ item.2.IsValid settings) ∧ document.ending.IsValid

/-- Something insignificant stands between any two items. -/
def IsSeparated (document : Document) : Prop :=
  ∀ item ∈ document.items.tail, item.1 ≠ []

/-- No collection of the document is nested deeper than a reader follows. -/
def IsShallow (document : Document) : Prop :=
  ∀ item ∈ document.items, item.2.term.depth ≤ nestingLimit

end Document

end ConfTree
