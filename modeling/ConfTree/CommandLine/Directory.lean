import ConfTree.Text.Digits
import ConfTree.Text.Printable

/-!
The working directory: files by name and no further directories.  Opening a path for writing
finds the file that it leads to, or fails for a numbered cause.  Of what lies outside of the
working directory only the directories around it and those at the root are known, and a file
there goes by its whole path.
-/

namespace ConfTree.CommandLine

/-- The files of a directory by name, and others by a path with a slash. -/
abbrev Directory := List (Text × Text)

namespace Directory

def contentOf? (directory : Directory) (name : Text) : Option Text :=
  directory.lookup name

def write (directory : Directory) (name content : Text) : Directory :=
  (name, content) :: directory.filter fun file => file.1 ≠ name

/-- The files in the directory itself, sorted by name in the order of the code points. -/
def listing (directory : Directory) : List (Text × Text) :=
  (directory.filter fun file => !file.1.contains '/').mergeSort fun left right =>
    left.1.isAtMost right.1

end Directory

inductive OpenError where
  | notFound
  | notDirectory
  | isDirectory
  | nameTooLong
deriving DecidableEq

namespace OpenError

def number : OpenError → Nat
  | .notFound => 2
  | .notDirectory => 20
  | .isDirectory => 21
  | .nameTooLong => 36

def reason : OpenError → Text
  | .notFound => "No such file or directory".toList
  | .notDirectory => "Not a directory".toList
  | .isDirectory => "Is a directory".toList
  | .nameTooLong => "File name too long".toList

end OpenError

namespace Path

def byteLength (text : Text) : Nat :=
  text.foldr (fun c bytes => c.utf8Size + bytes) 0

/-- The greatest number of bytes of a name in a directory. -/
def nameBound : Nat := 255

/-- The number of bytes from which a path is too long. -/
def pathBound : Nat := 4096

def systemDirectories : List Text :=
  ["bin", "boot", "dev", "etc", "home", "lib", "media", "mnt", "opt", "proc", "root", "run", "sbin",
    "srv", "sys", "tmp", "usr", "var"].map String.toList

/-- A directory on the way along a path: the working directory, one that many levels above it,
the root, or one at the root. -/
inductive Place where
  | working
  | above (levels : Nat)
  | root
  | system (name : Text)
deriving DecidableEq

namespace Place

def parent : Place → Place
  | .working => .above 1
  | .above levels => .above (levels + 1)
  | .root => .root
  | .system _ => .root

/-- What goes before the name of a file in a directory. -/
def lead : Place → Text
  | .working => []
  | .above levels => (List.replicate levels ['.', '.', '/']).flatten
  | .root => ['/']
  | .system name => '/' :: name ++ ['/']

def hasDirectory : Place → Text → Bool
  | .root, name => systemDirectories.contains name
  | _, _ => false

end Place

def parts (path : Text) : List Text :=
  path.splitOnP (· = '/')

/-- Follows a part of a path that has to lead to a directory. -/
def enter (directory : Directory) (place : Place) (part : Text) : Except OpenError Place :=
  if part = [] ∨ part = ['.'] then .ok place
  else if part = ['.', '.'] then .ok place.parent
  else if nameBound < byteLength part then .error .nameTooLong
  else if place.hasDirectory part then .ok (.system part)
  else if (directory.contentOf? (place.lead ++ part)).isSome then .error .notDirectory
  else .error .notFound

def finish (place : Place) (part : Text) : Except OpenError Text :=
  if part = [] ∨ part = ['.'] ∨ part = ['.', '.'] then .error .isDirectory
  else if nameBound < byteLength part then .error .nameTooLong
  else if place.hasDirectory part then .error .isDirectory
  else .ok (place.lead ++ part)

/-- The path without the slashes at its end, and whether it had any. -/
def withoutFinalSlashes (path : Text) : Text × Bool :=
  let trimmed := (path.reverse.dropWhile (· = '/')).reverse
  (trimmed, trimmed.length ≠ path.length)

/-- The file that a path opens for writing.  A slash at the end asks for a directory,
whether there is one or not; a path that holds NUL names nothing. -/
def openForWriting (directory : Directory) (path : Text) : Except OpenError Text := do
  if path = [] ∨ '\x00' ∈ path then
    .error .notFound
  else if pathBound ≤ byteLength path then
    .error .nameTooLong
  else
    let (trimmed, hasFinalSlash) := withoutFinalSlashes path
    let start := if path.head? = some '/' then Place.root else Place.working
    let place ← (parts trimmed).dropLast.foldlM (enter directory) start
    if hasFinalSlash then .error .isDirectory
    else finish place ((parts trimmed).getLast?.getD [])

/-- A character of a quoted path.  One that is not printable is written by its code point. -/
def quotedCharacter (quote c : Char) : Text :=
  if c = quote ∨ c = '\\' then ['\\', c]
  else if c = '\n' then ['\\', 'n']
  else if c = '\r' then ['\\', 'r']
  else if c = '\t' then ['\\', 't']
  else if Text.isPrintable c then [c]
  else if c.toNat ≤ 0xff then '\\' :: 'x' :: Text.hexadecimal 2 c.toNat
  else if c.toNat ≤ 0xffff then '\\' :: 'u' :: Text.hexadecimal 4 c.toNat
  else '\\' :: 'U' :: Text.hexadecimal 8 c.toNat

/-- A path in a message: between single quotes, or between double ones if it holds single ones
only. -/
def quoted (path : Text) : Text :=
  let quote := if path.contains '\'' && !path.contains '"' then '"' else '\''
  quote :: path.flatMap (quotedCharacter quote) ++ [quote]

end Path

def OpenError.message (error : OpenError) (path : Text) : Text :=
  "[Errno ".toList ++ Text.decimal error.number ++ "] ".toList ++ error.reason ++ ": ".toList ++
    Path.quoted path

end ConfTree.CommandLine
