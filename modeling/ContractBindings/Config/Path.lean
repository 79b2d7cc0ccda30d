import ContractBindings.Text.Quoted

namespace ContractBindings

/-!
# Paths

Paths are resolved by their text alone: a relative one is taken from a
directory, empty parts and single dots are dropped and two dots take the part
before them away.
-/

/-- An absolute path without dots, as the list of its parts. -/
structure AbsolutePath where
  parts : List Text
  deriving DecidableEq, Repr

namespace AbsolutePath

/-- The text of a path. -/
def toText (path : AbsolutePath) : Text :=
  "/" ++ Text.join "/" path.parts

/-- The directory that holds a path. -/
def parent (path : AbsolutePath) : AbsolutePath :=
  ⟨path.parts.dropLast⟩

/-- A path one part longer. -/
def child (path : AbsolutePath) (part : Text) : AbsolutePath :=
  ⟨path.parts ++ [part]⟩

/-- Follows the parts of a path text from a directory. -/
def follow (parts : List Text) (texts : List Text) : List Text :=
  texts.foldl (fun parts text =>
    if text = [] ∨ text = "." then parts
    else if text = ".." then parts.dropLast
    else parts ++ [text]) parts

/-- The path that a text stands for in a directory. -/
def resolve (directory : AbsolutePath) (t : Text) : AbsolutePath :=
  let start := if Text.startsWith t "/" then [] else directory.parts
  ⟨follow start (Text.split t '/')⟩

/-- The longest name of a file, in bytes. -/
def longestName : Nat := 255

/-- The longest text of a path, in bytes. -/
def longestText : Nat := 4095

/-- Whether a part of a path is longer than a name. -/
def isLongName (part : Text) : Bool :=
  longestName < (Text.utf8 part).length

/-- Whether the text of a path is too long. -/
def isLong (path : AbsolutePath) : Bool :=
  longestText < (Text.utf8 path.toText).length

/-- Whether nothing can be made at a path, whatever directories there are. -/
def isUnusable (path : AbsolutePath) : Bool :=
  path.isLong || path.parts.any isLongName

/-- The path as a literal. -/
def literal (path : AbsolutePath) : Text :=
  "PosixPath(" ++ path.toText.quoted ++ ")"

/-- Whether a path lies in a directory, at any depth. -/
def isInside (path directory : AbsolutePath) : Bool :=
  directory.parts.isPrefixOf path.parts && directory.parts.length < path.parts.length

end AbsolutePath

namespace Text

/-- A path text without empty parts and single dots.  Two slashes in front are
kept, more of them count as one. -/
def tidyPath (t : Text) : Text :=
  let root : Text :=
    if startsWith t "//" && ! startsWith t "///" then "//"
    else if startsWith t "/" then "/"
    else []
  let parts := (split t '/').filter fun part => part ≠ [] && part ≠ "."
  match root ++ join "/" parts with
  | [] => "."
  | tidy => tidy

end Text

end ContractBindings
