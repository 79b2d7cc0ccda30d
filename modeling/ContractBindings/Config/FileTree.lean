import ContractBindings.Config.Path

namespace ContractBindings

/-!
# Files

The files that a program finds, by path.  A directory exists if it was made or
if it holds a file, at any depth.  A file whose bytes are no UTF-8 has a text
with surrogates, which its readers refuse.
-/

/-- Files with their texts, and the directories that were made. -/
structure FileTree where
  files : List (AbsolutePath × Text)
  directories : List AbsolutePath

namespace FileTree

/-- The text of a file. -/
def read? (tree : FileTree) (path : AbsolutePath) : Option Text :=
  tree.files.lookup path

/-- Whether a path is a file. -/
def isFile (tree : FileTree) (path : AbsolutePath) : Bool :=
  (tree.read? path).isSome

/-- Whether a path is a directory. -/
def isDirectory (tree : FileTree) (path : AbsolutePath) : Bool :=
  tree.directories.any (fun directory => directory = path || directory.isInside path) ||
    tree.files.any fun (file, _) => file.isInside path

/-- Whether it cannot even be asked what is at a path: it is too long, or a
directory that is there would have to hold a part that is longer than a name. -/
def isRefused (tree : FileTree) (path : AbsolutePath) : Bool :=
  path.isLong || (List.range path.parts.length).any fun i =>
    (path.parts.drop i).head?.any AbsolutePath.isLongName &&
      tree.isDirectory ⟨path.parts.take i⟩

/-- What is found at the end of a path. -/
inductive Kind where
  | file
  | directory
  deriving DecidableEq, Repr

/-- What is at a path. -/
def kind? (tree : FileTree) (path : AbsolutePath) : Option Kind :=
  if tree.isFile path then some .file
  else if tree.isDirectory path then some .directory
  else none

/-- Goes along the parts of a path text.  Every part but the last has to be a
directory, also where two dots lead back out of it. -/
def walk (tree : FileTree) (start : AbsolutePath) (texts : List Text) : Option AbsolutePath :=
  texts.foldlM (fun path text =>
    if tree.isDirectory path then some ⟨AbsolutePath.follow path.parts [text]⟩ else none) start

/-- What a path text leads to from a directory, if there is anything. -/
def find? (tree : FileTree) (directory : AbsolutePath) (t : Text) : Option (AbsolutePath × Kind) :=
  match t with
  | [] => none
  | t => do
      let start : AbsolutePath := if Text.startsWith t "/" then ⟨[]⟩ else directory
      let path ← tree.walk start (Text.split t '/')
      return (path, ← tree.kind? path)

/-- The places on the way along the parts of a path text, the end included. -/
def waypoints : (start : AbsolutePath) → (texts : List Text) → List AbsolutePath
  | start, [] => [start]
  | start, text :: texts =>
      start :: waypoints ⟨AbsolutePath.follow start.parts [text]⟩ texts

/-- The places that finding a path text from a directory asks about. -/
def placesToward (directory : AbsolutePath) (t : Text) : List AbsolutePath :=
  waypoints (if Text.startsWith t "/" then ⟨[]⟩ else directory) (Text.split t '/')

/-- Puts a text at a path. -/
def write (tree : FileTree) (path : AbsolutePath) (text : Text) : FileTree :=
  { tree with files := (path, text) :: tree.files.filter (·.1 ≠ path) }

end FileTree

end ContractBindings
