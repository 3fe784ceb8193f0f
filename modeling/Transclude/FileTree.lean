import Transclude.Fault
import Transclude.Path
import Transclude.Text.Utf8

/-! # File trees

A file tree holds directories and files with their bytes. Relative paths begin
at its working directory. Every component of a path but the last one must be an
existing directory, also before `..`. Operations give back the changed tree. A
path may begin with `~` for the home directory of the user. -/

namespace Transclude

/-- The place of a file or directory: the components from the root on. -/
abbrev Location := List String

/-- The files and directories that a run can see. -/
structure FileTree where
  files : List (Location × List UInt8)
  directories : List Location
  workingDirectory : Location
  home : Location
deriving Inhabited

namespace FileTree

/-- The tree with nothing but a working directory. The home directory need not exist. -/
def empty (workingDirectory home : Location) : FileTree :=
  ⟨[], (List.range (workingDirectory.length + 1)).map fun n => workingDirectory.take n,
    workingDirectory, home⟩

/-- Whether a directory is at a place. -/
def hasDirectory (tree : FileTree) (place : Location) : Bool :=
  place.isEmpty || tree.directories.contains place

/-- The bytes of the file at a place. -/
def bytesAt? (tree : FileTree) (place : Location) : Option (List UInt8) :=
  (tree.files.find? fun file => file.1 == place).map (·.2)

/-- The working directory as a path. -/
def workingPath (tree : FileTree) : Path := ⟨.single, tree.workingDirectory⟩

/-- The path from the root that a path stands for, normalized. -/
def absolute (tree : FileTree) (path : Path) : Path := (tree.workingPath.join path).normalize

/-- The path with `~` at its beginning replaced by the home directory. No other users are known. -/
def expandHome (tree : FileTree) (path : Path) : Except Fault Path :=
  match path.root, path.parts with
  | .relative, first :: rest =>
    if first = "~" then .ok ⟨.single, tree.home ++ rest⟩
    else if first.toList.head? == some '~' then .error .noSuchUser
    else .ok path
  | _, _ => .ok path

/-- The place that components lead to from a directory. -/
def follow (tree : FileTree) (place : Location) : List String → Option Location
  | [] => some place
  | part :: rest =>
    if tree.hasDirectory place then
      tree.follow (if part = ".." then place.dropLast else place ++ [part]) rest
    else none

/-- The place that a path leads to; there need not be anything at it. -/
def locate (tree : FileTree) (path : Path) : Option Location :=
  tree.follow (if path.isAbsolute then [] else tree.workingDirectory) path.parts

/-- Whether the path can name something: none of its components holds a null character. -/
def isNameable (path : Path) : Bool :=
  path.parts.all fun part => !part.toList.contains (Char.ofNat 0)

/-- The path from the root with a single slash and no `..`. -/
def resolve (tree : FileTree) (path : Path) : Except Fault Path :=
  if isNameable path then .ok { tree.absolute path with root := .single } else .error .badValue

/-- Whether the path leads to a file. -/
def isFile (tree : FileTree) (path : Path) : Bool :=
  isNameable path && match tree.locate path with
    | some place => (tree.bytesAt? place).isSome
    | none => false

/-- Whether the path leads to a directory. -/
def isDirectory (tree : FileTree) (path : Path) : Bool :=
  isNameable path && match tree.locate path with
    | some place => tree.hasDirectory place
    | none => false

/-- The bytes of a file. -/
def readBytes (tree : FileTree) (path : Path) : Except Fault (List UInt8) :=
  if isNameable path then
    match (tree.locate path).bind tree.bytesAt? with
    | some bytes => .ok bytes
    | none => .error .fileSystem
  else .error .badValue

/-- The file with new bytes at a place. -/
def setFile (place : Location) (bytes : List UInt8) :
    List (Location × List UInt8) → List (Location × List UInt8)
  | [] => [(place, bytes)]
  | file :: rest =>
    if file.1 = place then (place, bytes) :: rest else file :: setFile place bytes rest

/-- The tree with a file written at a path. Its directory must exist. -/
def write (tree : FileTree) (path : Path) (bytes : List UInt8) : Except Fault FileTree :=
  if isNameable path then
    match tree.locate path with
    | none => .error .fileSystem
    | some place =>
      if tree.hasDirectory place || !tree.hasDirectory place.dropLast then .error .fileSystem
      else .ok { tree with files := setFile place bytes tree.files }
  else .error .badValue

/-- The tree with the file at a path removed; its directory stays. -/
def remove (tree : FileTree) (path : Path) : FileTree :=
  match tree.locate path with
  | some place => { tree with files := tree.files.filter fun file => file.1 != place }
  | none => tree

/-- The tree with a directory at a path whose parent exists. -/
def makeDirectory (tree : FileTree) (path : Path) : Except Fault FileTree :=
  if tree.isDirectory path then .ok tree
  else match tree.locate path with
    | none => .error .fileSystem
    | some place =>
      if (tree.bytesAt? place).isSome || !tree.hasDirectory place.dropLast then .error .fileSystem
      else .ok { tree with directories := tree.directories ++ [place] }

/-- The tree with a directory at a path and all directories that lead to it. -/
def makeDirectories (tree : FileTree) (path : Path) : Except Fault FileTree :=
  if isNameable path then
    (path.parents.reverse ++ [path]).foldlM makeDirectory tree
  else .error .badValue

/-- The tree with a file written at a path whose directories are made first. They stay when the file
cannot be written. -/
def writeBelow (tree : FileTree) (path : Path) (bytes : List UInt8) :
    FileTree × Except Fault Unit :=
  match tree.makeDirectories path.parent with
  | .error kind => (tree, .error kind)
  | .ok made =>
    match made.write path bytes with
    | .error kind => (made, .error kind)
    | .ok after => (after, .ok ())

/-- The files that are new or different since an earlier tree. -/
def changesSince (tree earlier : FileTree) : List (Location × List UInt8) :=
  tree.files.filter fun file => earlier.bytesAt? file.1 != some file.2

/-- The tree with a file and all directories that lead to it, for building trees. -/
def put (tree : FileTree) (place : Location) (bytes : List UInt8) : FileTree :=
  let above := (List.range place.length).map fun count => place.take count
  let missing := above.filter fun directory => !tree.hasDirectory directory
  { tree with
    files := setFile place bytes tree.files
    directories := tree.directories ++ missing }

end FileTree

end Transclude
