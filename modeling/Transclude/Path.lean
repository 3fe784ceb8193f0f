import Transclude.Text.Lower

/-! # Paths

A path is its root and its components; empty components and `.` are dropped when
a path is read. Exactly two slashes at the beginning are a root of their own. A
path is normalized by letting each `..` take away the component before it. -/

namespace Transclude

/-- Where a path begins. -/
inductive Root
  | relative
  | single
  | double
deriving DecidableEq, Repr, Inhabited

/-- A path of a file or directory. -/
structure Path where
  root : Root
  parts : List String
deriving DecidableEq, Repr, Inhabited

namespace Path

/-- The root that a text begins with. -/
def rootOf (text : List Char) : Root :=
  match (text.takeWhile (· == '/')).length with
  | 0 => .relative
  | 2 => .double
  | _ => .single

/-- The path that a text writes. -/
def ofChars (text : List Char) : Path :=
  let parts := (text.splitOn '/').filter fun part => part != [] && part != ['.']
  ⟨rootOf text, parts.map String.ofList⟩

/-- The path that a text writes. -/
def ofText (text : String) : Path := ofChars text.toList

/-- The text of a root. -/
def rootText : Root → String
  | .relative => ""
  | .single => "/"
  | .double => "//"

/-- The text of a path. -/
def toText (path : Path) : String :=
  match path.root, path.parts with
  | .relative, [] => "."
  | root, parts => rootText root ++ "/".intercalate parts

/-- Whether the path begins at a root. -/
def isAbsolute (path : Path) : Bool := path.root != .relative

/-- A path seen from another one: an absolute path stands for itself. -/
def join (base path : Path) : Path :=
  if path.isAbsolute then path else ⟨base.root, base.parts ++ path.parts⟩

/-- The path without its last component. -/
def parent (path : Path) : Path := { path with parts := path.parts.dropLast }

/-- The paths above, nearest first. -/
def parents (path : Path) : List Path :=
  (List.range path.parts.length).reverse.map fun count =>
    { path with parts := path.parts.take count }

/-- The last component; empty for a root. -/
def name (path : Path) : String := path.parts.getLastD ""

/-- The ending of the name from its last point on. A point at the beginning or the end makes no
ending. -/
def ending (path : Path) : List Char :=
  let reversed := path.name.toList.reverse
  let tail := reversed.takeWhile (· != '.')
  match reversed.dropWhile (· != '.') with
  | _ :: _ :: _ => if tail.isEmpty then [] else '.' :: tail.reverse
  | _ => []

/-- One component after others, given last first: `..` takes the one before it away, unless there is
none to take away. -/
def pushPart (absolute : Bool) (reversed : List String) (part : String) : List String :=
  if part = ".." then
    match reversed with
    | [] => if absolute then [] else [".."]
    | ".." :: _ => ".." :: reversed
    | _ :: rest => rest
  else part :: reversed

/-- The path without `..`, except at the beginning of a relative one. -/
def normalize (path : Path) : Path :=
  { path with parts := (path.parts.foldl (pushPart path.isAbsolute) []).reverse }

/-- Whether two paths name the same file where case does not count. -/
def sameFile (a b : Path) : Bool := Text.lower a.toText.toList == Text.lower b.toText.toList

/-- The components behind the common beginning of two sequences. -/
def dropCommon : List String → List String → List String × List String
  | a :: as, b :: bs => if a = b then dropCommon as bs else (a :: as, b :: bs)
  | as, bs => (as, bs)

/-- The way from one absolute directory to another: up to the deepest common directory and down. -/
def relativeParts (start target : Path) : List String :=
  let (up, down) := dropCommon start.parts target.parts
  List.replicate up.length ".." ++ down

/-- The text of the way from one absolute directory to another, in forward slashes. -/
def way (start target : Path) : String :=
  let parts := relativeParts start target
  if parts.isEmpty then "."
  else String.ofList (("/".intercalate parts).toList.map fun c => if c == '\\' then '/' else c)

end Path

end Transclude
