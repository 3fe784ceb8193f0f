import Transclude.FileTree

/-! # Documents

A document is a text that stands for the contents of a file. Its base is the
directory that data files and the way to the root are seen from; an included
document has the base of the one that includes it. -/

namespace Transclude

/-- A text with its absolute path and its base. -/
structure Document where
  path : Path
  base : Path
  text : List Char
deriving Repr

namespace Document

/-- The absolute path that a path of the user means. -/
def absolutePath (tree : FileTree) (path : Path) : Except Fault Path := do
  return tree.absolute (← tree.expandHome path)

/-- The document of a path, a base and a text. Without a base it is the directory of the path. -/
def make (tree : FileTree) (path : Path) (base : Option Path) (text : List Char) :
    Except Fault Document := do
  let place ← absolutePath tree path
  match base with
  | none => return ⟨place, place.parent, text⟩
  | some base => return ⟨place, ← absolutePath tree base, text⟩

end Document

end Transclude
