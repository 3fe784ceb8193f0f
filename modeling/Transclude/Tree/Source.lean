import Transclude.FileTree
import Transclude.Tree.Glob

/-! # Sources of a tree

The files below a directory in a fixed order: those of a directory come before
those of its subdirectories, and names are ordered by their characters. Patterns
select the sources among them. -/

namespace Transclude

namespace Location

/-- Whether a file comes before another one below the same directory. -/
def comesBefore : Location → Location → Bool
  | [a], [b] => decide (a ≤ b)
  | [_], _ => true
  | _ :: _ :: _, [_] => false
  | a :: as, b :: bs => if a = b then comesBefore as bs else decide (a < b)
  | [], _ => true
  | _ :: _, [] => false

end Location

namespace FileTree

/-- The files below a directory, seen from there, in order. What is no directory has none. -/
def filesBelow (tree : FileTree) (directory : Path) : List Location :=
  match tree.locate directory with
  | none => []
  | some place =>
    if tree.hasDirectory place then
      let below := tree.files.filterMap fun file =>
        if place.isPrefixOf file.1 then some (file.1.drop place.length) else none
      below.mergeSort Location.comesBefore
    else []

end FileTree

/-- What selects sources: patterns that select, and patterns that take away. -/
structure Selection where
  selecting : List String
  excluding : List String

namespace Selection

/-- The patterns where none are given. -/
def standardPatterns : List String := ["*.html"]

/-- The selected ones of some files. -/
def select (selection : Selection) (files : List Location) : Except Fault (List Location) := do
  let selecting ← Glob.readAll selection.selecting
  let excluding ← Glob.readAll selection.excluding
  return files.filter fun file =>
    let path := ("/".intercalate file).toList
    Glob.selects selecting path && !Glob.selects excluding path

/-- The selected files below a directory, seen from there. -/
def sources (selection : Selection) (tree : FileTree) (directory : Path) :
    Except Fault (List Location) := do
  let chosen ← selection.select (tree.filesBelow directory)
  if FileTree.isNameable directory then return chosen else .error .badValue

end Selection

end Transclude
