import Transclude.Directive.Basic
import Transclude.Error
import Transclude.Value.Property

/-! # Variables in a text

A variable is the opening delimiter, a dotted path of names, and the closing
delimiter. It is replaced by the text of the value that the path leads to. A
variable whose first name is unknown stays, since it may be a directive, and so
does one with a list or a mapping, which a later directive may take as its
parameter. The inserted text is not searched again. -/

namespace Transclude.Variable

open Text

/-- The length of the `.segment` parts that the text begins with. -/
def segmentsLength : List Char → Nat
  | '.' :: rest =>
    let count := (rest.takeWhile isIdentifierPart).length
    if count = 0 then 0 else 1 + count + segmentsLength (rest.drop count)
  | _ => 0
termination_by text => text.length
decreasing_by simp only [List.length_cons, List.length_drop]; omega

/-- The length of the longest dotted path that the text begins with. -/
def pathLength (text : List Char) : Nat :=
  match text with
  | [] => 0
  | c :: rest =>
    if isIdentifierStart c then
      let count := 1 + (rest.takeWhile isIdentifierPart).length
      count + segmentsLength (text.drop count)
    else 0

/-- The greatest length, up to the given one, of a path behind which the closing delimiter stands. A
path does not end with a point. -/
def closedLength? (closing text : List Char) : Nat → Option Nat
  | 0 => none
  | count + 1 =>
    if text[count]? != some '.' && closing.isPrefixOf (text.drop (count + 1)) then some (count + 1)
    else closedLength? closing text count

/-- The path of the variable that the text begins with. -/
def path? (delimiters : Delimiters) (text : List Char) : Option (List Char) :=
  if delimiters.opening.isPrefixOf text then
    let rest := text.drop delimiters.opening.length
    (closedLength? delimiters.closing rest (pathLength rest)).map rest.take
  else none

/-- A part of a text: a character, or a variable with its path and its own text. -/
inductive Fragment
  | char (c : Char)
  | variable (path source : List Char)
deriving DecidableEq, Repr

/-- The fragments of a text, variables taken from left to right. -/
def fragments (delimiters : Delimiters) : List Char → List Fragment
  | [] => []
  | c :: rest =>
    match path? delimiters (c :: rest) with
    | none => .char c :: fragments delimiters rest
    | some path =>
      let length := delimiters.opening.length + path.length + delimiters.closing.length - 1
      .variable path (c :: rest.take length) :: fragments delimiters (rest.drop length)
termination_by text => text.length
decreasing_by all_goals simp only [List.length_cons, List.length_drop]; omega

/-- What becomes of a variable. -/
inductive Outcome
  | kept
  | empty
  | replaced (text : String)
deriving DecidableEq, Repr

/-- What becomes of a value in the place of its variable. -/
def ofValue (value : Datum) : Outcome :=
  match value with
  | .undefined => .empty
  | .scalar s => .replaced s.toText
  | .set members => .replaced (shownSet members)
  | .tuple _ | .list _ _ | .map _ _ => .kept

/-- What becomes of the variable with a path. -/
def outcome (data : Data) (path : List Char) : Except Fault Outcome :=
  let segments := (path.splitOn '.').map String.ofList
  match segments with
  | [] => .ok .kept
  | first :: _ =>
    if Entries.hasKey data (.str first) then do
      return ofValue (← Value.lookupPath (.map (.ofPlace []) data) segments)
    else .ok .kept

/-- The text of a fragment after replacement. A variable without a value is remarked on. -/
def expand (data : Data) : Fragment → Rendering (List Char)
  | .char c => return [c]
  | .variable path source => do
    match ← outcome data path with
    | .kept => return source
    | .empty =>
      Run.detail ("Variable '" ++ String.ofList path ++ "' has no value, rendered empty")
      return []
    | .replaced text => return text.toList

/-- The text of the fragments after replacement. -/
def expandAll (data : Data) : List Fragment → Rendering (List Char)
  | [] => return []
  | fragment :: rest => do
    let text ← expand data fragment
    let following ← expandAll data rest
    return text ++ following

/-- The text with its variables replaced. -/
def replace (delimiters : Delimiters) (data : Data) (text : List Char) : Rendering (List Char) :=
  expandAll data (fragments delimiters text)

end Transclude.Variable
