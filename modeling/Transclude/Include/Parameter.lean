import Transclude.DataFile
import Transclude.Value.Shown
import Transclude.Variable

/-! # Parameters of an include

A parameter is a quoted path of a data file, a reference to the data of the
document, or a JSON text; a missing one is an empty mapping. One that cannot be
resolved is complained about and counts as null. -/

namespace Transclude.Include.Parameter

open Text

/-- The path between the quotes of a text that is wholly in quotes. -/
def quotedPath? (text : List Char) : Option (List Char) :=
  match text with
  | quote :: rest =>
    if (quote == '"' || quote == '\'') && rest.getLast? == some quote then some rest.dropLast
    else none
  | [] => none

/-- The dotted path of a text that is a reference between delimiters; blanks may surround the
path. -/
def reference? (delimiters : Delimiters) (text : List Char) : Option (List Char) :=
  let length := delimiters.opening.length + delimiters.closing.length
  if length ≤ text.length && delimiters.opening.isPrefixOf text &&
      delimiters.closing.isSuffixOf text then
    let path := trim ((text.drop delimiters.opening.length).take (text.length - length))
    if !path.isEmpty && Variable.pathLength path = path.length then some path else none
  else none

/-- Whether a text occurs in another one. -/
def occurs (pattern : List Char) : List Char → Bool
  | [] => pattern.isEmpty
  | c :: rest => pattern.isPrefixOf (c :: rest) || occurs pattern rest

variable {ε : Type}

/-- The value of a parameter that cannot be resolved. -/
def complain (origin : Option String) (complaint : Complaint) : Run Warning ε Datum := do
  Run.warn ⟨complaint, origin⟩
  return .null

/-- The data in the file of a parameter. -/
def fromFile (tree : FileTree) (origin : Option String) (path : Path) : Run Warning ε Datum :=
  if tree.isFile path then
    match DataFile.read tree path with
    | .ok value => return value
    | .error (.error problem) => complain origin (.malformedFile path.toText problem)
    | .error (.fault kind) => Run.stop (.fault kind)
  else complain origin (.missingFile path.toText)

/-- The value that a reference leads to. -/
def fromData (data : Data) (origin : Option String) (path : List Char) : Run Warning ε Datum := do
  match ← (Value.lookupDotted (.map (.ofPlace []) data) path : Except Fault Datum) with
  | .undefined => complain origin (.missingProperty (String.ofList path))
  | value => return value

/-- The value of a JSON text. -/
def fromJson (origin : Option String) (text : List Char) : Run Warning ε Datum :=
  match Json.read text with
  | .ok value => return value.placed []
  | .error error => complain origin (.malformedJson text error)

/-- The value of a parameter. Paths are relative to `base`; `origin` is the file that complaints are
about. -/
def resolve (tree : FileTree) (delimiters : Delimiters) (data : Data) (base : Path)
    (origin : Option String) (parameter : Option (List Char)) : Run Warning ε Datum :=
  let text := trim (parameter.getD [])
  if text.isEmpty then return .map (.ofPlace []) []
  else match quotedPath? text with
    | some path => fromFile tree origin (base.join (Path.ofChars path))
    | none =>
      match if occurs delimiters.opening text then reference? delimiters text else none with
      | some path => fromData data origin path
      | none => fromJson origin text

end Transclude.Include.Parameter
