import Transclude.Filter.Chain

/-! # Arguments of an include

An include is given a quoted path and optionally a parameter behind a comma, all
of it possibly wrapped in calls of filters. The quotation of the path ends at
the first equal quote behind which the arguments end or a comma follows. -/

namespace Transclude.Include

open Text

/-- The parsed arguments of an include. -/
structure Arguments where
  path : List Char
  parameter : Option (List Char)
  filters : List (List Char)
deriving DecidableEq, Repr

/-- What stands behind the path: nothing, or a comma and a parameter, which counts as absent when it
is blank. The result is absent when it is something else. -/
def parameter? (text : List Char) : Option (Option (List Char)) :=
  match trimLeft text with
  | [] => some none
  | ',' :: rest =>
    let parameter := trim rest
    some (if parameter.isEmpty then none else some parameter)
  | _ => none

/-- The path up to its closing quote, and the parameter. -/
def pathAndParameter? (quote : Char) : List Char → Option (List Char × Option (List Char))
  | [] => none
  | c :: rest =>
    match if c == quote then parameter? rest else none with
    | some parameter => some ([], parameter)
    | none => (pathAndParameter? quote rest).map fun (path, parameter) => (c :: path, parameter)

/-- The arguments that a text writes; absent when it has no quoted path. -/
def Arguments.parse? (text : List Char) : Option Arguments :=
  let (filters, inner) := Filter.splitChain text
  match trimLeft inner with
  | [] => none
  | quote :: rest =>
    if quote == '"' || quote == '\'' then
      (pathAndParameter? quote rest).map fun (path, parameter) => ⟨path, parameter, filters⟩
    else none

end Transclude.Include
