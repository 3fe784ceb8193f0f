import Transclude.Filter.Pipeline
import Transclude.Value.Shown

/-! # References to filters

Settings name a filter by a module and the path of a member in it, as in
`module:member`. The modules that exist are given as trees of members. -/

namespace Transclude.Filter

/-- A member of a module. -/
inductive Member
  | filter (name : String)
  | constant
  | group (members : List (String × Member))

/-- The modules that filters can be taken from, each with its members. -/
abbrev Modules := List (String × List (String × Member))

/-- The member that a path leads to. -/
def Member.follow : Member → List String → Option Member
  | member, [] => some member
  | .group members, name :: rest => (members.lookup name).bind fun member => member.follow rest
  | _, _ :: _ => none

/-- The module of a name, or the name that is missing. The modules have no modules below them. -/
def findModule (modules : Modules) (filterName moduleName : String) :
    Except (Halt FilterProblem) Member :=
  match modules.lookup moduleName with
  | some members => .ok (.group members)
  | none =>
    match moduleName.toList.splitOn '.' with
    | [] :: [] => .error (.fault .badValue)
    | [] :: _ => .error (.fault .wrongType)
    | [_] => .error (.error (.noModule filterName moduleName moduleName none))
    | first :: second :: _ =>
      let parent := String.ofList first
      match modules.lookup parent with
      | none => .error (.error (.noModule filterName moduleName parent none))
      | some _ =>
        let missing := parent ++ "." ++ String.ofList second
        .error (.error (.noModule filterName moduleName missing (some parent)))
    | [] => .error (.fault .badValue)

/-- The filter that a value of the settings refers to: a filter itself, or a text with a colon
between the module and the path of the member. -/
def resolve (modules : Modules) (name : String) (reference : Datum) :
    Except (Halt FilterProblem) Datum :=
  match reference with
  | .scalar (.filter id) => .ok (.scalar (.filter id))
  | .str text =>
    let chars := text.toList
    match chars.dropWhile (· != ':') with
    | [] => .error (.error (.notAReference name reference.shown))
    | _ :: path => do
      let moduleName := String.ofList (chars.takeWhile (· != ':'))
      let found ← findModule modules name moduleName
      match found.follow ((path.splitOn '.').map String.ofList) with
      | none => .error (.error (.noMember name moduleName (String.ofList path)))
      | some (.filter id) => .ok (.scalar (.filter id))
      | some _ => .error (.error (.notCallable name text))
  | _ => .error (.error (.notAReference name reference.shown))

/-- The registry that entries of the settings describe. Keys become names. -/
def resolveAll (modules : Modules) (registry : Registry) :
    Data → Except (Halt FilterProblem) Registry
  | [] => .ok registry
  | (key, reference) :: rest => do
    let filter ← resolve modules key.name reference
    resolveAll modules (Entries.insert registry (.str key.name) filter) rest

end Transclude.Filter
