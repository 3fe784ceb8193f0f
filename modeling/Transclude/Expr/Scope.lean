import Transclude.Value.Basic

/-! # Scopes

A scope gives values to the names of an expression. Its lists and mappings are
told apart by where they come from: the place that marks them in data, or the
place of a list literal in the evaluation that made it. -/

namespace Transclude

/-- Where a list or mapping comes from. The path leads to it, innermost step first. -/
inductive Origin
  | data (path : List Nat)
  | literal (path : List Nat)
deriving DecidableEq, Repr, Inhabited

/-- A value inside an evaluation. -/
abbrev Located := Value Origin

/-- The names in scope with their values; an earlier binding hides a later one. -/
abbrev Scope := List (String × Located)

namespace Scope

/-- The value of a name. -/
def get? (scope : Scope) (name : String) : Option Located :=
  (List.find? (fun binding => binding.1 == name) scope).map (·.2)

/-- The scope of a mapping: each text among its keys names its value. -/
def ofData (data : Data) : Scope :=
  data.filterMap fun entry => match entry.1 with
    | .str name => some (name, entry.2.mapIdentity fun mark => .data mark.place)
    | _ => none

end Scope

end Transclude
