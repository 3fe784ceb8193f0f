import Transclude.Filter.Basic
import Transclude.Filter.Chain

/-! # Applying filters

The filters of a chain are applied from the innermost outwards. Only the
innermost one is given the options of the call. A chain with a name that is not
registered is refused before any filter runs. -/

namespace Transclude.Filter

/-- The registered filters: names with filter values. -/
abbrev Registry := Data

/-- What the filters of a registry do, by the names that filter values carry. -/
abbrev Library := String → Option TextFilter

/-- The filter registered under a name. What is registered without being a filter cannot be
called. -/
def registered? (registry : Registry) (name : String)
    (library : Library := TextFilter.ofName?) : Option TextFilter :=
  (Entries.get? registry (.str name)).map fun value =>
    match value with
    | .scalar (.filter id) => (library id).getD fun _ _ => .error .wrongType
    | _ => fun _ _ => .error .wrongType

/-- The registered names in order. -/
def registeredNames (registry : Registry) : Except Fault (List String) := do
  let names ← registry.mapM fun entry => match entry.1 with
    | .str name => .ok name
    | _ => .error .wrongType
  return names.mergeSort fun a b => decide (a ≤ b)

/-- The first name that is not registered. -/
def firstUnknown? (registry : Registry) (names : List String) : Option String :=
  names.find? fun name => !Entries.hasKey registry (.str name)

/-- The filters of some names. -/
def lookupAll (registry : Registry) (names : List String)
    (library : Library := TextFilter.ofName?) : List TextFilter :=
  names.filterMap fun name => registered? registry name library

/-- The filters of a chain applied to a text, the last one first and with the options. -/
def applyAll (options : Option Data) (text : List Char) :
    List TextFilter → Except Fault (List Char)
  | [] => .error .wrongType
  | [innermost] => innermost text options
  | filter :: rest => do filter (← applyAll options text rest) none

/-- The filters of a chain of names applied to a text. -/
def applyNames (registry : Registry) (names : List String) (options : Option Data)
    (text : List Char) (library : Library := TextFilter.ofName?) :
    Except (Halt FilterProblem) (List Char) :=
  match firstUnknown? registry names with
  | some name => do .error (.error (.unknown name (← registeredNames registry)))
  | none =>
    if names.isEmpty && options.isSome then .error (.fault .noSuchPosition)
    else do return (← applyAll options text (lookupAll registry names library))

/-- The filters of a call applied to a text, which is left as it is when the call has no chain. The
remark names the filters that are applied. -/
def applyCall (registry : Registry) (call text : List Char)
    (library : Library := TextFilter.ofName?) : Run Warning FilterProblem (List Char) := do
  let names := (chain call).map String.ofList
  if names.isEmpty then return text
  let options ← ((options call).mapError .error : Except (Halt FilterProblem) (Option Data))
  match firstUnknown? registry names with
  | some _ => Run.ofExcept (applyNames registry names options text library)
  | none =>
    Run.detail ("Applying filters " ++ " <- ".intercalate names)
    Run.ofExcept (applyNames registry names options text library)

end Transclude.Filter
