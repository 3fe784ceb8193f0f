import Transclude.Loop.Body

/-! # Unrolling loops

A loop repeats its body, once for each value or key of a collection or as long
as the test of a counter holds, and at most ten thousand times. The body sees
the loop variable of its iteration; the scope around the loop is not changed. -/

namespace Transclude.Loop

open Transclude.Expr

/-- The texts `0`, `1`, … of the positions of a sequence. -/
def positionNames (length : Nat) : List Located :=
  (List.range length).map fun i => .str (toString i)

/-- The values that a loop over values takes from a collection. -/
def valuesOf (collection : Located) : Evaluation (List Located) :=
  match collection with
  | .map _ entries => .ok (entries.map (·.2))
  | .list _ items => .ok items
  | .tuple items => .ok items
  | .str s => .ok (s.toList.map fun c => .str (String.singleton c))
  | other => do .error (.error (.notIterable (← other.toShownText)))

/-- The keys that a loop over keys takes from a collection: positions for lists and texts. -/
def keysOf (collection : Located) : Evaluation (List Located) :=
  match collection with
  | .map _ entries => .ok (entries.map fun entry => .ofKey entry.1)
  | .list _ items => .ok (positionNames items.length)
  | .tuple items => .ok (positionNames items.length)
  | .str s => .ok (positionNames s.length)
  | .null | .undefined => .ok []
  | other => .error (.error (.notEnumerable other.kindName))

/-- What a loop takes from a collection. -/
def enumerate (mode : Enumeration) (collection : Located) : Evaluation (List Located) :=
  match mode with
  | .values => valuesOf collection
  | .keys => keysOf collection

/-- One rendering per value, counted from an iteration on. `render` is given the scope and the place
of an iteration. -/
def eachFrom (render : Scope → List Nat → Evaluation String) (name : String) (scope : Scope)
    (path : List Nat) (count : Nat) : List Located → Evaluation (List String)
  | [] => .ok []
  | value :: rest =>
    if count = maxIterations then .error (.error .tooManyIterations)
    else do
      let text ← render ((name, value) :: scope) (2 :: count :: path)
      let texts ← eachFrom render name scope path (count + 1) rest
      return text :: texts

/-- The value of the loop variable after a step. -/
def step (scope : Scope) (path : List Nat) (name : String) (update : Option LoopUpdate)
    (current : Located) : Evaluation Located :=
  match update with
  | none => .ok current
  | some update =>
    if update.variableName ≠ name then .error (.error (.foreignUpdate name))
    else match update.change with
      | .increment => do return .number (← current.toNumber.add (.int 1))
      | .decrement => do return .number (← current.toNumber.sub (.int 1))
      | .addAssign amount => do return (← sum current (← eval scope path amount))
      | .subAssign amount => do
        return .number (← current.toNumber.sub (← eval scope path amount).toNumber)
      | .assign value => eval scope path value

/-- Whether the test of a counted loop lets it go on; a missing one always does. -/
def goesOn (scope : Scope) (path : List Nat) (test : Option Expr) : Evaluation Bool :=
  match test with
  | none => .ok true
  | some e => do return (← eval scope path e).isTruthy

/-- One rendering per iteration of a counted loop, for as many iterations as are left. -/
def countedFrom (render : Scope → List Nat → Evaluation String) (name : String)
    (test : Option Expr) (update : Option LoopUpdate) (scope : Scope) (path : List Nat) :
    Nat → Located → Evaluation (List String)
  | left, value => do
    let place := (maxIterations - left) :: path
    let inner := (name, value) :: scope
    if ← goesOn inner (0 :: place) test then
      match left with
      | 0 => .error (.error .tooManyIterations)
      | left + 1 =>
        let text ← render inner (2 :: place)
        let next ← step inner (1 :: place) name update value
        let texts ← countedFrom render name test update scope path left next
        return text :: texts
    else return []

/-- One rendering per iteration of a loop. -/
def iterations (render : Scope → List Nat → Evaluation String) (scope : Scope) (path : List Nat) :
    LoopHeader → Evaluation (List String)
  | .forEach name mode collection => do
    let value ← eval scope (0 :: path) collection
    eachFrom render name scope (1 :: path) 0 (← enumerate mode value)
  | .counted name init test update => do
    let value ← eval scope (0 :: path) init
    countedFrom render name test update scope (1 :: path) maxIterations value

mutual

/-- The text of one segment. -/
def renderSegment (scope : Scope) (path : List Nat) : Segment → Evaluation String
  | .literal text => .ok text
  | .placeholder expr => do return (← (← eval scope path expr).toShownText)
  | .loop header body => do
    return String.join (← iterations (fun s p => renderBody s p 0 body) scope path header)

/-- The text of the segments from a position on. -/
def renderBody (scope : Scope) (path : List Nat) (position : Nat) :
    List Segment → Evaluation String
  | [] => .ok ""
  | segment :: rest => do
    let text ← renderSegment scope (position :: path) segment
    let following ← renderBody scope path (position + 1) rest
    return text ++ following

end

/-- A loop as errors show it. -/
def sourceText (header body : List Char) : List Char :=
  "for(".toList ++ header ++ ") \x7b ".toList ++ body ++ " \x7d".toList

/-- The text of an unrolled loop, given its header and body as they stand in the document. -/
def render {ω : Type} (delimiters : Delimiters) (header body : List Char) (scope : Scope) :
    Run ω Expr.Error String := do
  let loop ← ((parseHeader header).mapError fun e => .error (.parse e) :
    Except (Halt Expr.Error) LoopHeader)
  let segments ← compile delimiters body
  let text ← (renderSegment scope [] (.loop loop segments)).mapError (Halt.map Expr.Error.eval)
  Run.detail ("Loop (" ++ String.ofList header ++ ") rendered " ++ toString text.length ++ " chars")
  return text

end Transclude.Loop
