import Transclude.Include.Frame

/-! # Including documents

An include puts a document in its place, rendered with the parameter as its
data; a loop does so once for each item of its parameter. Both leave alone what
names no file. How the document of a frame is rendered is given. -/

namespace Transclude.Renderer

/-- The remark on arguments that name no file. -/
def unreadableRemark (name : String) (arguments : List Char) : String :=
  "Unparseable " ++ name ++ " arguments left as is: " ++ String.ofList (Text.quoted arguments)

/-- The data that an include gives to its document. Only a mapping will do. -/
def includeData (frame : Frame) (parameter : Datum) : Rendering (Option Data) :=
  match parameter with
  | .map _ entries => return some entries
  | .null => return none
  | other => do
    Run.warn ⟨.notAnObject other.kindWord, some frame.file⟩
    return none

/-- The text that an include puts in its place; absent when it names no file. -/
def expandInclude (renderer : Renderer) (render : Frame → Rendering (List Char)) (frame : Frame)
    (directive : Directive) : Rendering (Option (List Char)) := do
  match Include.Arguments.parse? directive.args with
  | none =>
    Run.detail (unreadableRemark "include" directive.args)
    return none
  | some arguments =>
    let document ← renderer.included frame directive arguments
    let data ← includeData frame (← renderer.parameter frame arguments)
    Run.detail ("Including " ++ document.path.toText ++ " into " ++ frame.file)
    return some (← render (frame.inner document data))

/-- The items that a loop goes through: those of a list, or the values of a mapping. A void
parameter has none. -/
def loopItems (frame : Frame) (parameter : Datum) : Rendering (List Datum) :=
  if parameter.isVoid then return []
  else match parameter with
    | .map _ entries => return entries.map (·.2)
    | .list _ items => return items
    | .tuple items => return items
    | other => do
      Run.warn ⟨.notAnArray other.kindWord, some frame.file⟩
      return []

/-- The data that a loop gives to its document for an item. -/
def itemData : Datum → Option Data
  | .map _ entries => some entries
  | _ => none

/-- The document of a frame rendered once for each item. -/
def renderItems (render : Frame → Rendering (List Char)) (frame : Frame) (document : Document) :
    List Datum → Rendering (List Char)
  | [] => return []
  | item :: rest => do
    let text ← render (frame.inner document (itemData item))
    let following ← renderItems render frame document rest
    return text ++ following

/-- The text that a loop puts in its place; absent when it names no file. Without items the file is
not looked at. -/
def expandLoop (renderer : Renderer) (render : Frame → Rendering (List Char)) (frame : Frame)
    (directive : Directive) : Rendering (Option (List Char)) := do
  match Include.Arguments.parse? directive.args with
  | none =>
    Run.detail (unreadableRemark "loop" directive.args)
    return none
  | some arguments =>
    let items ← loopItems frame (← renderer.parameter frame arguments)
    if items.isEmpty then return some []
    let document ← renderer.included frame directive arguments
    Run.detail ("Looping " ++ document.path.toText ++ " over " ++ toString items.length ++
      " item(s) in " ++ frame.file)
    return some (← renderItems render frame document items)

end Transclude.Renderer
