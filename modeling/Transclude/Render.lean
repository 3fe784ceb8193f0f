import Transclude.Comment
import Transclude.Include.Expand
import Transclude.Loop.Render

/-! # Rendering documents

A document is rendered in a fixed order: commented includes are removed,
conditions decided, loops over text unrolled, variables replaced, and then
includes and loops over files expanded. Each step goes through the text that the
one before it has left. -/

namespace Transclude

namespace Renderer

/-- The text with the directives of a name replaced by what the handler gives for them. -/
def replaceDirectives (delimiters : Delimiters) (name : List Char) (shape : Shape)
    (handler : Directive → Rendering (Option (List Char))) (text : List Char) :
    Rendering (List Char) :=
  Piece.assemble (fun part start => Run.detail (Loop.unbalancedRemark name part start)) handler
    (Directive.pieces delimiters name shape text)

/-- Whether the condition of a directive holds. -/
def conditionHolds (scope : Scope) (directive : Directive) : Except (Halt Error) Bool :=
  (Expr.holds directive.args scope).mapError
    (Halt.map fun cause => ⟨.evaluation cause directive.args, none⟩)

/-- The text with its conditions decided, also those in the parts that are kept. The first argument
bounds the depth of nesting. -/
def decideConditions (delimiters : Delimiters) (scope : Scope) :
    Nat → List Char → Rendering (List Char)
  | 0, text => return text
  | depth + 1, text =>
    replaceDirectives delimiters "if".toList .block (fun directive => do
      if ← conditionHolds scope directive then
        return some (← decideConditions delimiters scope depth directive.body)
      else return some []) text

/-- The text that a loop over text is unrolled to. -/
def unroll (delimiters : Delimiters) (scope : Scope) (directive : Directive) :
    Rendering (Option (List Char)) := do
  let source := Loop.sourceText directive.args directive.body
  let text ← (Loop.render delimiters directive.args directive.body scope).mapError fun cause =>
    ⟨.evaluation cause source, none⟩
  return some text.toList

/-- The steps of a rendering before any file is included. -/
def renderText (renderer : Renderer) (frame : Frame) : Rendering (List Char) := do
  let delimiters := renderer.settings.delimiters
  let scope := Scope.ofData frame.data
  let text := Comment.strip delimiters frame.document.text
  let text ← decideConditions delimiters scope (text.length + 1) text
  let text ← replaceDirectives delimiters Loop.directiveName .block (unroll delimiters scope) text
  Variable.replace delimiters frame.data text

/-- The rendered text of a frame, when `render` gives that of the frames below. An error that knows
no file is one of the file of the frame. -/
def expandFrame (renderer : Renderer) (render : Frame → Rendering (List Char)) (frame : Frame) :
    Rendering (List Char) :=
  let delimiters := renderer.settings.delimiters
  let run : Rendering (List Char) := do
    let text ← renderer.renderText frame
    let text ← replaceDirectives delimiters "include".toList .call
      (renderer.expandInclude render frame) text
    replaceDirectives delimiters "loop".toList .call (renderer.expandLoop render frame) text
  run.mapError fun error => error.locatedIn frame.file

/-- The rendered text of a frame. The first argument bounds the depth of includes. -/
def renderFrame (renderer : Renderer) : Nat → Frame → Rendering (List Char)
  | 0, frame => return frame.document.text
  | depth + 1, frame => renderer.expandFrame (renderer.renderFrame depth) frame

/-- A depth that no chain of includes reaches: each file of the tree is rendered at most once on it,
though its path may begin with one slash or with two, and the first document need not be a file. -/
def depthBound (renderer : Renderer) : Nat := 2 * renderer.tree.files.length + 2

/-- The data that all documents of a rendering have: the context, with the way from the first
document to its base unless it is set. -/
def sharedData (renderer : Renderer) (document : Document) : Data :=
  let context := renderer.settings.context
  if renderer.settings.setsWebRoot then context
  else
    let way := Path.way document.path.parent document.base
    Entries.insert context (.str Settings.webRootName) (.str way)

/-- The rendered text of a document with data of its own. -/
def renderDocument (renderer : Renderer) (document : Document) (data : Option Data) :
    Rendering (List Char) := do
  let frame := Frame.outermost document (renderer.sharedData document) data
  Run.detail ("Resolving " ++ document.path.toText ++ " (base " ++ document.base.toText ++ ")")
  renderer.renderFrame renderer.depthBound frame

/-- The rendering of a text as the contents of a path. -/
def render (renderer : Renderer) (path : Path) (base : Option Path) (data : Option Data)
    (text : List Char) : Rendering (Document × List Char) := do
  let document ← Document.make renderer.tree path base text
  return (document, ← renderer.renderDocument document data)

/-- The text of the file at a path, as the beginning of a rendering. -/
def readSource (tree : FileTree) (path : Path) : Except (Halt Error) (List Char) :=
  (DataFile.readText tree path).mapError fun
    | .error error => .error ⟨.undecodable path.toText error, some path.toText⟩
    | .fault .fileSystem => .error ⟨.notFound path.toText, none⟩
    | .fault kind => .fault kind

/-- The rendering of a file. -/
def renderFile (renderer : Renderer) (path : Path) (base : Option Path) (data : Option Data) :
    Rendering (Document × List Char) := do
  renderer.render path base data (← readSource renderer.tree path)

end Renderer

end Transclude
