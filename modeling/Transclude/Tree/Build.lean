import Transclude.Render
import Transclude.Tree.Source

/-! # Building trees

A build renders the selected files below a directory and writes each to the same
place below another one. All files have the source directory as their base. They
are listed before the first one is written, and read when their turn comes; the
first error ends the build, and what has been written stays. -/

namespace Transclude.Build

/-- The rendered text of a source. -/
def renderSource (renderer : Renderer) (directory source : Path) : Rendering (List Char) := do
  let text ← Renderer.readSource renderer.tree source
  let document ← Document.make renderer.tree source (some directory) text
  renderer.renderDocument document none


/-- What a build does with one source: the tree after it, and where the text has been written. -/
def buildSource (settings : Settings) (directory target : Path) (tree : FileTree)
    (source : Location) : FileTree × Rendering Path :=
  let run := renderSource ⟨tree, settings⟩ directory (directory.join ⟨.relative, source⟩)
  let written := target.join ⟨.relative, source⟩
  match run.outcome with
  | .error reason => (tree, ⟨run.events, .error reason⟩)
  | .ok text =>
    let (after, writing) := tree.writeBelow written (Text.encode text)
    match writing with
    | .error kind => (after, ⟨run.events, .error (.fault kind)⟩)
    | .ok _ =>
      let notice := Event.notice ("/".intercalate source ++ " -> " ++ written.toText)
      (after, ⟨run.events ++ [notice], .ok written⟩)

/-- What a build does with some sources, one after the other. -/
def buildAll (settings : Settings) (directory target : Path) :
    FileTree → List Location → FileTree × Rendering (List Path)
  | tree, [] => (tree, return [])
  | tree, source :: rest =>
    let (middle, run) := buildSource settings directory target tree source
    match run.outcome with
    | .error reason => (middle, ⟨run.events, .error reason⟩)
    | .ok _ =>
      let (after, following) := buildAll settings directory target middle rest
      (after, do return (← run) :: (← following))

/-- Whether a source lies below the target directory, where it counts as written. -/
def isBelow (directory target : Path) (source : Location) : Bool :=
  (directory.join ⟨.relative, source⟩).parents.contains target

/-- A build: the tree after it, and the paths that have been written. -/
def build (settings : Settings) (selection : Selection) (directory target : Path)
    (tree : FileTree) : FileTree × Rendering (List Path) :=
  let directory := tree.absolute directory
  let target := tree.absolute target
  match selection.sources tree directory with
  | .error kind => (tree, Run.stop (.fault kind))
  | .ok sources =>
    let chosen := sources.filter fun source => !isBelow directory target source
    let (after, run) := buildAll settings directory target tree chosen
    (after, do
      let written ← run
      Run.detail ("Built " ++ toString written.length ++ " file(s) from " ++ directory.toText)
      return written)

end Transclude.Build
