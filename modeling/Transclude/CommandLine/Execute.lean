import Transclude.CommandLine.Request
import Transclude.Settings.Load
import Transclude.Tree.Build

/-! # Executing requests

A request leaves a tree of files, a text for the output, a log, and a code that
is zero when all went well. The log has a line for each event; details are left
out unless they are asked for. An error is reported at the end of the log. -/

namespace Transclude.CommandLine

/-- What a request answers. -/
structure Reply where
  code : Nat
  output : List Char
  log : List Char
deriving Repr

/-- What a request gives when all goes well: a text for the output, and a remark for the log. -/
structure Product where
  output : List Char
  remark : List Char

/-- The version of the program. -/
def version : String := "0.1.0"

/-- The name of the program with its version. -/
def versionText : String := "incl " ++ version ++ "\n"

/-- How the program is used. -/
def usageText : String :=
  "usage: incl [--version] render [-o FILE] [options] FILE\n" ++
  "       incl [--version] build [--pattern GLOB] [--exclude GLOB] [options] SOURCE TARGET\n" ++
  "options: --config FILE, --context FILE, --prefix TEXT, --suffix TEXT, --basepath PATH,\n" ++
  "         --indent, -v, -h\n"

/-- The code of a request that an error has ended, and of a refused command line. -/
def errorCode : Nat := 2

/-- The lines of the log for an event. -/
def eventText (verbose : Bool) : Event Warning → String
  | .detail message => if verbose then "[DEBUG] " ++ message ++ "\n" else ""
  | .notice message => "[INFO] " ++ message ++ "\n"
  | .warning warning => "[WARNING] " ++ warning.shown ++ "\n"

/-- The report of an error, with its file if that is known. -/
def errorText (error : Error) : List Char :=
  let place := match error.path with
    | some path => if path.isEmpty then "" else " [" ++ path ++ "]"
    | none => ""
  Text.trimRight error.message.toList ++ place.toList ++ ['\n']

/-- The answer to a run. -/
def replyOf (verbose : Bool) (run : Rendering Product) : Except Fault Reply :=
  let log := run.events.flatMap fun event => (eventText verbose event).toList
  match run.outcome with
  | .ok product => .ok ⟨0, product.output, log ++ product.remark⟩
  | .error (.error error) => .ok ⟨errorCode, [], log ++ errorText error⟩
  | .error (.fault kind) => .error kind

variable (modules : Filter.Modules)

/-- The settings for a place: those of the chosen file, or of the nearest one. -/
def loadSettings (tree : FileTree) (choices : Choices) (start : Path) : Rendering Settings := do
  let located (result : Except (Halt SettingsProblem) Settings) : Except (Halt Error) Settings :=
    result.mapError (Halt.map fun problem => ⟨.settings problem, none⟩)
  let config ← match choices.config with
    | some path => pure (some path)
    | none => Settings.find? tree start
  if let some path := config then
    Run.detail ("Using config " ++ path.toText)
  located do
    let further ← choices.contexts.foldlM
      (fun merged path => return Data.merge merged (← Settings.readContext tree path)) []
    Settings.load tree modules config choices.overrides further

/-- The rendering of a file, to the output or to another file. -/
def render (tree : FileTree) (file : Path) (output : Option Path) (choices : Choices) :
    FileTree × Rendering Product :=
  let run : Rendering (List Char) := do
    let settings ← loadSettings modules tree choices file.parent
    return (← Renderer.renderFile ⟨tree, settings⟩ file none none).2
  match output, run.outcome with
  | some path, .ok text =>
    let (after, writing) := tree.writeBelow path (Text.encode text)
    (after, do
      let _ ← run
      let _ ← (writing : Except Fault Unit)
      return ⟨[], []⟩)
  | _, _ => (tree, return ⟨← run, []⟩)

/-- The building of a tree. -/
def build (tree : FileTree) (source target : Path) (selection : Selection) (choices : Choices) :
    FileTree × Rendering Product :=
  if !tree.isDirectory source then
    (tree, Run.fail ⟨.noSourceDirectory source.toText, none⟩)
  else
    let loading := loadSettings modules tree choices source
    match loading.outcome with
    | .error reason => (tree, ⟨loading.events, .error reason⟩)
    | .ok settings =>
      let (after, run) := Build.build settings selection source target tree
      (after, do
        let _ ← loading
        let written ← run
        let count := toString written.length
        return ⟨[], ("Built " ++ count ++ " file(s) into " ++ target.toText ++ "\n").toList⟩)

/-- The answer to a request, and the tree after it. -/
def execute (tree : FileTree) : Request → FileTree × Except Fault Reply
  | .help => (tree, .ok ⟨0, usageText.toList, []⟩)
  | .version => (tree, .ok ⟨0, versionText.toList, []⟩)
  | .render file output choices =>
    let (after, run) := render modules tree file output choices
    (after, replyOf choices.verbose run)
  | .build source target selection choices =>
    let (after, run) := build modules tree source target selection choices
    (after, replyOf choices.verbose run)

end Transclude.CommandLine
