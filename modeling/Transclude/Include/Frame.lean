import Transclude.Document
import Transclude.Filter.Pipeline
import Transclude.Include.Arguments
import Transclude.Include.Parameter
import Transclude.Settings.Basic
import Transclude.Text.Indent
import Transclude.Value.Merge

/-! # Frames of a rendering

A frame is one document on its way through the rendering, with its own data and
the documents that have led to it. A document has the data of the settings, over
them those of the include that leads to it, and its own text as `content`; it
does not see the data of the including document. -/

namespace Transclude

/-- What a rendering works with. -/
structure Renderer where
  tree : FileTree
  settings : Settings

/-- A document in a rendering. `shared` is the data that all its documents have, and `stack` the
files from the outermost one to this. -/
structure Frame where
  document : Document
  data : Data
  shared : Data
  stack : List Path

namespace Frame

/-- The name of the entry for the text of a document. -/
def contentName : String := "content"

/-- The data of a document: what all have, its parameter laid over it, and its own text. -/
def dataOf (shared : Data) (parameter : Option Data) (text : List Char) : Data :=
  Entries.insert (Data.derive shared [parameter]) (.str contentName) (.str (String.ofList text))

/-- The frame of the document where the rendering begins. -/
def outermost (document : Document) (shared : Data) (parameter : Option Data) : Frame :=
  ⟨document, dataOf shared parameter document.text, shared, [document.path]⟩

/-- The frame of an included document. -/
def inner (frame : Frame) (document : Document) (parameter : Option Data) : Frame :=
  ⟨document, dataOf frame.shared parameter document.text, frame.shared,
    frame.stack ++ [document.path]⟩

/-- The text of the path of the file that is rendered. -/
def file (frame : Frame) : String := frame.document.path.toText

/-- Refuses to include a file that is being rendered already; case does not count. -/
def checkRecursion (frame : Frame) (target : Path) : Except Error Unit :=
  let refuse (path : Path) (chain : List Path) : Except Error Unit :=
    .error ⟨.recursion path.toText (chain.map Path.toText), some path.toText⟩
  if target.sameFile frame.document.path then refuse frame.document.path []
  else match frame.stack.dropWhile fun seen => !target.sameFile seen with
    | [] => .ok ()
    | seen => refuse target (seen ++ [target])

end Frame

namespace Renderer

/-- The file that an include in a frame means. -/
def target (renderer : Renderer) (frame : Frame) (path : List Char) : Path :=
  renderer.tree.absolute
    ((renderer.settings.includeBase frame.document.path).join (Path.ofChars path))

/-- The text of an included file. -/
def readIncluded (renderer : Renderer) (frame : Frame) (target : Path) :
    Except (Halt Error) (List Char) :=
  (DataFile.readText renderer.tree target).mapError fun
    | .error error => .error ⟨.undecodable target.toText error, some frame.file⟩
    | .fault .fileSystem => .error ⟨.notFound target.toText, some frame.file⟩
    | .fault kind => .fault kind

/-- The text of an included file as it takes the place of the directive: indented and filtered if
the settings say so. -/
def prepare (renderer : Renderer) (directive : Directive) (text : List Char) :
    Rendering (List Char) :=
  let indented :=
    if renderer.settings.indent then Text.indent directive.before directive.before.length text
    else text
  match renderer.settings.filters with
  | none => return indented
  | some registry =>
    (Filter.applyCall registry directive.args indented renderer.settings.library).mapError fun problem =>
      ⟨.filter problem, none⟩

/-- The document that an include in a frame puts in its place. -/
def included (renderer : Renderer) (frame : Frame) (directive : Directive)
    (arguments : Include.Arguments) : Rendering Document := do
  let target := renderer.target frame arguments.path
  ((frame.checkRecursion target).mapError Halt.error : Except (Halt Error) Unit)
  let text ← renderer.readIncluded frame target
  return ⟨target, frame.document.base, ← renderer.prepare directive text⟩

/-- The parameter of an include in a frame. -/
def parameter (renderer : Renderer) (frame : Frame) (arguments : Include.Arguments) :
    Rendering Datum :=
  Include.Parameter.resolve renderer.tree renderer.settings.delimiters frame.data
    frame.document.base (some frame.file) arguments.parameter

end Renderer

end Transclude
