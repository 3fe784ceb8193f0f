import Transclude.Directive.Basic
import Transclude.Error
import Transclude.FileTree
import Transclude.Filter.Pipeline
import Transclude.Value.Shown

/-! # Settings

The settings of a rendering: the delimiters of directives, the data of every
document, where relative paths of includes begin, the registered filters, and
whether included text is indented. They are made from data and checked once. -/

namespace Transclude

/-- Where the relative paths of includes begin: at the directory of the including file, or at a
fixed directory. -/
inductive Anchor
  | file
  | directory (path : Path)
deriving DecidableEq, Repr

/-- The settings of a rendering. Without a registry no include is filtered; `library` tells what the
registered filters do. -/
structure Settings where
  anchor : Anchor
  delimiters : Delimiters
  context : Data
  filters : Option Filter.Registry
  indent : Bool
  library : Filter.Library

namespace Settings

/-- The word for the directory of the including file. -/
def fileWord : String := "@file"

/-- The word for the working directory. -/
def rootWord : String := "@root"

/-- The delimiters unless others are set. -/
def standardDelimiters : Delimiters := ⟨"@@".toList, []⟩

/-- The settings where nothing is set. -/
def standard : Settings := ⟨.file, standardDelimiters, [], none, false, TextFilter.ofName?⟩

/-- The names of the settings. -/
def names : List String := ["basepath", "prefix", "suffix", "context", "filters", "indent"]

/-- The keys that name no setting. -/
def unknownKeys (entries : Data) : List Key :=
  (entries.map (·.1)).filter fun key => !names.any fun name => key.same (.str name)

/-- The text of a key that is one. -/
def keyText : Key → Except Fault String
  | .str s => .ok s
  | _ => .error .wrongType

/-- Refuses entries with keys that name no setting. -/
def checkNames (entries : Data) : Except (Halt SettingsProblem) Unit :=
  match unknownKeys entries with
  | [] => .ok ()
  | unknown => do
    let texts ← (unknown.mapM keyText : Except Fault (List String))
    .error (.error (.unknownNames (texts.mergeSort fun a b => decide (a ≤ b))))

/-- The value of a setting; null counts as not set. -/
def given? (entries : Data) (name : String) : Option Datum :=
  match Entries.get? entries (.str name) with
  | none | some .null => none
  | some value => some value

/-- The opening delimiter, which may not be empty. -/
def opening (value : Option Datum) : Except SettingsProblem (List Char) :=
  match value with
  | none => .ok standardDelimiters.opening
  | some (.str s) =>
    if s == "" then .error (.opening (Value.shown (.str s : Datum))) else .ok s.toList
  | some other => .error (.opening other.shown)

/-- The closing delimiter. -/
def closing (value : Option Datum) : Except SettingsProblem (List Char) :=
  match value with
  | none => .ok standardDelimiters.closing
  | some (.str s) => .ok s.toList
  | some other => .error (.closing other.shown)

/-- The data of every document. -/
def contextOf (value : Option Datum) : Except SettingsProblem Data :=
  match value with
  | none => .ok []
  | some (.map _ entries) => .ok entries
  | some other => .error (.contextKind other.kindWord)

/-- The anchor that a value names; what is void names the directory of the including file. -/
def anchorOf (tree : FileTree) (value : Option Datum) : Except Fault Anchor :=
  match value with
  | none => .ok .file
  | some value =>
    let name := if value.isVoid then fileWord else value.name
    if name = fileWord then .ok .file
    else if name = rootWord then .ok (.directory tree.workingPath)
    else do return .directory (← tree.resolve (← tree.expandHome (.ofText name)))

/-- Whether a value can be applied to a text. -/
def isFilter : Datum → Bool
  | .scalar (.filter _) => true
  | _ => false

/-- The registry of filters, all of which must be ones. -/
def registryOf (value : Option Datum) : Except SettingsProblem (Option Filter.Registry) :=
  match value with
  | none | some (.bool false) => .ok none
  | some (.map _ entries) =>
    match entries.find? fun entry => !isFilter entry.2 with
    | some entry => .error (.filterNotCallable entry.1.name)
    | none => .ok (some entries)
  | some other => .error (.filtersKind other.kindWord)

/-- The settings that entries give. -/
def ofEntries (tree : FileTree) (entries : Data) : Except (Halt SettingsProblem) Settings := do
  checkNames entries
  let opening ← (opening (given? entries "prefix")).mapError Halt.error
  let closing ← (closing (given? entries "suffix")).mapError Halt.error
  let context ← (contextOf (given? entries "context")).mapError Halt.error
  let anchor ← anchorOf tree (given? entries "basepath")
  let filters ← (registryOf (given? entries "filters")).mapError Halt.error
  let indent := (given? entries "indent").any fun value => !value.isVoid
  return ⟨anchor, ⟨opening, closing⟩, context, filters, indent, TextFilter.ofName?⟩

/-- The settings that a value gives: a text is the opening delimiter, null the standard. -/
def ofDatum (tree : FileTree) (value : Datum) : Except (Halt SettingsProblem) Settings :=
  match value with
  | .null => .ok standard
  | .str s => ofEntries tree [(.str "prefix", .str s)]
  | .map _ entries => ofEntries tree entries
  | other => .error (.error (.settingsKind other.kindWord))

/-- The name of the entry for the way from a document to its base. -/
def webRootName : String := "webRoot"

/-- Whether the context sets the way to the base itself. -/
def setsWebRoot (settings : Settings) : Bool :=
  (Entries.get? settings.context (.str webRootName)).any fun value => !value.isVoid

/-- The directory where the relative paths of includes in a file begin. -/
def includeBase (settings : Settings) (file : Path) : Path :=
  match settings.anchor with
  | .file => file.parent
  | .directory path => path

/-- The text of an anchor. -/
def anchorText : Anchor → String
  | .file => fileWord
  | .directory path => path.toText

end Settings

end Transclude
