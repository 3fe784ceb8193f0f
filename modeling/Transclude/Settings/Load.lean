import Transclude.DataFile
import Transclude.Filter.Reference
import Transclude.Settings.Basic
import Transclude.Value.Merge

/-! # Settings from files

A file of settings is a YAML mapping; it may name filters by their modules. The
file that applies to a document is the nearest one at or above its directory.
Values from elsewhere replace those of the file, and further data is laid over
its context. -/

namespace Transclude.Settings

/-- The name of the file of settings that is looked for. -/
def fileName : String := "incl.yaml"

/-- The nearest file of settings from a place upwards. -/
def find? (tree : FileTree) (start : Path) : Except Fault (Option Path) := do
  let place ← tree.resolve start
  let first := if tree.isFile place then place.parent else place
  let candidates := (first :: first.parents).map fun directory => directory.join (.ofText fileName)
  return candidates.find? tree.isFile

/-- The filters that a value refers to, as entries for the settings. What is null or no more than
false is left as it is. -/
def withFilters (modules : Filter.Modules) (entries : Data) : Except (Halt SettingsProblem) Data :=
  match Entries.get? entries (.str "filters") with
  | none | some .null | some (.bool false) => .ok entries
  | some (.number n) => if n.isZero then .ok entries else .error (.error .filtersNotAMapping)
  | some (.map _ references) => do
    let registry ← (Filter.resolveAll modules [] references).mapError (Halt.map .filter)
    return Entries.insert entries (.str "filters") (.map (.ofPlace []) registry)
  | some _ => .error (.error .filtersNotAMapping)

/-- The entries with a relative base path seen from a directory. -/
def withBase (tree : FileTree) (directory : Option Path) (entries : Data) : Except Fault Data :=
  match directory, Entries.get? entries (.str "basepath") with
  | some directory, some (.str text) =>
    let path := Path.ofText text
    if text.toList.head? == some '@' then .ok entries
    else do
      if (← tree.expandHome path).isAbsolute then return entries
      let base ← tree.resolve (directory.join path)
      return Entries.insert entries (.str "basepath") (.str base.toText)
  | _, _ => .ok entries

/-- The settings that the entries of a file give, whose directory may be known. -/
def ofFileEntries (tree : FileTree) (modules : Filter.Modules) (directory : Option Path)
    (entries : Data) : Except (Halt SettingsProblem) Settings := do
  checkNames entries
  let entries ← withFilters modules entries
  let entries ← withBase tree directory entries
  ofEntries tree entries

/-- The entries of a file of settings. What is void counts as no entries. -/
def readEntries (tree : FileTree) (path : Path) : Except (Halt SettingsProblem) Data := do
  let text ← (DataFile.readText tree path).mapError fun
    | .error _ => Halt.fault .undecodable
    | .fault kind => .fault kind
  let value ← (Yaml.read text).mapError fun
    | .error .malformed => Halt.error (.settingsYaml path.toText)
    | .error _ => .fault .badValue
    | .fault kind => .fault kind
  match value with
  | .map _ entries => return entries
  | other => if other.isVoid then return [] else .error (.error (.settingsNotAMapping path.toText))

/-- The entries with others put in their place, of which null ones do not count. -/
def override (entries overrides : Data) : Data :=
  overrides.foldl (fun result entry =>
    match entry.2 with
    | .null => result
    | value => Entries.insert result entry.1 value) entries

/-- The entries with further data laid over their context. -/
def withContext (entries further : Data) : Except SettingsProblem Data :=
  if further.isEmpty then .ok entries
  else
    let insertOver (context : Data) : Data :=
      Entries.insert entries (.str "context") (.map (.ofPlace []) (Data.merge context further))
    match Entries.get? entries (.str "context") with
    | none => .ok (insertOver [])
    | some (.map _ context) => .ok (insertOver context)
    | some value => if value.isVoid then .ok (insertOver []) else .error .contextNotAMapping

/-- The settings of a file, if one is given, with overriding entries and further data. -/
def load (tree : FileTree) (modules : Filter.Modules) (file : Option Path)
    (overrides further : Data) : Except (Halt SettingsProblem) Settings := do
  let (entries, directory) ← match file with
    | none => pure ([], none)
    | some path => do
      if !tree.isFile path then throw (.error (.noSettingsFile path.toText))
      let entries ← readEntries tree path
      pure (entries, some (← tree.resolve path).parent)
  let entries := override entries overrides
  let entries ← (withContext entries further).mapError Halt.error
  ofFileEntries tree modules directory entries

/-- The mapping in a file of context data. -/
def readContext (tree : FileTree) (path : Path) : Except (Halt SettingsProblem) Data := do
  if !tree.isFile path then throw (.error (.noContextFile path.toText))
  let value ← (DataFile.read tree path).mapError (Halt.map (.unreadableContext path.toText))
  match value with
  | .map _ entries => return entries
  | _ => throw (.error (.contextFileNotAMapping path.toText))

end Transclude.Settings
