import Transclude.Expr.Condition
import Transclude.Json.Error
import Transclude.Run
import Transclude.Text.Utf8

/-! # Errors

The errors that end the rendering of a document and are reported to its author:
what has gone wrong, and the file in which it was found when that is known. -/

namespace Transclude

/-- What is wrong with the filters of a call or of the settings. -/
inductive FilterProblem
  | unknown (name : String) (available : List String)
  | unterminatedOptions (call : List Char)
  | invalidOptions (options : List Char) (error : Json.Error)
  | notAReference (name shown : String)
  | noModule (name moduleName missing : String) (container : Option String)
  | noMember (name moduleName member : String)
  | notCallable (name reference : String)
deriving DecidableEq, Repr

/-- The wording of a filter problem. -/
def FilterProblem.message : FilterProblem → String
  | .unknown name available =>
    let listed := ", ".intercalate available
    "Unknown filter '" ++ name ++ "' (available: " ++
      (if listed.isEmpty then "none" else listed) ++ ")"
  | .unterminatedOptions call => "Unterminated filter options: " ++ String.ofList call
  | .invalidOptions options error =>
    "Invalid filter options " ++ String.ofList options ++ ": " ++ error.message options
  | .notAReference name shown =>
    "Filter '" ++ name ++ "' must be a callable or 'module:attribute', got " ++ shown
  | .noModule name moduleName missing container =>
    "Cannot import module for filter '" ++ name ++ "': " ++ moduleName ++ " (No module named '" ++
      missing ++ "'" ++ (match container with
        | none => ""
        | some parent => "; '" ++ parent ++ "' is not a package") ++ ")"
  | .noMember name moduleName member =>
    "Filter '" ++ name ++ "': " ++ moduleName ++ " has no attribute '" ++ member ++ "'"
  | .notCallable name reference => "Filter '" ++ name ++ "' is not callable: " ++ reference

/-- Why a data file cannot be read. -/
inductive DataProblem
  | json (text : List Char) (error : Json.Error)
  | undecodable (error : Text.Utf8Error)
  | yaml (path : String)
  /-- A scalar of a YAML file has the form of a date or number but no value. -/
  | yamlScalar (message : String)
  /-- The path of the file cannot name one. -/
  | impossiblePath
deriving DecidableEq, Repr

/-- The wording for a YAML file that is no document. -/
def malformedYaml (path : String) : String := "Invalid YAML in " ++ path ++ ": malformed document"

/-- The wording of a data problem. -/
def DataProblem.message : DataProblem → String
  | .json text error => error.message text
  | .undecodable error => error.message
  | .yaml path => malformedYaml path
  | .yamlScalar message => message
  | .impossiblePath => "embedded null byte"

/-- What is wrong with the settings. -/
inductive SettingsProblem
  | opening (shown : String)
  | closing (shown : String)
  | contextKind (kind : String)
  | contextNotAMapping
  | filterNotCallable (name : String)
  | filtersKind (kind : String)
  | filtersNotAMapping
  | filter (problem : FilterProblem)
  | settingsKind (kind : String)
  | unknownNames (names : List String)
  | noSettingsFile (path : String)
  | settingsYaml (path : String)
  | settingsNotAMapping (path : String)
  | noContextFile (path : String)
  | unreadableContext (path : String) (problem : DataProblem)
  | contextFileNotAMapping (path : String)
deriving DecidableEq, Repr

/-- The wording of a settings problem. -/
def SettingsProblem.message : SettingsProblem → String
  | .opening shown => "prefix must be a non-empty string, got " ++ shown
  | .closing shown => "suffix must be a string, got " ++ shown
  | .contextKind kind => "context must be a mapping, got " ++ kind
  | .contextNotAMapping => "context must be a mapping"
  | .filterNotCallable name => "filter '" ++ name ++ "' is not callable"
  | .filtersKind kind => "filters must be a mapping or false, got " ++ kind
  | .filtersNotAMapping => "filters must be a mapping of name -> 'module:attribute'"
  | .filter problem => problem.message
  | .settingsKind kind => "options must be a mapping, got " ++ kind
  | .unknownNames names => "unknown option(s): " ++ ", ".intercalate names
  | .noSettingsFile path => "Config file not found: " ++ path
  | .settingsYaml path => malformedYaml path
  | .settingsNotAMapping path => "YAML must be a mapping: " ++ path
  | .noContextFile path => "Context file not found: " ++ path
  | .unreadableContext path problem =>
    "Cannot parse context file " ++ path ++ ": " ++ problem.message
  | .contextFileNotAMapping path => "Context file must contain a mapping: " ++ path

/-- What has gone wrong. -/
inductive Problem
  /-- A condition or loop has no value; `source` is its text. -/
  | evaluation (cause : Expr.Error) (source : List Char)
  /-- A file includes itself; `chain` leads from it back to it, and is empty when it does so
  directly. -/
  | recursion (path : String) (chain : List String)
  | notFound (target : String)
  | filter (problem : FilterProblem)
  | settings (problem : SettingsProblem)
  | undecodable (path : String) (error : Text.Utf8Error)
  | noSourceDirectory (path : String)
deriving DecidableEq, Repr

/-- The wording of a problem. -/
def Problem.message : Problem → String
  | .evaluation cause source => cause.message ++ ": " ++ String.ofList source
  | .recursion path chain =>
    "recursion detected in file: " ++ path ++
      (if chain.isEmpty then "" else " (chain: " ++ " -> ".intercalate chain ++ ")")
  | .notFound target => "included file not found: " ++ target
  | .filter problem => problem.message
  | .settings problem => problem.message
  | .undecodable path error => "Cannot decode " ++ path ++ " as UTF-8: " ++ error.message
  | .noSourceDirectory path => "Source directory not found: " ++ path

/-- An error and the file in which it was found. -/
structure Error where
  problem : Problem
  path : Option String
deriving DecidableEq, Repr

namespace Error

/-- The wording of an error. -/
def message (error : Error) : String := error.problem.message

/-- The error with a file, unless it has one. -/
def locatedIn (error : Error) (path : String) : Error :=
  match error.path with
  | none => { error with path := some path }
  | some _ => error

end Error

/-- What is wrong with a parameter that is rendered as if it were empty. -/
inductive Complaint
  | missingFile (path : String)
  | missingProperty (reference : String)
  | malformedFile (path : String) (problem : DataProblem)
  | malformedJson (text : List Char) (error : Json.Error)
  | notAnObject (kind : String)
  | notAnArray (kind : String)
deriving DecidableEq, Repr

/-- The wording of a complaint. -/
def Complaint.message : Complaint → String
  | .missingFile path => "JSON file not exists: " ++ path
  | .missingProperty reference => "\"" ++ reference ++ "\" property not exists in context"
  | .malformedFile path problem => "Cannot parse " ++ path ++ ": " ++ problem.message
  | .malformedJson text error => error.message text ++ ": " ++ String.ofList text
  | .notAnObject kind => "include parameter must be an object, got " ++ kind
  | .notAnArray kind => "loop parameter must be an array, got " ++ kind

/-- A complaint that does not end the rendering, and the file that it concerns. -/
structure Warning where
  complaint : Complaint
  path : Option String
deriving DecidableEq, Repr

namespace Warning

/-- The wording of a warning. -/
def message (warning : Warning) : String := warning.complaint.message

/-- The wording of a warning with its file. -/
def shown (warning : Warning) : String :=
  match warning.path with
  | some path => if path.isEmpty then warning.message else warning.message ++ " (in " ++ path ++ ")"
  | none => warning.message

end Warning

/-- A run of the renderer. -/
abbrev Rendering (α : Type) := Run Warning Error α

end Transclude
