import Transclude.Error
import Transclude.FileTree
import Transclude.Json.Reader
import Transclude.Text.Lower
import Transclude.Yaml.Reader

/-! # Data files

A data file holds JSON, or YAML when its name ends with `.yaml` or `.yml` in any
case. It is UTF-8, and each of its line ends counts as a line feed. -/

namespace Transclude.DataFile

/-- The text of a file. -/
def readText (tree : FileTree) (path : Path) : Except (Halt Text.Utf8Error) (List Char) := do
  let bytes ← tree.readBytes path
  let text ← (Text.decode bytes).mapError Halt.error
  return Text.normalizeLines text

/-- Whether a path names a YAML file. -/
def isYaml (path : Path) : Bool :=
  let ending := Text.lower path.ending
  ending == ".yaml".toList || ending == ".yml".toList

/-- What a problem of a YAML text says about the file at a path. -/
def ofYamlProblem (path : Path) : Yaml.Problem → DataProblem
  | .malformed => .yaml path.toText
  | problem => .yamlScalar problem.message

/-- The data that a text writes; the path tells the format. -/
def parse (path : Path) (text : List Char) : Except (Halt DataProblem) Datum :=
  if isYaml path then (Yaml.read text).mapError (Halt.map (ofYamlProblem path))
  else match Json.read text with
    | .ok value => .ok (value.placed [])
    | .error error => .error (.error (.json text error))

/-- The data in a file. -/
def read (tree : FileTree) (path : Path) : Except (Halt DataProblem) Datum :=
  if FileTree.isNameable path then do
    let text ← (readText tree path).mapError (Halt.map .undecodable)
    parse path text
  else .error (.error .impossiblePath)

end Transclude.DataFile
