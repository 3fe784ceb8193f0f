import Transclude.Yaml.Object

/-! # Reading YAML

A text is split into tokens, these give the nodes of its document, and the nodes
the objects that are its data. -/

namespace Transclude.Yaml

/-- The data of a YAML text; an empty one is null. -/
def read (text : List Char) : Result Datum := do
  match ← Document.ofTokens? (tokenize text) with
  | none => return .null
  | some document => document.toDatum

end Transclude.Yaml
