/-! # Tokens of YAML

A YAML text is a sequence of tokens. Blocks, which the text shows by
indentation, have tokens of their own for their beginning and end. -/

namespace Transclude.Yaml

/-- The tag of a node as it is written: a handle, unless the tag is given in full, and a suffix. -/
structure WrittenTag where
  handle : Option (List Char)
  suffix : List Char
deriving DecidableEq, Repr

/-- A directive before a document. -/
inductive DocumentDirective
  | version (major minor : Nat)
  | tag (handle expansion : List Char)
  | other
deriving DecidableEq, Repr

/-- A token. -/
inductive Token
  | directive (content : DocumentDirective)
  | documentStart
  | documentEnd
  | blockSequenceStart
  | blockMappingStart
  | blockEnd
  | flowSequenceStart
  | flowSequenceEnd
  | flowMappingStart
  | flowMappingEnd
  | blockEntry
  | flowEntry
  | key
  | value
  | alias (name : List Char)
  | anchor (name : List Char)
  | tag (written : WrittenTag)
  /-- A scalar; `plain` when it is written without quotes and indicators. -/
  | scalar (text : List Char) (plain : Bool)
deriving DecidableEq, Repr

end Transclude.Yaml
