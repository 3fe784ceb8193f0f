import Transclude.Value.Shown

/-! # The text of a value

Documents show a value as text: nothing for `null` and `undefined`, the items of
a list joined by commas, and a mapping as compact JSON. A mapping has no text
when a key below it cannot be written in JSON. -/

namespace Transclude

/-- The text of a scalar. -/
def Scalar.toText : Scalar → String
  | .null | .undefined => ""
  | .bool b => if b then "true" else "false"
  | .number n => n.toText
  | .str s => s
  | .bytes content => (Scalar.bytes content).shown
  | .filter name => name
  | .date d => d.toText
  | .moment m => m.toText

namespace Json

/-- A character inside a JSON text: quotes, backslashes and control characters are escaped. -/
def escapeChar (c : Char) : List Char :=
  if c == '"' then ['\\', '"']
  else if c == '\\' then ['\\', '\\']
  else if c == '\n' then ['\\', 'n']
  else if c == '\r' then ['\\', 'r']
  else if c == '\t' then ['\\', 't']
  else if c == Char.ofNat 0x8 then ['\\', 'b']
  else if c == Char.ofNat 0xc then ['\\', 'f']
  else if c.toNat < 0x20 then '\\' :: 'u' :: Text.hexDigits 4 c.toNat
  else [c]

/-- A text as a JSON string. -/
def writeString (s : String) : String :=
  String.ofList ('"' :: s.toList.flatMap escapeChar ++ ['"'])

/-- A number as JSON, where a floating-point number keeps its point. -/
def writeNumber : Number → String
  | .int n => toString n
  | .float (.notANumber _) => "NaN"
  | .float (.infinite negative) => if negative then "-Infinity" else "Infinity"
  | .float x => x.toText

/-- A scalar as JSON; what JSON does not know is written as its text. -/
def writeScalar : Scalar → String
  | .null => "null"
  | .undefined => writeString "undefined"
  | .bool b => if b then "true" else "false"
  | .number n => writeNumber n
  | s => writeString s.toText

/-- The name that a key gets in a JSON object. -/
def keyName : Key → Except Fault String
  | .str s => .ok s
  | .scalar .null => .ok "null"
  | .scalar (.bool b) => .ok (if b then "true" else "false")
  | .scalar (.number n) => .ok (writeNumber n)
  | _ => .error .wrongType

end Json

namespace Value

variable {ι : Type}

mutual

/-- The compact JSON of a value. -/
def toJson : Value ι → Except Fault String
  | .scalar s => .ok (Json.writeScalar s)
  | .tuple items => do return "[" ++ ",".intercalate (← toJsonItems items) ++ "]"
  | .set members => .ok (Json.writeString (shownSet members))
  | .list _ items => do return "[" ++ ",".intercalate (← toJsonItems items) ++ "]"
  | .map _ entries => do return "\x7b" ++ ",".intercalate (← toJsonEntries entries) ++ "\x7d"

/-- The compact JSON of each item. -/
def toJsonItems : List (Value ι) → Except Fault (List String)
  | [] => .ok []
  | item :: rest => do return (← toJson item) :: (← toJsonItems rest)

/-- The compact JSON of each entry. -/
def toJsonEntries : Entries ι → Except Fault (List String)
  | [] => .ok []
  | (key, value) :: rest => do
    let name ← Json.keyName key
    let shown ← toJson value
    return (Json.writeString name ++ ":" ++ shown) :: (← toJsonEntries rest)

end

mutual

/-- The text of a value. -/
def toText : Value ι → Except Fault String
  | .scalar s => .ok s.toText
  | .tuple items => do return ",".intercalate (← toTexts items)
  | .set members => .ok (shownSet members)
  | .list _ items => do return ",".intercalate (← toTexts items)
  | .map identity entries => toJson (.map identity entries)

/-- The text of each item. -/
def toTexts : List (Value ι) → Except Fault (List String)
  | [] => .ok []
  | item :: rest => do return (← toText item) :: (← toTexts rest)

end

/-- The text of a value inside an expression, where `null` and `undefined` are named. -/
def toShownText : Value ι → Except Fault String
  | .null => .ok "null"
  | .undefined => .ok "undefined"
  | value => value.toText

end Value

end Transclude
