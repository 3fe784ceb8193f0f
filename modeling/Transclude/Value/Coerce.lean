import Transclude.Number.Decimal
import Transclude.Value.Basic

/-! # Truth, kind and number of a value

Expressions take any value as a condition and as a number. False are `null`,
`undefined`, `false`, zero, the empty text, and what is not a number; an empty
list is true. -/

namespace Transclude

/-- The number that a text stands for: zero when blank, and no number when it writes none. An
integral number is an integer unless the text has a point or an exponent. -/
def numberOfText (text : List Char) : Number :=
  let trimmed := Text.trim text
  if trimmed.isEmpty then .int 0
  else match Decimal.read? trimmed with
    | none => .nan
    | some x =>
      if trimmed.any fun c => c == '.' || c == 'e' || c == 'E' then .float x
      else match x.toInt? with
        | some n => .int n
        | none => .float x

namespace Value

variable {ι : Type}

/-- Whether a condition with this value holds. -/
def isTruthy : Value ι → Bool
  | .null | .undefined => false
  | .bool b => b
  | .number n => !(n.isZero || n.isNaN)
  | .str s => s != ""
  | _ => true

/-- Whether a value counts as not given: `null`, `undefined`, `false`, zero, and what is empty. -/
def isVoid : Value ι → Bool
  | .null | .undefined => true
  | .bool b => !b
  | .number n => n.isZero
  | .str s => s == ""
  | .scalar (.bytes content) => content.isEmpty
  | .scalar _ => false
  | .tuple items => items.isEmpty
  | .set members => members.isEmpty
  | .list _ items => items.isEmpty
  | .map _ entries => entries.isEmpty

/-- The name of the kind of a value. -/
def kindName : Value ι → String
  | .undefined => "undefined"
  | .bool _ => "boolean"
  | .number _ => "number"
  | .str _ => "string"
  | _ => "object"

/-- The number that a value stands for. -/
def toNumber : Value ι → Number
  | .null => .int 0
  | .bool b => .int (if b then 1 else 0)
  | .number n => n
  | .str s => numberOfText s.toList
  | _ => .nan

end Value

end Transclude
