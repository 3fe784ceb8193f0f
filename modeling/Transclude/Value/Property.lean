import Transclude.Text.Blank
import Transclude.Text.Digit
import Transclude.Value.Text

/-! # Properties and paths

A property of a mapping is the value at a key, a property of a list or a text is
the item at a position, and `length` is a property of all three. What is missing
is `undefined`. A path reads properties one after the other and stops at `null`
and `undefined`. -/

namespace Transclude.Value

variable {ι : Type}

/-- The position that a key stands for in a list: an integer, an integral number, or a text of
digits. Digits without a place in decimal notation are no position. -/
def position? : Value ι → Except Fault (Option Int)
  | .number n => .ok n.toInt?
  | .str s =>
    let digits := s.toList
    if digits.isEmpty || !digits.all Text.isDigitLike then .ok none
    else match Text.decimalNumber? digits with
      | some n => .ok (some n)
      | none => .error .badValue
  | _ => .ok none

/-- The item at a position, or `undefined` outside the list. -/
def itemAt (items : List (Value ι)) (position : Option Int) : Value ι :=
  match position with
  | some p => if 0 ≤ p then (items[p.toNat]?).getD .undefined else .undefined
  | none => .undefined

/-- A property of a list of values. -/
def itemProperty (items : List (Value ι)) (key : Value ι) : Except Fault (Value ι) :=
  match key with
  | .str "length" => .ok (.number (.int items.length))
  | key => do return itemAt items (← key.position?)

/-- A property of a mapping. A number that is not a key itself is looked up by its text. -/
def entryProperty (entries : Entries ι) (key : Value ι) : Except Fault (Value ι) :=
  match key.toKey? with
  | none => .error .wrongType
  | some k =>
    match entries.get? k with
    | some value => .ok value
    | none =>
      let byText : Option (Value ι) :=
        match key with
        | .number n => entries.get? (.str n.toText)
        | _ => none
      match byText, key with
      | some value, _ => .ok value
      | none, .str "length" => .ok (.number (.int entries.length))
      | none, _ => .ok .undefined

/-- The property of a value at a key. -/
def getProperty (value key : Value ι) : Except Fault (Value ι) :=
  match value with
  | .map _ entries => entryProperty entries key
  | .list _ items => itemProperty items key
  | .tuple items => itemProperty items key
  | .str s => itemProperty (s.toList.map fun c => .str (String.ofList [c])) key
  | _ => .ok .undefined

/-- The value that a path of names leads to. -/
def lookupPath (value : Value ι) : List String → Except Fault (Value ι)
  | [] => .ok value
  | segment :: rest =>
    match value with
    | .null | .undefined => .ok .undefined
    | value => do lookupPath (← value.getProperty (.str segment)) rest

/-- The segments of a dotted path; empty ones do not count. -/
def dottedSegments (path : List Char) : List String :=
  ((Text.trim path).splitOn '.').filterMap fun segment =>
    if segment.isEmpty then none else some (String.ofList segment)

/-- The value that a dotted path leads to. -/
def lookupDotted (value : Value ι) (path : List Char) : Except Fault (Value ι) :=
  value.lookupPath (dottedSegments path)

end Transclude.Value
