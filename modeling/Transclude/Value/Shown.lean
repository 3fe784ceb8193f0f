import Transclude.Text.Quoted
import Transclude.Value.Basic

/-! # Values in messages

Messages show a value as it would be written down: texts in quotes, lists in
brackets, mappings and sets in braces, `None`, `True` and `False` by these names.
They name the kind of a value by a short word. -/

namespace Transclude

/-- The parts joined by a comma and a blank. -/
def commaSeparated (parts : List String) : String := ", ".intercalate parts

/-- A date as shown in messages. -/
def Date.shown (date : Date) : String :=
  "datetime.date(" ++ commaSeparated ([date.year, date.month, date.day].map toString) ++ ")"

/-- A time zone as shown in messages. -/
def Zone.shown (zone : Zone) : String :=
  "datetime.timezone(" ++ shownDuration zone.offset ++ ", " ++
    String.ofList (Text.quoted zone.name.toList) ++ ")"

/-- A date with a time of day as shown in messages; zero seconds are left out. -/
def Moment.shown (moment : Moment) : String :=
  let time :=
    if moment.microsecond ≠ 0 then [moment.second, moment.microsecond]
    else if moment.second ≠ 0 then [moment.second]
    else []
  let fields := [moment.date.year, moment.date.month, moment.date.day, moment.hour, moment.minute]
  let zone := (moment.zone.map fun zone => "tzinfo=" ++ zone.shown).toList
  "datetime.datetime(" ++ commaSeparated ((fields ++ time).map toString ++ zone) ++ ")"

/-- A scalar as shown in messages. -/
def Scalar.shown : Scalar → String
  | .null => "None"
  | .undefined => "undefined"
  | .bool b => if b then "True" else "False"
  | .number (.int n) => toString n
  | .number (.float x) => x.toText
  | .str s => String.ofList (Text.quoted s.toList)
  | .bytes content => String.ofList (Text.quotedBytes content)
  | .filter name => "<function " ++ name ++ ">"
  | .date d => d.shown
  | .moment m => m.shown

/-- Items in round brackets; a single one is followed by a comma. -/
def inRoundBrackets (items : List String) : String :=
  match items with
  | [item] => "(" ++ item ++ ",)"
  | items => "(" ++ commaSeparated items ++ ")"

mutual

/-- A key as shown in messages. -/
def Key.shown : Key → String
  | .scalar s => s.shown
  | .sequence items => inRoundBrackets (Key.shownItems items)

/-- The items of a key as shown in messages. -/
def Key.shownItems : List Key → List String
  | [] => []
  | item :: rest => Key.shown item :: Key.shownItems rest

end

/-- A set as shown in messages. -/
def shownSet (members : List Key) : String :=
  if members.isEmpty then "set()"
  else "\x7b" ++ commaSeparated (Key.shownItems members) ++ "\x7d"

/-- The text that a scalar is used as where a text is wanted: a text stands for itself. -/
def Scalar.name : Scalar → String
  | .str s => s
  | .date d => d.toText
  | .moment m => m.toText
  | s => s.shown

/-- The text that names a key. -/
def Key.name : Key → String
  | .scalar s => s.name
  | key => key.shown

/-- The entries of a mapping, given as texts, as shown in messages: in braces, or as pairs in the
case of an ordered one. -/
def shownEntriesOf (ordered : Bool) (entries : List (String × String)) : String :=
  if ordered then
    let pairs := entries.map fun entry => inRoundBrackets [entry.1, entry.2]
    "ordereddict(" ++ (if pairs.isEmpty then "" else "[" ++ commaSeparated pairs ++ "]") ++ ")"
  else "\x7b" ++ commaSeparated (entries.map fun entry => entry.1 ++ ": " ++ entry.2) ++ "\x7d"

namespace Value

mutual

/-- Data as shown in messages. -/
def shown : Datum → String
  | .scalar s => s.shown
  | .tuple items => inRoundBrackets (shownItems items)
  | .set members => shownSet members
  | .list _ items => "[" ++ commaSeparated (shownItems items) ++ "]"
  | .map mark entries => shownEntriesOf mark.ordered (shownEntries entries)

/-- The items as shown in messages. -/
def shownItems : List Datum → List String
  | [] => []
  | item :: rest => shown item :: shownItems rest

/-- The keys and values as shown in messages. -/
def shownEntries : Data → List (String × String)
  | [] => []
  | (key, value) :: rest => (key.shown, shown value) :: shownEntries rest

end

/-- The text that data is used as where a text is wanted. -/
def name : Datum → String
  | .scalar s => s.name
  | value => value.shown

/-- The word for the kind of a value in messages. -/
def kindWord {ι : Type} : Value ι → String
  | .null => "NoneType"
  | .undefined => "_Undefined"
  | .bool _ => "bool"
  | .number (.int _) => "int"
  | .number (.float _) => "float"
  | .str _ => "str"
  | .scalar (.bytes _) => "bytes"
  | .scalar (.filter _) => "function"
  | .scalar (.date _) => "date"
  | .scalar (.moment _) => "datetime"
  | .tuple _ => "tuple"
  | .set _ => "set"
  | .list _ _ => "list"
  | .map _ _ => "dict"

end Value

end Transclude
