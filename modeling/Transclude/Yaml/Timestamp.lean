import Transclude.Text.Digit
import Transclude.Value.Basic
import Transclude.Yaml.Problem

/-! # Dates and times in YAML

A timestamp is a date, and optionally a time of day with a fraction and the
offset of its time zone, which is named by the text of the offset. A fraction is
rounded to microseconds. -/

namespace Transclude.Yaml.Timestamp

/-- A number of at least one and at most two digits, and what follows. -/
def shortNumber? (text : List Char) : Option (Nat × List Char) :=
  let digits := (text.take 2).takeWhile Char.isDigit
  if digits.isEmpty then none
  else (Text.decimalNumber? digits).map (·, text.drop digits.length)

/-- A number of exactly the given count of digits, and what follows. -/
def fixedNumber? (count : Nat) (text : List Char) : Option (Nat × List Char) :=
  let digits := text.take count
  if digits.length = count && digits.all Char.isDigit then
    (Text.decimalNumber? digits).map (·, text.drop count)
  else none

/-- What follows a character that must stand first. -/
def behind? (c : Char) (text : List Char) : Option (List Char) :=
  if text.head? == some c then some (text.drop 1) else none

/-- An offset from the meridian as it is written. -/
structure Offset where
  seconds : Int
  text : List Char
deriving DecidableEq, Repr

/-- The time behind a date. -/
structure Time where
  hour : Nat
  minute : Nat
  second : Nat
  fraction : List Char
  offset : Option Offset
deriving DecidableEq, Repr

/-- The numbers of a timestamp. -/
structure Fields where
  year : Nat
  month : Nat
  day : Nat
  time : Option Time
deriving DecidableEq, Repr

/-- Whether the character is a space or a tab. -/
def isSpace (c : Char) : Bool := c == ' ' || c == '\t'

/-- The hours and the minutes, if any, of an offset, in minutes. -/
def offsetMinutes? (text : List Char) : Option Nat := do
  let (hours, more) ← shortNumber? text
  match more with
  | [] => return hours * 60
  | ':' :: digits =>
    let (minutes, final) ← fixedNumber? 2 digits
    if final.isEmpty then return hours * 60 + minutes else none
  | _ => none

/-- The offset that a whole text writes: none, `Z`, or a sign with hours and optionally minutes. -/
def offset? (text : List Char) : Option (Option Offset) :=
  let written := text.dropWhile isSpace
  match written with
  | [] => if text.isEmpty then some none else none
  | ['Z'] => some (some ⟨0, written⟩)
  | sign :: rest =>
    if sign == '+' || sign == '-' then
      (offsetMinutes? rest).map fun minutes =>
        let seconds : Int := minutes * 60
        some ⟨if sign == '-' then -seconds else seconds, written⟩
    else none

/-- The time that a whole text writes. -/
def time? (text : List Char) : Option Time := do
  let (hour, text) ← shortNumber? text
  let (minute, text) ← fixedNumber? 2 (← behind? ':' text)
  let (second, text) ← fixedNumber? 2 (← behind? ':' text)
  match text with
  | '.' :: rest =>
    let fraction := rest.takeWhile Char.isDigit
    return ⟨hour, minute, second, fraction, ← offset? (rest.drop fraction.length)⟩
  | text => return ⟨hour, minute, second, [], ← offset? text⟩

/-- The fields of the timestamp that a whole line writes. Between date and time stand the letter `T`
or spaces. -/
def fields? (line : List Char) : Option Fields := do
  let (year, text) ← fixedNumber? 4 line
  let (month, text) ← shortNumber? (← behind? '-' text)
  let (day, text) ← shortNumber? (← behind? '-' text)
  match text with
  | [] => return ⟨year, month, day, none⟩
  | c :: rest =>
    if c == 'T' || c == 't' then return ⟨year, month, day, some (← time? rest)⟩
    else if isSpace c then return ⟨year, month, day, some (← time? (rest.dropWhile isSpace))⟩
    else none

/-- Whether a plain scalar is a timestamp: a date without a time has two digits for month and
day. -/
def isTimestamp (line : List Char) : Bool :=
  match fields? line with
  | some fields => fields.time.isSome || line.length = 10
  | none => false

/-- The microseconds of a fraction, and whether they round up to a whole second. -/
def microseconds (fraction : List Char) : Nat × Bool :=
  let digits := (fraction ++ List.replicate 6 '0').take 6
  let roundsUp := (fraction.drop 6).head?.any fun c => '4' < c
  let value := (Text.decimalNumber? digits).getD 0 + (if roundsUp then 1 else 0)
  if value < 1000000 then (value, false) else (0, true)

/-- The result of a check of the calendar. -/
def checked {α : Type} : Except CalendarProblem α → Result α :=
  Except.mapError fun problem => .error (.calendar problem)

/-- The moment of a date that is yet to be checked and a time. -/
def momentOf (fields : Fields) (time : Time) : Result Moment := do
  let zone ← time.offset.mapM fun offset =>
    checked (Zone.ofOffset offset.seconds (String.ofList offset.text))
  let date ← checked (Date.ofFields fields.year fields.month fields.day)
  let (fraction, carries) := microseconds time.fraction
  let moment ← checked (Moment.ofFields date time.hour time.minute time.second fraction zone)
  if carries then return (← moment.shift 1) else return moment

/-- The value of a timestamp. A line feed at its end does not count. -/
def value (text : List Char) : Result Scalar := do
  let fields ← wellFormed (fields? (if text.getLast? == some '\n' then text.dropLast else text))
  match fields.time with
  | none => return .date (← checked (Date.ofFields fields.year fields.month fields.day))
  | some time => return .moment (← momentOf fields time)

end Transclude.Yaml.Timestamp
