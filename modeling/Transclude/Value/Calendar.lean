import Transclude.Fault

/-! # The calendar

Dates are those of the Gregorian calendar, extended to all years from 1 to 9999.
Days are counted from the first of January of the year 1, which is day zero. A
moment is a date with a time of day, possibly of a time zone; moments of zones
are the same when they lie at the same point of time. -/

namespace Transclude

/-- A calendar date. -/
structure Date where
  year : Nat
  month : Nat
  day : Nat
deriving DecidableEq, Repr, Inhabited

/-- A time zone: the seconds that it is ahead of the meridian, and its name. -/
structure Zone where
  offset : Int
  name : String
deriving DecidableEq, Repr, Inhabited

/-- A date with a time of day, in a time zone if one is given. -/
structure Moment where
  date : Date
  hour : Nat
  minute : Nat
  second : Nat
  microsecond : Nat
  zone : Option Zone
deriving DecidableEq, Repr, Inhabited

/-- Why numbers are no date, time of day or time zone. -/
inductive CalendarProblem
  | year (given : Nat)
  | month
  | day
  | hour
  | minute
  | second
  | offset (given : Int)
deriving DecidableEq, Repr

/-- A duration of whole seconds as shown in messages: in days, which carry the sign, and seconds;
zero parts are left out. -/
def shownDuration (seconds : Int) : String :=
  let part (name : String) (n : Int) : List String :=
    if n = 0 then [] else [name ++ "=" ++ toString n]
  let parts := part "days" (seconds / 86400) ++ part "seconds" (seconds % 86400)
  "datetime.timedelta(" ++ (if parts.isEmpty then "0" else ", ".intercalate parts) ++ ")"

/-- The wording of a problem. -/
def CalendarProblem.message : CalendarProblem → String
  | .year given => "year " ++ toString given ++ " is out of range"
  | .month => "month must be in 1..12"
  | .day => "day is out of range for month"
  | .hour => "hour must be in 0..23"
  | .minute => "minute must be in 0..59"
  | .second => "second must be in 0..59"
  | .offset given =>
    "offset must be a timedelta strictly between -timedelta(hours=24) and " ++
      "timedelta(hours=24), not " ++ shownDuration given ++ "."

namespace Calendar

/-- Whether a year has a twenty-ninth of February. -/
def isLeap (year : Nat) : Bool := year % 4 == 0 && (year % 100 != 0 || year % 400 == 0)

/-- The number of days of a month. -/
def daysInMonth (year month : Nat) : Nat :=
  if month == 2 then (if isLeap year then 29 else 28)
  else if month == 4 || month == 6 || month == 9 || month == 11 then 30
  else 31

/-- The number of days before a year. -/
def daysBeforeYear (year : Nat) : Nat :=
  let past := year - 1
  365 * past + past / 4 - past / 100 + past / 400

/-- The number of days of a year before a month. -/
def daysBeforeMonth (year month : Nat) : Nat :=
  (List.range (month - 1)).foldl (fun days m => days + daysInMonth year (m + 1)) 0

/-- The number of a day. -/
def dayNumber (date : Date) : Nat :=
  daysBeforeYear date.year + daysBeforeMonth date.year date.month + (date.day - 1)

/-- The month and day for a number of days since the beginning of a year, from a month on. The first
argument counts the months that are left. -/
def monthAndDay (year : Nat) : Nat → Nat → Nat → Nat × Nat
  | 0, month, days => (month, days + 1)
  | left + 1, month, days =>
    if days < daysInMonth year month then (month, days + 1)
    else monthAndDay year left (month + 1) (days - daysInMonth year month)

/-- The year of a day: the last one that does not begin after it. A year is at most 366 days
long. -/
def yearOf (number : Nat) : Nat :=
  let guess := number / 366 + 1
  let reached := (List.range (number / 365 + 2 - guess)).filter fun ahead =>
    daysBeforeYear (guess + ahead) ≤ number
  guess + reached.getLastD 0

/-- The date of a day. -/
def dateOf (number : Nat) : Date :=
  let year := yearOf number
  let (month, day) := monthAndDay year 11 1 (number - daysBeforeYear year)
  ⟨year, month, day⟩

end Calendar

/-- A number with at least the given count of digits. -/
def padded (width n : Nat) : String :=
  String.ofList (List.replicate (width - (toString n).length) '0') ++ toString n

namespace Date

/-- The date of a year, month and day. -/
def ofFields (year month day : Nat) : Except CalendarProblem Date :=
  if year = 0 then .error (.year year)
  else if month = 0 || 12 < month then .error .month
  else if day = 0 || Calendar.daysInMonth year month < day then .error .day
  else .ok ⟨year, month, day⟩

/-- Year, month and day, joined by hyphens. -/
def toText (date : Date) : String :=
  padded 4 date.year ++ "-" ++ padded 2 date.month ++ "-" ++ padded 2 date.day

end Date

namespace Zone

/-- The zone of an offset and a name; the offset must be less than a day. -/
def ofOffset (offset : Int) (name : String) : Except CalendarProblem Zone :=
  if offset.natAbs < 86400 then .ok ⟨offset, name⟩ else .error (.offset offset)

/-- The offset in hours and minutes. -/
def toText (zone : Zone) : String :=
  let minutes := zone.offset.natAbs / 60
  (if zone.offset < 0 then "-" else "+") ++ padded 2 (minutes / 60) ++ ":" ++
    padded 2 (minutes % 60)

end Zone

namespace Moment

/-- The moment of a date, a time of day and a fraction of a second in microseconds. -/
def ofFields (date : Date) (hour minute second microsecond : Nat) (zone : Option Zone) :
    Except CalendarProblem Moment :=
  if 23 < hour then .error .hour
  else if 59 < minute then .error .minute
  else if 59 < second then .error .second
  else .ok ⟨date, hour, minute, second, microsecond, zone⟩

/-- The seconds from the beginning of the calendar, by the clock of the zone. -/
def clockSeconds (moment : Moment) : Int :=
  let ofDay := (moment.hour * 60 + moment.minute) * 60 + moment.second
  (Calendar.dayNumber moment.date * 86400 + ofDay : Nat)

/-- The moment some seconds later, or earlier when they are negative. -/
def shift (moment : Moment) (seconds : Int) : Except Fault Moment :=
  let total := moment.clockSeconds + seconds
  let date := Calendar.dateOf (total / 86400).toNat
  if total < 0 || 9999 < date.year then .error .tooLarge
  else
    let rest := (total % 86400).toNat
    .ok { moment with
      date := date, hour := rest / 3600, minute := rest / 60 % 60, second := rest % 60 }

/-- Whether two moments are the same: both without a zone and equal, or at the same point of
time. -/
def same (a b : Moment) : Bool :=
  match a.zone, b.zone with
  | some p, some q =>
    a.clockSeconds - p.offset == b.clockSeconds - q.offset && a.microsecond == b.microsecond
  | _, _ => a == b

/-- Date and time of day; the fraction of the second is shown unless it is zero, and the offset of
the zone if there is one. -/
def toText (moment : Moment) : String :=
  moment.date.toText ++ " " ++ padded 2 moment.hour ++ ":" ++ padded 2 moment.minute ++ ":" ++
    padded 2 moment.second ++
    (if moment.microsecond = 0 then "" else "." ++ padded 6 moment.microsecond) ++
    (moment.zone.map Zone.toText).getD ""

end Moment

end Transclude
