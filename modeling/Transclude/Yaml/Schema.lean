import Transclude.Number.Decimal
import Transclude.Text.Lower
import Transclude.Yaml.Base64
import Transclude.Yaml.Problem
import Transclude.Yaml.Timestamp

/-! # The kinds of YAML nodes

The form of a plain scalar tells whether it is a number, a date, a truth value,
null or a text; a tag can say so explicitly. The value of a scalar is read by
the rules of its kind. Version 1.1 knows more words for truth values, octal
numbers without a letter and numbers of base sixty. -/

namespace Transclude.Yaml

/-- The kinds of nodes. `merge` is the key that takes entries from other mappings, and `defaultKey`
the scalar `=`, at which a mapping has the scalar that it can stand for. A lone `indicator` has no
value. -/
inductive Kind
  | null
  | bool
  | int
  | float
  | str
  | bytes
  | timestamp
  | merge
  | defaultKey
  | indicator
  | sequence
  | pairs
  | mapping
  | orderedMapping
  | set
deriving DecidableEq, Repr

/-- The kinds by the names of their tags. -/
def kindNames : List (List Char × Kind) := [
  ("null".toList, .null), ("bool".toList, .bool), ("int".toList, .int), ("float".toList, .float),
  ("str".toList, .str), ("binary".toList, .bytes), ("timestamp".toList, .timestamp),
  ("merge".toList, .merge), ("value".toList, .defaultKey), ("yaml".toList, .indicator),
  ("seq".toList, .sequence), ("pairs".toList, .pairs), ("map".toList, .mapping),
  ("omap".toList, .orderedMapping), ("set".toList, .set)]

/-- What the names of the tags of kinds begin with. -/
def kindSpace : List Char := "tag:yaml.org,2002:".toList

/-- The kind that a tag names. -/
def kindOfTag? (tag : List Char) : Option Kind :=
  if kindSpace.isPrefixOf tag then kindNames.lookup (tag.drop kindSpace.length) else none

/-! ### The forms of plain scalars -/

/-- A digit or an underscore, which may group digits. -/
def isGrouped (c : Char) : Bool := c.isDigit || c == '_'

/-- Whether the text is the digits of an exponent, behind its letter; the sign may be required. -/
def isExponent (signed : Bool) (text : List Char) : Bool :=
  match text with
  | mark :: rest =>
    let digits := match rest with
      | '+' :: more | '-' :: more => some more
      | _ => if signed then none else some rest
    (mark == 'e' || mark == 'E') && digits.any fun ds => !ds.isEmpty && ds.all Char.isDigit
  | [] => false

/-- The text without a sign at its beginning. -/
def unsigned : List Char → List Char
  | '+' :: rest | '-' :: rest => rest
  | rest => rest

/-- The words for infinity, and for what is not a number, behind their point. -/
def infinityWords : List (List Char) := [".inf".toList, ".Inf".toList, ".INF".toList]

/-- The words for what is not a number. -/
def nanWords : List (List Char) := [".nan".toList, ".NaN".toList, ".NAN".toList]

/-- Whether the text is groups of one or two digits below sixty, each behind a colon, and what
follows satisfies a predicate. -/
def areMinutes (isEnd : List Char → Bool) (text : List Char) : Bool :=
  match text with
  | ':' :: a :: b :: rest =>
    (a.isDigit && (isEnd (b :: rest) || areMinutes isEnd (b :: rest))) ||
      (('0' ≤ a && a ≤ '5') && b.isDigit && (isEnd rest || areMinutes isEnd rest))
  | [':', a] => a.isDigit && isEnd []
  | _ => false
termination_by text.length

/-- Whether the text has the form of a floating-point number of base sixty. -/
def isSexagesimalFloat (text : List Char) : Bool :=
  let body := unsigned text
  (body.head?.any Char.isDigit) &&
    areMinutes (fun rest => rest.head? == some '.' && (rest.drop 1).all isGrouped)
      (body.dropWhile isGrouped)

/-- Whether the text has the form of a floating-point number: digits with a point or an exponent, or
a point with digits, whose exponent must then have a sign. -/
def isFloat (text : List Char) : Bool :=
  let body := unsigned text
  infinityWords.contains body || nanWords.contains text ||
    match body with
    | [] => false
    | c :: _ =>
      let behind := body.dropWhile isGrouped
      if c.isDigit then
        match behind with
        | '.' :: fraction =>
          let rest := fraction.dropWhile isGrouped
          rest.isEmpty || isExponent false rest
        | rest => isExponent false rest
      else if c == '.' then
        let fraction := body.drop 1
        let rest := fraction.dropWhile isGrouped
        rest.length < fraction.length && (rest.isEmpty || isExponent true rest)
      else false

/-- Whether there are digits of a base, possibly grouped, and nothing else. -/
def areDigits (base : Nat) (text : List Char) : Bool :=
  !text.isEmpty && text.all fun c =>
    c == '_' || (Text.hexValue? c).any (· < base)

/-- Whether the text has the form of an integer. -/
def isInteger (text : List Char) : Bool :=
  (text.head?.any fun c => c == '+' || c == '-' || c.isDigit) &&
    match unsigned text with
    | '0' :: 'b' :: digits => areDigits 2 digits
    | '0' :: 'x' :: digits => areDigits 16 digits
    | '0' :: 'o' :: digits => areDigits 8 digits
    | digits => areDigits 10 digits

/-- Whether the text has the form of an integer of version 1.1. A zero at the beginning announces
octal digits. -/
def isLegacyInteger (text : List Char) : Bool :=
  (text.head?.any fun c => c == '+' || c == '-' || c.isDigit) &&
    match unsigned text with
    | '0' :: 'b' :: digits => areDigits 2 digits
    | '0' :: 'x' :: digits => areDigits 16 digits
    | digits =>
      areDigits 8 digits ||
        (digits.head?.any fun c => '1' ≤ c && c ≤ '9') &&
          (digits.all isGrouped || areMinutes List.isEmpty (digits.dropWhile isGrouped))

/-- Whether the text has the form of a floating-point number of version 1.1. -/
def isLegacyFloat (text : List Char) : Bool :=
  isSexagesimalFloat text ||
    (isFloat text && !((text.head? == some '+' || text.head? == some '-') &&
      (text.drop 1).head? == some '.' && !infinityWords.contains (text.drop 1)))

/-- The words for truth values in plain scalars. -/
def plainTruthWords : List String := ["true", "True", "TRUE", "false", "False", "FALSE"]

/-- Further words for truth values in version 1.1. -/
def legacyTruthWords : List String := [
  "y", "Y", "yes", "Yes", "YES", "n", "N", "no", "No", "NO", "on", "On", "ON", "off", "Off", "OFF"]

/-- The kind of a plain scalar, given the minor number of the version of YAML. A line feed at its
end does not count. Of other versions nothing is known. -/
def kindOfPlain (minor : Nat) (text : List Char) : Result Kind :=
  let line := if text.getLast? == some '\n' then text.dropLast else text
  let isWord (words : List String) : Bool := words.contains (String.ofList line)
  if minor ≠ 1 && minor ≠ 2 then .error (.fault .noSuchEntry)
  else if line.isEmpty && !text.isEmpty then .ok .str
  else .ok <|
    if isWord plainTruthWords || (minor = 1 && isWord legacyTruthWords) then .bool
    else if if minor = 1 then isLegacyFloat line else isFloat line then .float
    else if if minor = 1 then isLegacyInteger line else isInteger line then .int
    else if isWord ["<<"] then .merge
    else if isWord ["", "~", "null", "Null", "NULL"] then .null
    else if Timestamp.isTimestamp line then .timestamp
    else if isWord ["="] then .defaultKey
    else if isWord ["!", "&", "*"] then .indicator
    else .str

/-! ### The values of scalars -/

/-- A text without the underscores that group digits. -/
def ungrouped (text : List Char) : List Char := text.filter (· != '_')

/-- The sign of a number, true for a negative one, and what follows it. An empty text has
neither. -/
def splitNumber (text : List Char) : Result (Bool × List Char) :=
  match text with
  | [] => .error (.fault .noSuchPosition)
  | '-' :: rest => .ok (true, rest)
  | '+' :: rest => .ok (false, rest)
  | _ => .ok (false, text)

/-- The number that digits of a base write. -/
def digitsValue (base : Nat) (digits : List Char) : Result Int :=
  match Decimal.readIntIn? base digits with
  | some n => .ok n
  | none => .error (.error (.integer base digits))

/-- The value of an integer without its sign in version 1.1, where it is not in one of the bases
that a letter announces. -/
def legacyIntegerValue (digits : List Char) : Result Int :=
  if digits.isEmpty then .error (.fault .noSuchPosition)
  else if digits.head? == some '0' then digitsValue 8 digits
  else do
    let parts ← (digits.splitOn ':').mapM (digitsValue 10)
    return parts.foldl (fun value part => value * 60 + part) 0

/-- The value of an integer. -/
def integerValue (minor : Nat) (text : List Char) : Result Int := do
  let (negative, digits) ← splitNumber (ungrouped text)
  let value ← match digits with
    | ['0'] => pure 0
    | '0' :: 'b' :: rest => digitsValue 2 rest
    | '0' :: 'x' :: rest => digitsValue 16 rest
    | '0' :: 'o' :: rest => digitsValue 8 rest
    | _ => if minor = 1 then legacyIntegerValue digits else digitsValue 10 digits
  return if negative then -value else value

/-- The value of an unsigned floating-point number. -/
def decimalValue (digits : List Char) : Result Binary64 :=
  match Decimal.read? digits with
  | some x => .ok x
  | none => .error (.error (.float digits))

/-- The sum of parts, the last one first, of which each counts sixty times as much as the one before
it. -/
def sexagesimalSum (parts : List Binary64) : Binary64 :=
  (parts.foldl (fun (sum, unit) part =>
    (Binary64.add sum (Binary64.mul part (.ofInt unit)), unit * 60)) (Binary64.zero false, 1)).1

/-- The value of a floating-point number. The word for what is not a number always means the same;
others are told apart by an origin. -/
def floatValue (minor : Nat) (origin : List Nat) (text : List Char) : Result Binary64 := do
  let (negative, digits) ← splitNumber (Text.lower (ungrouped text))
  if digits == ".nan".toList then return .notANumber (some [])
  let value ←
    if digits == ".inf".toList then pure (.infinite false)
    else if minor ≠ 2 && digits.contains ':' then do
      let parts ← (digits.splitOn ':').mapM decimalValue
      pure (sexagesimalSum parts.reverse)
    else decimalValue digits
  return match value with
    | .notANumber _ => .notANumber (some origin)
    | x => if negative then x.neg else x

/-- The words for truth values, in small letters. -/
def truthWords : List (String × Bool) := [
  ("yes", true), ("no", false), ("y", true), ("n", false), ("true", true), ("false", false),
  ("on", true), ("off", false)]

/-- The value of a truth value. -/
def truthValue (text : List Char) : Result Bool :=
  match truthWords.lookup (String.ofList (Text.lower text)) with
  | some value => .ok value
  | none => .error (.fault .noSuchEntry)

end Transclude.Yaml
