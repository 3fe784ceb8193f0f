import Transclude.Json.Error
import Transclude.Number.Decimal
import Transclude.Value.Basic

/-! # Reading JSON

A JSON text is read as data. Besides the standard's values `NaN`, `Infinity` and
`-Infinity` are numbers; of the entries with one name the last counts, in the
place of the first. Every reader takes the rest of the text and returns what
follows the part that it has read; a failure carries the rest of the text where
it is found. The first argument of the readers of nested parts bounds their
depth and is chosen from the length of the text. -/

namespace Transclude.Json

/-- A problem and the rest of the text that begins where it is found. -/
abbrev Failure := Problem × List Char

/-- The rest of the text behind blanks, tabs and line ends. -/
def skipSpace (text : List Char) : List Char :=
  text.dropWhile fun c => c == ' ' || c == '\t' || c == '\n' || c == '\r'

/-- The number written by four hexadecimal digits, provided that the text goes on behind them. -/
def fourHex? : List Char → Option (Nat × List Char)
  | a :: b :: c :: d :: e :: rest => (Text.numberInBase? 16 [a, b, c, d]).map (·, e :: rest)
  | _ => none

/-- Whether the number is the first half of a surrogate pair. -/
def isHighSurrogate (n : Nat) : Bool := 0xd800 ≤ n && n ≤ 0xdbff

/-- Whether the number is the second half of a surrogate pair. -/
def isLowSurrogate (n : Nat) : Bool := 0xdc00 ≤ n && n ≤ 0xdfff

/-- The character of a code point; a lone surrogate becomes the replacement character. -/
def charOf (n : Nat) : Char :=
  if isHighSurrogate n || isLowSurrogate n then Char.ofNat 0xfffd else Char.ofNat n

/-- The character of a `\u` escape behind its `u`. Two escapes that form a surrogate pair are one
character. -/
def unicodeEscape (text : List Char) : Except Failure (Char × List Char) :=
  match fourHex? text with
  | none => .error (.invalidUnicodeEscape, 'u' :: text)
  | some (high, rest) =>
    match isHighSurrogate high, rest with
    | true, '\\' :: 'u' :: more =>
      if more.length < 5 then .ok (charOf high, rest)
      else match fourHex? more with
        | none => .error (.invalidUnicodeEscape, 'u' :: more)
        | some (low, after) =>
          if isLowSurrogate low then
            .ok (Char.ofNat (0x10000 + (high - 0xd800) * 0x400 + (low - 0xdc00)), after)
          else .ok (charOf high, rest)
    | _, _ => .ok (charOf high, rest)

/-- The character that a letter behind a backslash stands for. -/
def simpleEscape? (c : Char) : Option Char :=
  if c == '"' || c == '\\' || c == '/' then some c
  else if c == 'b' then some (Char.ofNat 0x8)
  else if c == 'f' then some (Char.ofNat 0xc)
  else if c == 'n' then some '\n'
  else if c == 'r' then some '\r'
  else if c == 't' then some '\t'
  else none

/-- The characters of a string up to its closing quote; `start` is the text from the opening
quote. -/
def readString (start : List Char) : Nat → List Char → Except Failure (List Char × List Char)
  | 0, _ | _ + 1, [] => .error (.unterminatedString, start)
  | fuel + 1, c :: rest =>
    if c == '"' then .ok ([], rest)
    else if c == '\\' then
      match rest with
      | [] => .error (.unterminatedString, start)
      | e :: more =>
        if e == 'u' then do
          let (char, after) ← unicodeEscape more
          let (chars, final) ← readString start fuel after
          return (char :: chars, final)
        else match simpleEscape? e with
          | none => .error (.invalidEscape, c :: rest)
          | some char => do
            let (chars, final) ← readString start fuel more
            return (char :: chars, final)
    else if c.toNat < 0x20 then .error (.controlCharacter, c :: rest)
    else do
      let (chars, final) ← readString start fuel rest
      return (c :: chars, final)

/-- The string behind its opening quote. -/
def stringAt (text : List Char) : Except Failure (String × List Char) := do
  let (chars, rest) ← readString ('"' :: text) (text.length + 1) text
  return (String.ofList chars, rest)

/-- The integer digits of a number: a single zero, or digits that begin with another one. -/
def wholeDigits : List Char → List Char
  | '0' :: _ => ['0']
  | text => text.takeWhile Char.isDigit

/-- The fraction that a text begins with: a point and at least one digit. -/
def fractionPart : List Char → List Char
  | '.' :: rest =>
    let digits := rest.takeWhile Char.isDigit
    if digits.isEmpty then [] else '.' :: digits
  | _ => []

/-- The exponent that a text begins with: a mark, an optional sign and at least one digit. -/
def exponentPart : List Char → List Char
  | mark :: rest =>
    if mark == 'e' || mark == 'E' then
      let sign := match rest with
        | '-' :: _ => ['-']
        | '+' :: _ => ['+']
        | _ => []
      let digits := (rest.drop sign.length).takeWhile Char.isDigit
      if digits.isEmpty then [] else mark :: sign ++ digits
    else []
  | [] => []

/-- The number that a text begins with. -/
def number? (text : List Char) : Option (Number × List Char) :=
  let (negative, unsigned) := match text with
    | '-' :: rest => (true, rest)
    | rest => (false, rest)
  let whole := wholeDigits unsigned
  if whole.isEmpty then none
  else
    let afterWhole := unsigned.drop whole.length
    let fraction := fractionPart afterWhole
    let afterFraction := afterWhole.drop fraction.length
    let exponent := exponentPart afterFraction
    let rest := afterFraction.drop exponent.length
    if fraction.isEmpty && exponent.isEmpty then
      (Text.decimalNumber? whole).map fun n =>
        (.int (if negative then -(n : Int) else n), rest)
    else
      (Decimal.unsigned? negative (whole ++ fraction ++ exponent)).map fun x => (.float x, rest)

/-- The words of JSON and their values. -/
def words : List (List Char × Content) := [
  ("null".toList, .null),
  ("true".toList, .bool true),
  ("false".toList, .bool false),
  ("NaN".toList, .number (.float .nan)),
  ("Infinity".toList, .number (.float (.infinite false))),
  ("-Infinity".toList, .number (.float (.infinite true)))]

/-- The word or number that a text begins with. -/
def readPlain (text : List Char) : Except Failure (Content × List Char) :=
  match words.find? fun word => word.1.isPrefixOf text with
  | some (word, value) => .ok (value, text.drop word.length)
  | none => match number? text with
    | some (n, rest) => .ok (.number n, rest)
    | none => .error (.expectedValue, text)

mutual

/-- The value that a text begins with. -/
def readValue : Nat → List Char → Except Failure (Content × List Char)
  | 0, text => .error (.expectedValue, text)
  | fuel + 1, text =>
    match text with
    | '"' :: rest => do
      let (s, after) ← stringAt rest
      return (.str s, after)
    | '\x7b' :: rest =>
      match skipSpace rest with
      | '\x7d' :: after => .ok (.map () [], after)
      | inside => do
        let (entries, after) ← readEntries fuel [] inside
        return (.map () entries, after)
    | '[' :: rest =>
      match skipSpace rest with
      | ']' :: after => .ok (.list () [], after)
      | inside => do
        let (items, after) ← readItems fuel inside
        return (.list () items, after)
    | text => readPlain text

/-- The entries of an object up to its closing brace, added to those already read. -/
def readEntries : Nat → Entries Unit → List Char → Except Failure (Entries Unit × List Char)
  | 0, _, text => .error (.expectedName, text)
  | fuel + 1, entries, text =>
    match text with
    | '"' :: rest => do
      let (name, afterName) ← stringAt rest
      match skipSpace afterName with
      | ':' :: afterColon =>
        let (value, afterValue) ← readValue fuel (skipSpace afterColon)
        let entries := entries.insert (.str name) value
        match skipSpace afterValue with
        | '\x7d' :: after => return (entries, after)
        | ',' :: more => readEntries fuel entries (skipSpace more)
        | other => .error (.expectedComma, other)
      | other => .error (.expectedColon, other)
    | text => .error (.expectedName, text)

/-- The items of an array up to its closing bracket. -/
def readItems : Nat → List Char → Except Failure (List Content × List Char)
  | 0, text => .error (.expectedValue, text)
  | fuel + 1, text => do
    let (item, afterItem) ← readValue fuel text
    match skipSpace afterItem with
    | ']' :: after => return ([item], after)
    | ',' :: more =>
      let (items, after) ← readItems fuel (skipSpace more)
      return (item :: items, after)
    | other => .error (.expectedComma, other)

end

/-- The value that a whole text is. -/
def readDocument (text : List Char) : Except Failure Content :=
  match text with
  | '\ufeff' :: _ => .error (.byteOrderMark, text)
  | _ => do
    let (value, rest) ← readValue (2 * text.length + 2) (skipSpace text)
    match skipSpace rest with
    | [] => return value
    | extra => .error (.extraData, extra)

/-- The data of a JSON text. -/
def read (text : List Char) : Except Error Content :=
  match readDocument text with
  | .ok value => .ok value
  | .error (problem, rest) => .error ⟨problem, text.length - rest.length⟩

end Transclude.Json
