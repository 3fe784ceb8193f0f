import Transclude.Number.Binary64
import Transclude.Text.Blank
import Transclude.Text.Digit

/-! # Reading numbers

A floating-point number is read from a sign, decimal digits with an optional
point and an optional exponent, or from one of the words `inf`, `infinity` and
`nan` in any case. Digits of every script count, blanks around the number are
passed over, and an underscore may stand between two digits. Integers are read
in other bases too. -/

namespace Transclude.Decimal

open Text

/-- The blanks that may surround a number: all but the four separators of ASCII. -/
def isMargin (c : Char) : Bool := isBlank c && !(0x1c ≤ c.toNat && c.toNat ≤ 0x1f)

/-- The text without margins. -/
def withoutMargins (text : List Char) : List Char :=
  ((text.dropWhile isMargin).reverse.dropWhile isMargin).reverse

/-- The text with every decimal digit replaced by the ASCII digit of its value. -/
def asciiDigits (text : List Char) : List Char :=
  text.map fun c => match decimalValue? c with
    | some value => Char.ofNat (48 + value)
    | none => c

/-- The text without underscores, provided each of them stands between two digits. -/
def withoutUnderscores? (previous : Char) : List Char → Option (List Char)
  | [] => if previous == '_' then none else some []
  | c :: rest =>
    if c == '_' then
      if previous.isDigit then withoutUnderscores? c rest else none
    else if previous == '_' && !c.isDigit then none
    else (withoutUnderscores? c rest).map (c :: ·)

/-- Whether the text, in any case, is the given word of small letters. -/
def isWordOf (word text : List Char) : Bool := text.map Char.toLower == word

/-- The sign that a text may begin with, and the rest. -/
def splitSign : List Char → Bool × List Char
  | '-' :: rest => (true, rest)
  | '+' :: rest => (false, rest)
  | rest => (false, rest)

/-- A signed exponent of ASCII digits. -/
def exponent? (text : List Char) : Option Int :=
  let (negative, digits) := splitSign text
  if digits.isEmpty || !digits.all Char.isDigit then none
  else (decimalNumber? digits).map fun n => if negative then -(n : Int) else n

/-- The digits before the exponent: at least one, with at most one point. -/
def mantissa? (text : List Char) : Option (Nat × Int) :=
  let whole := text.takeWhile Char.isDigit
  match text.dropWhile Char.isDigit with
  | [] => if whole.isEmpty then none else (decimalNumber? whole).map (·, 0)
  | '.' :: fraction =>
    if (whole.isEmpty && fraction.isEmpty) || !fraction.all Char.isDigit then none
    else (decimalNumber? (whole ++ fraction)).map (·, -(fraction.length : Int))
  | _ => none

/-- An unsigned number in ASCII digits. -/
def unsigned? (negative : Bool) (text : List Char) : Option Binary64 :=
  let isMark (c : Char) : Bool := c == 'e' || c == 'E'
  let body := text.takeWhile (!isMark ·)
  match text.dropWhile (!isMark ·) with
  | [] => (mantissa? body).map fun (digits, scale) => .ofDecimal negative digits scale
  | _ :: power => do
    let (digits, scale) ← mantissa? body
    let exponent ← exponent? power
    return .ofDecimal negative digits (scale + exponent)

/-- The floating-point number that a text writes. -/
def read? (text : List Char) : Option Binary64 := do
  let plain ← withoutUnderscores? ' ' (asciiDigits (withoutMargins text))
  let (negative, body) := splitSign plain
  if isWordOf ['i', 'n', 'f'] body || isWordOf ['i', 'n', 'f', 'i', 'n', 'i', 't', 'y'] body then
    return .infinite negative
  else if isWordOf ['n', 'a', 'n'] body then return .nan
  else unsigned? negative body

/-- The integer that a text writes: a sign and decimal digits, with blanks around them passed over
and underscores between digits. -/
def readInt? (text : List Char) : Option Int := do
  let plain ← withoutUnderscores? ' ' (asciiDigits (withoutMargins text))
  exponent? plain

/-- The text without underscores, provided that it is not empty and each of them stands between two
other characters. -/
def ungrouped? (afterDigit : Bool) : List Char → Option (List Char)
  | [] => if afterDigit then some [] else none
  | c :: rest =>
    if c == '_' then if afterDigit then ungrouped? false rest else none
    else (ungrouped? true rest).map (c :: ·)

/-- The letter that announces a base behind a zero. -/
def baseLetter? (base : Nat) : Option Char :=
  [(2, 'b'), (8, 'o'), (16, 'x')].lookup base

/-- The digits behind the announcement of their base, which may be missing. -/
def behindBase (base : Nat) (text : List Char) : List Char :=
  match text with
  | '0' :: letter :: rest =>
    if baseLetter? base == some letter.toLower then
      if rest.head? == some '_' then rest.drop 1 else rest
    else text
  | text => text

/-- The integer that a text writes in a base: a sign and digits, which a zero and the letter of the
base may precede, with blanks around them passed over and underscores between digits. -/
def readIntIn? (base : Nat) (text : List Char) : Option Int := do
  let (negative, digits) := splitSign (asciiDigits (withoutMargins text))
  let n ← numberInBase? base (← ungrouped? false (behindBase base digits))
  return if negative then -(n : Int) else n

end Transclude.Decimal
