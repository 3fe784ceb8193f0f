import Transclude.Text.Printable

/-! # Quoted text

The form in which messages and printed expressions show a text: between single
quotes, or between double quotes when it holds a single quote and no double one.
The quote and the backslash are escaped, and so is every character that does not
show as itself. Bytes are shown as the characters of ASCII behind the letter `b`. -/

namespace Transclude.Text

/-- The hexadecimal digits of a number, padded with zeros to a width. -/
def hexDigits (width n : Nat) : List Char :=
  let digits := Nat.toDigits 16 n
  List.replicate (width - digits.length) '0' ++ digits

/-- The escape of a character that does not show as itself. -/
def escapeCode (c : Char) : List Char :=
  if c == '\t' then ['\\', 't']
  else if c == '\n' then ['\\', 'n']
  else if c == '\r' then ['\\', 'r']
  else if c.toNat < 0x100 then '\\' :: 'x' :: hexDigits 2 c.toNat
  else if c.toNat < 0x10000 then '\\' :: 'u' :: hexDigits 4 c.toNat
  else '\\' :: 'U' :: hexDigits 8 c.toNat

/-- The quote around a text. -/
def quoteFor (text : List Char) : Char :=
  if text.contains '\'' && !text.contains '"' then '"' else '\''

/-- A character between the given quotes. -/
def quoteChar (quote c : Char) : List Char :=
  if c == quote || c == '\\' then ['\\', c]
  else if isPrintable c then [c]
  else escapeCode c

/-- A text with its quotes. -/
def quoted (text : List Char) : List Char :=
  let quote := quoteFor text
  quote :: text.flatMap (quoteChar quote) ++ [quote]

/-- A byte between the given quotes. -/
def quoteByte (quote c : Char) : List Char :=
  if c == quote || c == '\\' then ['\\', c]
  else if ' ' ≤ c && c ≤ '~' then [c]
  else escapeCode c

/-- Some bytes with their quotes. -/
def quotedBytes (bytes : List UInt8) : List Char :=
  let text := bytes.map fun b => Char.ofNat b.toNat
  let quote := quoteFor text
  'b' :: quote :: text.flatMap (quoteByte quote) ++ [quote]

end Transclude.Text
