/-! # Errors of JSON texts

What can be wrong with a JSON text and at which character. Messages name the
line, the column and the position, the first two counted from one. -/

namespace Transclude.Json

/-- What is wrong with a JSON text. -/
inductive Problem
  | byteOrderMark
  | expectedValue
  | expectedName
  | expectedColon
  | expectedComma
  | extraData
  | unterminatedString
  | controlCharacter
  | invalidEscape
  | invalidUnicodeEscape
deriving DecidableEq, Repr

/-- The wording of a problem. -/
def Problem.text : Problem → String
  | .byteOrderMark => "Unexpected UTF-8 BOM (decode using utf-8-sig)"
  | .expectedValue => "Expecting value"
  | .expectedName => "Expecting property name enclosed in double quotes"
  | .expectedColon => "Expecting ':' delimiter"
  | .expectedComma => "Expecting ',' delimiter"
  | .extraData => "Extra data"
  | .unterminatedString => "Unterminated string starting at"
  | .controlCharacter => "Invalid control character at"
  | .invalidEscape => "Invalid \\escape"
  | .invalidUnicodeEscape => "Invalid \\uXXXX escape"

/-- A problem and the position of the character it is found at. -/
structure Error where
  problem : Problem
  position : Nat
deriving DecidableEq, Repr

/-- The line of a position, counted from one. -/
def lineAt (text : List Char) (position : Nat) : Nat := (text.take position).count '\n' + 1

/-- The column of a position in its line, counted from one. -/
def columnAt (text : List Char) (position : Nat) : Nat :=
  ((text.take position).reverse.takeWhile (· != '\n')).length + 1

/-- The message of an error in a text. -/
def Error.message (error : Error) (text : List Char) : String :=
  error.problem.text ++ ": line " ++ toString (lineAt text error.position) ++ " column " ++
    toString (columnAt text error.position) ++ " (char " ++ toString error.position ++ ")"

end Transclude.Json
