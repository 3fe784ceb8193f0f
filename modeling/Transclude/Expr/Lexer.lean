import Transclude.Expr.Token
import Transclude.Text.Blank
import Transclude.Text.Digit
import Transclude.Text.Word

/-! # Splitting an expression into tokens

At each place that is not blank the longest number, closed string, operator,
symbol or word that stands there is the next token. A number may begin or end
with its point, strings stand between equal single or double quotes, and a
backslash in a string hides the next character or gives it a meaning. -/

namespace Transclude.Expr

/-- Why a text has no tokens. -/
inductive LexicalProblem
  | unterminatedString
  | unexpectedCharacter (c : Char)
deriving DecidableEq, Repr

/-- A lexical problem and its position. -/
structure LexicalError where
  problem : LexicalProblem
  position : Nat
deriving DecidableEq, Repr

/-- The wording of a lexical error. -/
def LexicalError.message (error : LexicalError) : String :=
  let text := match error.problem with
    | .unterminatedString => "Unterminated string literal"
    | .unexpectedCharacter c => "Unexpected character '" ++ String.singleton c ++ "'"
  text ++ " at position " ++ toString error.position

/-- The number of decimal digits at the beginning of a text. -/
def leadingDigits (text : List Char) : Nat := (text.takeWhile Text.isDecimalDigit).length

/-- The length of an exponent that the text begins with, zero if it has none. -/
def exponentLength : List Char → Nat
  | mark :: rest =>
    if mark == 'e' || mark == 'E' then
      let sign := match rest with
        | '+' :: _ | '-' :: _ => 1
        | _ => 0
      let digits := leadingDigits (rest.drop sign)
      if digits = 0 then 0 else 1 + sign + digits
    else 0
  | [] => 0

/-- The length of the number that the text begins with, zero if there is none. -/
def numberLength (text : List Char) : Nat :=
  let whole := leadingDigits text
  let mantissa := match text.drop whole with
    | '.' :: rest =>
      let fraction := leadingDigits rest
      if whole = 0 && fraction = 0 then 0 else whole + 1 + fraction
    | _ => whole
  if mantissa = 0 then 0 else mantissa + exponentLength (text.drop mantissa)

/-- The character that a backslash gives to the one behind it. -/
def escaped (c : Char) : Char :=
  match c with
  | 'n' => '\n'
  | 't' => '\t'
  | 'r' => '\r'
  | '0' => Char.ofNat 0
  | 'b' => Char.ofNat 0x8
  | 'f' => Char.ofNat 0xc
  | 'v' => Char.ofNat 0xb
  | c => c

/-- The content of a string up to its closing quote, and the number of characters read. -/
def stringContent? (quote : Char) : List Char → Option (List Char × Nat)
  | [] => none
  | c :: rest =>
    if c == quote then some ([], 1)
    else if c == '\\' then
      match rest with
      | [] => none
      | e :: more => (stringContent? quote more).map fun (content, length) =>
        (escaped e :: content, length + 2)
    else (stringContent? quote rest).map fun (content, length) => (c :: content, length + 1)

/-- The lexeme of a word. -/
def wordLexeme (word : List Char) : Lexeme :=
  let name := String.ofList word
  match Keyword.all.find? fun keyword => keyword.spelling == name with
  | some keyword => .keyword keyword
  | none => .identifier name

/-- The lexeme that the text begins with, and its length. -/
def lexeme? (text : List Char) : Option (Lexeme × Nat) :=
  let digits := numberLength text
  if digits ≠ 0 then some (.number (text.take digits), digits)
  else match text with
    | [] => none
    | c :: rest =>
      if c == '\'' || c == '"' then
        (stringContent? c rest).map fun (content, length) =>
          (.string (String.ofList content), length + 1)
      else match Operator.all.find? fun op => op.spelling.toList.isPrefixOf text with
        | some op => some (.operator op, op.spelling.length)
        | none => match Symbol.all.find? fun symbol => symbol.char == c with
          | some symbol => some (.symbol symbol, 1)
          | none =>
            if Text.isIdentifierStart c then
              let word := c :: rest.takeWhile Text.isIdentifierPart
              some (wordLexeme word, word.length)
            else none

/-- The tokens of the rest of a text that begins at a position. -/
def tokensFrom (position : Nat) : List Char → Except LexicalError (List Token)
  | [] => .ok []
  | c :: rest =>
    if Text.isBlank c then tokensFrom (position + 1) rest
    else match lexeme? (c :: rest) with
      | some (lexeme, length) => do
        let following ← tokensFrom (position + (length - 1) + 1) (rest.drop (length - 1))
        return ⟨lexeme, position⟩ :: following
      | none =>
        let problem :=
          if c == '\'' || c == '"' then .unterminatedString else .unexpectedCharacter c
        .error ⟨problem, position⟩
termination_by text => text.length
decreasing_by all_goals simp only [List.length_cons, List.length_drop]; omega

/-- The tokens of a text. -/
def tokenize (text : List Char) : Except LexicalError Tokens := do
  return ⟨← tokensFrom 0 text, text.length⟩

end Transclude.Expr
