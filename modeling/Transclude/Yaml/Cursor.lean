/-! # Cursors in YAML texts

A cursor is a place in a text: what follows it, how many characters and lines
come before it, and its column. Line feeds, next-line characters and the two
separators of Unicode break the content of a text, but only line feeds begin a
new line: behind the others lines and columns are counted on. -/

namespace Transclude.Yaml

/-- The character for the next line. -/
def nextLine : Char := Char.ofNat 0x85

/-- The mark that may begin a text and takes no column. -/
def byteOrderMark : Char := Char.ofNat 0xfeff

/-- Whether the character breaks the content. -/
def isBreak (c : Char) : Bool :=
  c == '\n' || c == nextLine || c == Char.ofNat 0x2028 || c == Char.ofNat 0x2029

/-- Whether the content breaks or ends before the text. -/
def endsLine : List Char → Bool
  | [] => true
  | c :: _ => isBreak c

/-- Whether the text is at its end or begins with a space or a break. -/
def endsItem : List Char → Bool
  | [] => true
  | c :: _ => c == ' ' || isBreak c

/-- Whether a word ends before the text. -/
def endsWord : List Char → Bool
  | [] => true
  | c :: _ => c == '\t' || endsItem [c]

/-- Whether the text begins with a break. -/
def startsBreak : List Char → Bool
  | [] => false
  | c :: _ => isBreak c

/-- What a break means in a value: a line feed, or the separator that it is. -/
def breakMeaning (c : Char) : Char := if c == nextLine then '\n' else c

/-- Whether three characters stand at the beginning of the text and a word ends behind them. -/
def startsMark (mark text : List Char) : Bool :=
  mark.isPrefixOf text && endsWord (text.drop mark.length)

/-- The mark before a document. -/
def documentStartMark : List Char := "---".toList

/-- The mark behind a document. -/
def documentEndMark : List Char := "...".toList

/-- Whether the text begins with a mark that separates documents. -/
def startsSeparator (text : List Char) : Bool :=
  startsMark documentStartMark text || startsMark documentEndMark text

/-- A place in a text. -/
structure Cursor where
  rest : List Char
  index : Nat
  line : Nat
  column : Nat
deriving Repr

namespace Cursor

/-- The beginning of a text. -/
def start (text : List Char) : Cursor := ⟨text, 0, 0, 0⟩

/-- The place behind the next character. -/
def next (cursor : Cursor) : Cursor :=
  match cursor.rest with
  | [] => cursor
  | c :: rest =>
    if c == '\n' then ⟨rest, cursor.index + 1, cursor.line + 1, 0⟩
    else
      let width := if c == byteOrderMark then 0 else 1
      ⟨rest, cursor.index + 1, cursor.line, cursor.column + width⟩

/-- The place behind several characters. -/
def skip (cursor : Cursor) : Nat → Cursor
  | 0 => cursor
  | count + 1 => cursor.next.skip count

/-- The characters from here on that satisfy a predicate. -/
def span (cursor : Cursor) (p : Char → Bool) : List Char := cursor.rest.takeWhile p

/-- The place behind the characters that satisfy a predicate. -/
def skipWhile (cursor : Cursor) (p : Char → Bool) : Cursor := cursor.skip (cursor.span p).length

/-- The place at the end of the content of the line. -/
def skipLine (cursor : Cursor) : Cursor := cursor.skipWhile fun c => !endsLine [c]

/-- The place behind a comment, if one begins here. -/
def skipComment (cursor : Cursor) : Cursor :=
  match cursor.rest with
  | '#' :: _ => cursor.skipLine
  | _ => cursor

/-- The place behind the next break, when nothing but spaces and a comment stand before it. -/
def nextLine? (cursor : Cursor) : Option Cursor :=
  let after := (cursor.skipWhile (· == ' ')).skipComment
  if endsLine after.rest then some after.next else none

/-- The place behind the spaces, as long as the column is before the given one. -/
def skipIndent (column : Nat) (cursor : Cursor) : Cursor :=
  cursor.skip (min (column - cursor.column) (cursor.span (· == ' ')).length)

end Cursor

end Transclude.Yaml
