import Transclude.Bracket
import Transclude.Text.Blank
import Transclude.Text.Word

/-! # Directives in a text

A directive is an opening delimiter, optional spaces, a name, and arguments in
round brackets; a block has a body in braces besides. A closing delimiter may
follow and then belongs to the directive. Quoted brackets do not count in the
arguments, and every brace counts in the body. -/

namespace Transclude

/-- The texts around every directive. The closing one may be empty. -/
structure Delimiters where
  opening : List Char
  closing : List Char
deriving DecidableEq, Repr

/-- The delimiters in use unless others are chosen. -/
def Delimiters.standard : Delimiters := ⟨['@', '@'], []⟩

/-- The two forms of a directive: `name(args)` and `name (args) {body}`. -/
inductive Shape
  | call
  | block
deriving DecidableEq, Repr

/-- The bracketed parts of a directive. -/
inductive Part
  | arguments
  | body
deriving DecidableEq, Repr

/-- The word for a part in messages. -/
def Part.word : Part → String
  | .arguments => "arguments"
  | .body => "body"

/-- A directive found in a text: its parts, the positions where it starts and where the text goes
on, and the spaces and tabs right before it. -/
structure Directive where
  args : List Char
  body : List Char
  start : Nat
  stop : Nat
  before : List Char
deriving DecidableEq, Repr

namespace Directive

/-- Whether a name stands at the beginning of the text and ends there. -/
def nameEnds (name text : List Char) : Bool :=
  name.isPrefixOf text &&
    match text.drop name.length with
    | [] => true
    | c :: _ => !Text.isIdentifierPart c

/-- The largest number of spaces, up to the given one, behind which the name stands. -/
def spacesBefore? (name text : List Char) : Nat → Option Nat
  | 0 => if nameEnds name text then some 0 else none
  | count + 1 =>
    if nameEnds name (text.drop (count + 1)) then some (count + 1)
    else spacesBefore? name text count

/-- The length of the head of a directive that the text begins with: delimiter, spaces and name. -/
def headLength? (opening name text : List Char) : Option Nat :=
  if opening.isPrefixOf text then
    let rest := text.drop opening.length
    let spaces := (rest.takeWhile (· == ' ')).length
    (spacesBefore? name rest spaces).map fun count => opening.length + count + name.length
  else none

/-- The length of the closing delimiter that the text begins with, blanks before it included. -/
def closingLength (closing text : List Char) : Nat :=
  if closing.isEmpty then 0
  else
    let gap := Text.leadingBlanks text
    if closing.isPrefixOf (text.drop gap) then gap + closing.length else 0

/-- What stands behind the head of a directive. -/
inductive Tail
  /-- A directive with its parts and its length behind the head. -/
  | complete (args body : List Char) (length : Nat)
  /-- A part whose bracket is never closed. -/
  | unbalanced (part : Part)
  /-- Not a directive. -/
  | other
deriving DecidableEq, Repr

/-- Reads the bracketed part that the text begins with: what is inside, and its whole length. -/
def bracketed? (minds : Bool) (opening closing : Char) (text : List Char) :
    Option (List Char × Nat) :=
  (Bracket.closing? minds opening closing text).map fun close =>
    ((text.drop 1).take (close - 1), close + 1)

/-- Reads the body behind the arguments of a block. -/
def readBody (closing args : List Char) (length : Nat) (text : List Char) : Tail :=
  let gap := Text.leadingBlanks text
  let rest := text.drop gap
  match rest with
  | '\x7b' :: _ =>
    match bracketed? false '\x7b' '\x7d' rest with
    | none => .unbalanced .body
    | some (body, size) =>
      .complete args body (length + gap + size + closingLength closing (rest.drop size))
  | _ => .other

/-- Reads what stands behind the head of a directive. -/
def readTail (shape : Shape) (closing text : List Char) : Tail :=
  let gap := if shape = .block then Text.leadingBlanks text else 0
  let rest := text.drop gap
  match rest with
  | '(' :: _ =>
    match bracketed? true '(' ')' rest with
    | none => .unbalanced .arguments
    | some (args, size) =>
      match shape with
      | .call => .complete args [] (size + closingLength closing (rest.drop size))
      | .block => readBody closing args (gap + size) (rest.drop size)
  | _ => .other

end Directive

end Transclude
