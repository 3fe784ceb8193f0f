import Transclude.Fault

/-! # Matching brackets

The bracket that closes the one at the beginning of a text, found by counting
depth. A scan that minds quotes passes over what stands between two equal quote
characters, where a backslash hides the character behind it. -/

namespace Transclude.Bracket

/-- The characters that open and close a quotation. -/
def isQuote (c : Char) : Bool := c == '\'' || c == '"' || c == '`'

/-- The offset of the bracket at which the depth returns to zero. `quote` is the open quotation, if
any. Between equal brackets every one counts as opening. -/
def closingFrom (minds : Bool) (opening closing : Char) (depth : Int) (quote : Option Char) :
    List Char → Option Nat
  | [] => none
  | c :: rest =>
    match quote with
    | some q =>
      if c == '\\' then
        match rest with
        | [] => none
        | _ :: more => (closingFrom minds opening closing depth (some q) more).map (· + 2)
      else
        let quote := if c == q then none else some q
        (closingFrom minds opening closing depth quote rest).map (· + 1)
    | none =>
      if minds && isQuote c then
        (closingFrom minds opening closing depth (some c) rest).map (· + 1)
      else if c == opening then
        (closingFrom minds opening closing (depth + 1) none rest).map (· + 1)
      else if c == closing then
        if depth == 1 then some 0
        else (closingFrom minds opening closing (depth - 1) none rest).map (· + 1)
      else (closingFrom minds opening closing depth none rest).map (· + 1)

/-- The offset of the bracket that closes the one at the beginning of the text. -/
def closing? (minds : Bool) (opening closing : Char) (text : List Char) : Option Nat :=
  closingFrom minds opening closing 0 none text

/-- The position of the bracket that closes the one at a position. A negative position counts from
the end of the text, behind which the scan goes on at the beginning. -/
def closingAt? (minds : Bool) (opening closing : Char) (text : List Char) (position : Int) :
    Except Fault (Option Int) :=
  if position < -(text.length : Int) then .error .noSuchPosition
  else
    let scanned :=
      if position < 0 then text.drop (text.length - position.natAbs) ++ text
      else text.drop position.toNat
    .ok ((closing? minds opening closing scanned).map fun offset => position + (offset : Int))

end Transclude.Bracket
