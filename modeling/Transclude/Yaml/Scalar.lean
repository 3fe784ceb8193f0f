import Transclude.Text.Digit
import Transclude.Yaml.Cursor
import Transclude.Yaml.Problem

/-! # Scalars in YAML texts

A scalar is written in quotes, plainly, or as a block behind `|` or `>`. A
single break inside the first two kinds counts as a space, and each further one
as a line feed. The first argument of the readers bounds their steps and is
chosen from the length of the text. -/

namespace Transclude.Yaml

/-- What a break and those behind it mean: a space for a single one, else the breaks but for
the first. Separators of Unicode stay. -/
def foldBreaks (first : Char) (others : List Char) : List Char :=
  if breakMeaning first != '\n' then first :: others
  else if others.isEmpty then [' ']
  else others

/-! ### Quoted scalars -/

/-- The blank lines and the indentation inside quotes behind a break: the breaks, and the place of
the text that follows. No separator of documents may stand there. -/
def quotedBreaks : Nat → Cursor → Option (List Char × Cursor)
  | 0, _ => none
  | fuel + 1, cursor =>
    if startsSeparator cursor.rest then none
    else
      let inner := cursor.skipWhile fun c => c == ' ' || c == '\t'
      match inner.rest with
      | c :: _ =>
        if isBreak c then do
          let (breaks, after) ← quotedBreaks fuel inner.next
          return (breakMeaning c :: breaks, after)
        else some ([], inner)
      | [] => some ([], inner)

/-- The characters that a letter behind a backslash can stand for. -/
def escapes : List (Char × Char) := [
  ('0', Char.ofNat 0), ('a', Char.ofNat 0x7), ('b', Char.ofNat 0x8), ('t', '\t'), ('\t', '\t'),
  ('n', '\n'), ('v', Char.ofNat 0xb), ('f', Char.ofNat 0xc), ('r', '\r'), ('e', Char.ofNat 0x1b),
  (' ', ' '), ('"', '"'), ('/', '/'), ('\\', '\\'), ('N', nextLine), ('_', Char.ofNat 0xa0),
  ('L', Char.ofNat 0x2028), ('P', Char.ofNat 0x2029)]

/-- The number of hexadecimal digits behind a letter that announces a code point. -/
def codeLength? (c : Char) : Option Nat :=
  if c == 'x' then some 2
  else if c == 'u' then some 4
  else if c == 'U' then some 8
  else none

/-- The character of a code point given by as many hexadecimal digits as said. -/
def codedChar (count : Nat) (text : List Char) : Result Char := do
  if text.length < count then malformed
  else charOfCode (← wellFormed (Text.numberInBase? 16 (text.take count)))

/-- What stands behind a backslash: the characters that it means, and the place behind it. -/
def quotedEscape (fuel : Nat) (cursor : Cursor) : Result (List Char × Cursor) :=
  match cursor.rest with
  | [] => malformed
  | c :: rest =>
    match escapes.lookup c, codeLength? c with
    | some meaning, _ => .ok ([meaning], cursor.next)
    | none, some count => do return ([← codedChar count rest], cursor.skip (count + 1))
    | none, none => if isBreak c then wellFormed (quotedBreaks fuel cursor.next) else malformed

/-- The text of a quoted scalar from behind its opening quote, and the place behind its closing one.
Backslashes have a meaning inside double quotes only. -/
def quotedText (double : Bool) : Nat → Cursor → Result (List Char × Cursor)
  | 0, _ => malformed
  | fuel + 1, cursor =>
    match cursor.rest with
    | [] => malformed
    | c :: rest =>
      let quote := if double then '"' else '\''
      if c == quote then
        if !double && rest.head? == some '\'' then do
          let (text, after) ← quotedText double fuel (cursor.skip 2)
          return ('\'' :: text, after)
        else .ok ([], cursor.next)
      else if double && c == '\\' then do
        let (meaning, behind) ← quotedEscape fuel cursor.next
        let (text, after) ← quotedText double fuel behind
        return (meaning ++ text, after)
      else if c == ' ' || c == '\t' || isBreak c then do
        let spaces := cursor.span fun d => d == ' ' || d == '\t'
        let behind := cursor.skip spaces.length
        match behind.rest with
        | [] => malformed
        | d :: _ =>
          if isBreak d then
            let (breaks, inner) ← wellFormed (quotedBreaks fuel behind.next)
            let (text, after) ← quotedText double fuel inner
            return (foldBreaks d breaks ++ text, after)
          else
            let (text, after) ← quotedText double fuel behind
            return (spaces ++ text, after)
      else do
        let (text, after) ← quotedText double fuel cursor.next
        return (c :: text, after)

/-! ### Plain scalars -/

/-- Where a plain scalar stands: inside brackets some characters end it, in version 1.1 also the
question mark. -/
structure PlainPlace where
  inFlow : Bool
  minor : Nat

/-- Whether a character ends a plain scalar by itself. -/
def PlainPlace.isEndedBy (place : PlainPlace) (c : Char) : Bool :=
  endsWord [c] || (place.inFlow &&
    (",[]\x7b\x7d".toList.contains c || (place.minor == 1 && c == '?')))

/-- The length of the part of a plain scalar that the text begins with: up to a space, a break, a
colon before one of them, or a bracket or comma inside brackets. -/
def plainLength (place : PlainPlace) : List Char → Nat
  | [] => 0
  | c :: rest =>
    if place.isEndedBy c || (c == ':' && endsWord rest) then 0
    else 1 + plainLength place rest

/-- What stands between two parts of a plain scalar: its meaning, which is empty when the scalar
must end, the place behind it, and whether it holds a break. -/
structure PlainGap where
  meaning : List Char
  after : Cursor
  crossesLine : Bool

/-- The blank lines and the indentation behind a break; absent at a separator of documents. The
place behind them is given in both cases. -/
def plainBreaks : Nat → Cursor → Option (List Char) × Cursor
  | 0, cursor => (none, cursor)
  | fuel + 1, cursor =>
    match cursor.rest with
    | c :: _ =>
      if c == ' ' then plainBreaks fuel cursor.next
      else if isBreak c then
        if startsSeparator cursor.next.rest then (none, cursor.next)
        else
          let (breaks, after) := plainBreaks fuel cursor.next
          (breaks.map (breakMeaning c :: ·), after)
      else (some [], cursor)
    | [] => (some [], cursor)

/-- The gap that begins here. -/
def plainGap (fuel : Nat) (cursor : Cursor) : PlainGap :=
  let spaces := cursor.span (· == ' ')
  let behind := cursor.skip spaces.length
  match behind.rest with
  | c :: _ =>
    if isBreak c then
      if startsSeparator behind.next.rest then ⟨[], behind.next, true⟩
      else match plainBreaks fuel behind.next with
        | (none, after) => ⟨[], after, true⟩
        | (some breaks, after) => ⟨foldBreaks c breaks, after, true⟩
    else ⟨spaces, behind, false⟩
  | [] => ⟨spaces, behind, false⟩

/-- The text of a plain scalar, the place behind it and the gap that ends it, and whether that gap
holds a break. Outside brackets the lines must be indented to the given column. -/
def plainText (place : PlainPlace) (indent : Nat) : Nat → Cursor → List Char × Cursor × Bool
  | 0, cursor => ([], cursor, false)
  | fuel + 1, cursor =>
    let count := plainLength place cursor.rest
    if count = 0 then ([], cursor, false)
    else
      let part := cursor.rest.take count
      let gap := plainGap fuel (cursor.skip count)
      let ends := gap.meaning.isEmpty || gap.after.rest.head? == some '#' ||
        (!place.inFlow && gap.after.column < indent)
      if ends then (part, gap.after, gap.crossesLine)
      else
        let (text, after, crossesLine) := plainText place indent fuel gap.after
        if text.isEmpty then (part, after, gap.crossesLine)
        else (part ++ gap.meaning ++ text, after, crossesLine)

/-! ### Block scalars -/

/-- What becomes of the line breaks at the end of a block scalar. -/
inductive Chomping
  | strip
  | clip
  | keep
deriving DecidableEq, Repr

/-- The head of a block scalar: its chomping, and its indentation relative to the parent if
given. -/
structure BlockHead where
  chomping : Chomping
  indentation : Option Nat
deriving DecidableEq, Repr

/-- The chomping that a sign asks for. -/
def chompingOf? (c : Char) : Option Chomping :=
  if c == '+' then some .keep
  else if c == '-' then some .strip
  else none

/-- The indentation that a digit asks for, and the place behind the digit. A zero is refused. -/
def indentationDigit (cursor : Cursor) : Option (Option Nat × Cursor) :=
  match cursor.rest with
  | c :: _ =>
    if c == '0' then none
    else if c.isDigit then some (some (c.toNat - 48), cursor.next)
    else some (none, cursor)
  | [] => some (none, cursor)

/-- The sign for the chomping, if one stands here, and the place behind it. -/
def chompingSign (cursor : Cursor) : Chomping × Cursor :=
  match cursor.rest.head?.bind chompingOf? with
  | some chomping => (chomping, cursor.next)
  | none => (.clip, cursor)

/-- The indicators behind `|` or `>`, a sign and a digit in either order. -/
def blockHead (cursor : Cursor) : Option (BlockHead × Cursor) := do
  let (head, after) ← match cursor.rest.head?.bind chompingOf? with
    | some chomping => do
      let (indentation, after) ← indentationDigit cursor.next
      pure (BlockHead.mk chomping indentation, after)
    | none => do
      let (indentation, behind) ← indentationDigit cursor
      if indentation.isSome then
        let (chomping, after) := chompingSign behind
        pure (BlockHead.mk chomping indentation, after)
      else pure (BlockHead.mk .clip none, behind)
  if endsItem after.rest then some (head, after) else none

/-- The blank lines before the first line of a block scalar: their breaks, the place behind them and
the greatest column reached. `first` is the column of the first blank line. -/
def leadingBreaks : Nat → Option Nat → Nat → Cursor →
    List Char × Cursor × Option Nat × Nat
  | 0, first, widest, cursor => ([], cursor, first, widest)
  | fuel + 1, first, widest, cursor =>
    match cursor.rest with
    | c :: _ =>
      if c == ' ' then leadingBreaks fuel first (max widest cursor.next.column) cursor.next
      else if isBreak c then
        let (breaks, result) := leadingBreaks fuel (first <|> some cursor.column) widest cursor.next
        (breakMeaning c :: breaks, result)
      else ([], cursor, first, widest)
    | [] => ([], cursor, first, widest)

/-- The blank lines inside a block scalar, and the place behind them and the indentation that
follows. -/
def blockBreaks (indent : Nat) : Nat → Cursor → List Char × Cursor
  | 0, cursor => ([], cursor)
  | fuel + 1, cursor =>
    let inner := cursor.skipIndent indent
    match inner.rest with
    | c :: _ =>
      if isBreak c then
        let (breaks, after) := blockBreaks indent fuel inner.next
        (breakMeaning c :: breaks, after)
      else ([], inner)
    | [] => ([], inner)

/-- The style of a block scalar: a folded one joins its lines. -/
structure BlockStyle where
  folded : Bool
  chomping : Chomping
  indent : Nat
  /-- A block without any indentation ends at a separator of documents. -/
  unindented : Bool

/-- The line breaks that the end of a block scalar keeps: that of the last line, and those
behind. -/
def finalBreaks (chomping : Chomping) (last : Option Char) (others : List Char) : List Char :=
  match chomping with
  | .strip => []
  | .clip => last.toList
  | .keep => last.toList ++ others

/-- Whether the text begins with a space or a tab. -/
def startsSpace : List Char → Bool
  | c :: _ => c == ' ' || c == '\t'
  | [] => false

/-- What stands between two lines of a block scalar, given the break behind the first, whether it
begins with a space, and the blank lines. -/
def betweenLines (style : BlockStyle) (last : Option Char) (spaced : Bool) (others : List Char)
    (following : List Char) : List Char :=
  if style.folded && last == some '\n' && !spaced && !startsSpace following then
    if others.isEmpty then [' '] else others
  else last.toList ++ others

/-- The lines of a block scalar from here on. `breaks` are the blank lines before them. -/
def blockLines (style : BlockStyle) : Nat → List Char → Cursor → List Char × Cursor
  | 0, _, cursor => ([], cursor)
  | fuel + 1, breaks, cursor =>
    let line := cursor.span fun c => !endsLine [c]
    let behind := cursor.skip line.length
    let last := behind.rest.head?.map breakMeaning
    let (others, after) := blockBreaks style.indent fuel behind.next
    let separated := style.unindented && after.column = 0 && startsSeparator after.rest
    if !separated && after.column = style.indent && !after.rest.isEmpty then
      let between := betweenLines style last (startsSpace cursor.rest) others after.rest
      let (text, final) := blockLines style fuel [] after
      (breaks ++ line ++ between ++ text, final)
    else (breaks ++ line ++ finalBreaks style.chomping last others, after)

/-- The text of a block scalar from behind its `|` or `>`, and the place behind it. `parent` is the
column that its lines must be indented from. -/
def blockText (folded : Bool) (parent : Nat) (cursor : Cursor) : Option (List Char × Cursor) := do
  let fuel := cursor.rest.length + 1
  let (head, afterHead) ← blockHead cursor
  let body ← afterHead.nextLine?
  let (breaks, first, indent) ← match head.indentation with
    | none =>
      let (breaks, inner, firstBlank, widest) := leadingBreaks fuel none 0 body
      match firstBlank with
      | some column => if 0 < column && column < widest then none else pure ()
      | none => pure ()
      pure (breaks, inner, max parent widest)
    | some indentation =>
      let indent := max parent 1 + indentation - 1
      let (breaks, inner) := blockBreaks indent fuel body
      pure (breaks, inner, indent)
  let unindented := parent = 0 && head.indentation.isNone
  if first.column = indent && !first.rest.isEmpty then
    return blockLines ⟨folded, head.chomping, indent, unindented⟩ fuel breaks first
  else
    return (finalBreaks head.chomping none breaks, first)

end Transclude.Yaml
