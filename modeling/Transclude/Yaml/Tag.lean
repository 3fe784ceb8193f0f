import Transclude.Number.Decimal
import Transclude.Text.Utf8
import Transclude.Yaml.Cursor
import Transclude.Yaml.Problem
import Transclude.Yaml.Token

/-! # Tags, anchors and directives of YAML

The readers of tags, anchors and directives. Each takes the place where its part
begins and gives the part with the place behind it. What is allowed in a tag
depends on the minor number of the version of YAML. -/

namespace Transclude.Yaml

/-- Letters, digits, hyphens and underscores. -/
def isHandleChar (c : Char) : Bool := c.isAlphanum || c == '-' || c == '_'

/-- The characters of the name of a directive. -/
def isDirectiveNameChar (c : Char) : Bool := isHandleChar c || c == ':' || c == '.'

/-- The characters of a tag, the percent sign of escapes included. -/
def isTagChar (minor : Nat) (c : Char) : Bool :=
  c.isAlphanum || "-;/?:@&=+$,_.!~*'()[]%".toList.contains c || (1 < minor && c == '#')

/-- The characters of the name of an anchor: all that show, but for brackets and commas. -/
def isAnchorChar (c : Char) : Bool :=
  !",[]\x7b\x7d".toList.contains c && c != byteOrderMark &&
    (('!' ≤ c && c ≤ '~') || (Char.ofNat 0xa0 ≤ c && c.toNat ≠ 0xfffe && c.toNat ≠ 0xffff))

/-- Whether the text goes on with a character that may follow the name of an anchor. -/
def endsAnchor : List Char → Bool
  | [] => true
  | c :: _ => c == '\t' || endsItem [c] || "?:,[]\x7b\x7d%@`".toList.contains c

/-- The name of an anchor or alias from behind its sign. -/
def anchorName (cursor : Cursor) : Option (List Char × Cursor) :=
  let name := cursor.span isAnchorChar
  let after := cursor.skip name.length
  if !name.isEmpty && endsAnchor after.rest then some (name, after) else none

/-- The byte of an escape from behind its percent sign. -/
def escapedByte (text : List Char) : Option UInt8 :=
  match text with
  | a :: b :: _ => (Text.numberInBase? 16 [a, b]).map UInt8.ofNat
  | _ => none

/-- The bytes of the escapes that begin here. -/
def escapedBytes : Nat → Cursor → Option (List UInt8 × Cursor)
  | 0, _ => none
  | fuel + 1, cursor =>
    match cursor.rest with
    | '%' :: rest => do
      let byte ← escapedByte rest
      let (bytes, after) ← escapedBytes fuel (cursor.skip 3)
      return (byte :: bytes, after)
    | _ => some ([], cursor)

/-- The characters of a tag. Escapes are bytes of UTF-8. -/
def tagChars (minor : Nat) : Nat → Cursor → Option (List Char × Cursor)
  | 0, _ => none
  | fuel + 1, cursor =>
    match cursor.rest with
    | c :: _ =>
      if c == '%' then do
        let (bytes, behind) ← escapedBytes (cursor.rest.length + 1) cursor
        let decoded ← (Text.decode bytes).toOption
        let (text, after) ← tagChars minor fuel behind
        return (decoded ++ text, after)
      else if isTagChar minor c then do
        let (text, after) ← tagChars minor fuel cursor.next
        return (c :: text, after)
      else some ([], cursor)
    | [] => some ([], cursor)

/-- The characters of a tag, at least one. -/
def tagText (minor : Nat) (cursor : Cursor) : Option (List Char × Cursor) := do
  let (text, after) ← tagChars minor (cursor.rest.length + 1) cursor
  if text.isEmpty then none else return (text, after)

/-- The handle of a tag: an exclamation mark alone, or a name between two. -/
def tagHandle (cursor : Cursor) : Option (List Char × Cursor) :=
  match cursor.rest with
  | '!' :: ' ' :: _ => some (['!'], cursor.next)
  | '!' :: rest =>
    let name := rest.takeWhile isHandleChar
    if (rest.drop name.length).head? == some '!' then
      some ('!' :: name ++ ['!'], cursor.skip (name.length + 2))
    else none
  | _ => none

/-- Whether a second exclamation mark stands in the item behind the first one. -/
def hasNamedHandle : List Char → Bool
  | [] => false
  | c :: rest => c == '!' || (!endsItem [c] && hasNamedHandle rest)

/-- The handle of a tag without a name in it, and the place of its last exclamation mark. -/
def shortHandle (cursor : Cursor) : List Char × Cursor :=
  if (cursor.rest.drop 1).head? == some '!' then (['!', '!'], cursor.next) else (['!'], cursor)

/-- The tag that begins here. Exclamation marks alone are a tag by themselves, and a tag in angle
brackets may stand behind them. -/
def writtenTag (minor : Nat) (cursor : Cursor) : Option (WrittenTag × Cursor) := do
  let (short, start) := shortHandle cursor
  let (written, after) ← match start.rest.drop 1 with
    | '<' :: _ => do
      let (suffix, behind) ← tagText minor (start.skip 2)
      if behind.rest.head? == some '>' then pure (WrittenTag.mk none suffix, behind.next) else none
    | rest =>
      if endsWord rest then pure (WrittenTag.mk none ['!'], start.next)
      else do
        let (handle, behind) ←
          if hasNamedHandle rest then tagHandle start else pure (short, start.next)
        let (suffix, after) ← tagText minor behind
        pure (WrittenTag.mk (some handle) suffix, after)
  if endsItem after.rest then some (written, after) else none

/-- The suffix of a tag that has been read, with the percent signs decoded that are still in it:
each stands before the code of a character. -/
def decodedSuffix (suffix : List Char) : Result (List Char) :=
  match suffix with
  | [] => .ok []
  | '%' :: rest => do
    let code ← match Decimal.readIntIn? 16 (rest.take 2) with
      | some code => pure code
      | none => .error (.error (.integer 16 (rest.take 2)))
    let c ← charOfCode code
    return c :: (← decodedSuffix (rest.drop 2))
  | c :: rest => do return c :: (← decodedSuffix rest)
termination_by suffix.length
decreasing_by all_goals simp only [List.length_cons, List.length_drop]; omega

/-- A number of a version. -/
def versionNumber (cursor : Cursor) : Option (Nat × Cursor) := do
  let digits := cursor.span Char.isDigit
  if digits.isEmpty then none
  else return (← Text.decimalNumber? digits, cursor.skip digits.length)

/-- The content of a version directive. -/
def versionContent (cursor : Cursor) : Option (DocumentDirective × Cursor) := do
  let (major, behind) ← versionNumber (cursor.skipWhile (· == ' '))
  if behind.rest.head? == some '.' then
    let (minor, after) ← versionNumber behind.next
    if endsItem after.rest then return (.version major minor, after) else none
  else none

/-- The content of a tag directive. -/
def tagContent (minor : Nat) (cursor : Cursor) : Option (DocumentDirective × Cursor) := do
  let (handle, behind) ← tagHandle (cursor.skipWhile (· == ' '))
  if behind.rest.head? == some ' ' then
    let (expansion, after) ← tagText minor (behind.skipWhile (· == ' '))
    if endsItem after.rest then return (.tag handle expansion, after) else none
  else none

/-- The directive from behind its percent sign, and the place on the next line. -/
def documentDirective (minor : Nat) (cursor : Cursor) : Option (DocumentDirective × Cursor) := do
  let name := cursor.span isDirectiveNameChar
  let behind := cursor.skip name.length
  if name.isEmpty || !endsItem behind.rest then none
  else
    let (content, after) ←
      if name == "YAML".toList then versionContent behind
      else if name == "TAG".toList then tagContent minor behind
      else pure (DocumentDirective.other, behind.skipLine)
    return (content, ← after.nextLine?)

end Transclude.Yaml
