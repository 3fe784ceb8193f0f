import Transclude.Yaml.Scalar
import Transclude.Yaml.Tag

/-! # Tokens of a YAML text

The lexer goes through a text once. Indentation opens and closes blocks. What
may be a key is remembered with its place, since only the colon behind it tells
that it is one; the key token is then put before it. A key stands on one line
and is at most 1024 characters long. A text may turn out not to be YAML behind
some tokens, so that these come with the problem that ends them. -/

namespace Transclude.Yaml

/-- The brackets that the lexer is in. -/
inductive FlowKind
  | sequence
  | mapping
deriving DecidableEq, Repr

/-- A token that may turn out to be the beginning of a key: the number of tokens before it and its
place. A required one must be a key, as it begins a line of a block. -/
structure PossibleKey where
  number : Nat
  required : Bool
  index : Nat
  line : Nat
  column : Nat
deriving Repr

/-- The state of the lexer. `reversed` holds the tokens so far, last first, and `count` how many
they are. `indent` is one more than the column of the innermost block, zero outside, and `outer`
holds the same for the blocks around it. `keys` holds the possible keys by the depth of brackets,
and `minor` is the minor number of the version of YAML. -/
structure LexerState where
  cursor : Cursor
  reversed : List Token
  count : Nat
  indent : Nat
  outer : List Nat
  flow : List FlowKind
  keysAllowed : Bool
  keys : List (Nat × PossibleKey)
  minor : Nat

namespace LexerState

/-- The minor number of the version of texts that name none. -/
def standardMinor : Nat := 2

/-- The state at the beginning of a text. -/
def start (text : List Char) : LexerState :=
  let cursor := Cursor.start text
  { cursor := if text.head? == some byteOrderMark then cursor.next else cursor
    reversed := [], count := 0, indent := 0, outer := [], flow := [], keysAllowed := true,
    keys := [], minor := standardMinor }

/-- Whether the lexer is inside brackets. -/
def inFlow (s : LexerState) : Bool := !s.flow.isEmpty

/-- The state with one more token. -/
def push (s : LexerState) (token : Token) : LexerState :=
  { s with reversed := token :: s.reversed, count := s.count + 1 }

/-- The state with a token put before the one of a number. -/
def insertAt (s : LexerState) (number : Nat) (token : Token) : LexerState :=
  let later := s.count - number
  { s with
    reversed := s.reversed.take later ++ token :: s.reversed.drop later
    count := s.count + 1 }

/-- The state behind a token of the given length. -/
def pushOver (s : LexerState) (length : Nat) (token : Token) : LexerState :=
  { s.push token with cursor := s.cursor.skip length }

/-- The state with keys allowed or not. -/
def allowKeys (s : LexerState) (allowed : Bool) : LexerState := { s with keysAllowed := allowed }

/-- Whether a possible key can no longer be one. -/
def isStale (s : LexerState) (key : PossibleKey) : Bool :=
  key.line != s.cursor.line || key.index + 1024 < s.cursor.index

/-- The state without the keys that can no longer be ones; no required one may be among them. -/
def dropStaleKeys (s : LexerState) : Result LexerState :=
  if s.keys.any fun entry => s.isStale entry.2 && entry.2.required then malformed
  else .ok { s with keys := s.keys.filter fun entry => !s.isStale entry.2 }

/-- The state without a possible key at the depth of brackets it is in; it may not be a required
one. -/
def dropKey (s : LexerState) : Result LexerState :=
  match s.keys.lookup s.flow.length with
  | some key =>
    if key.required then malformed
    else .ok { s with keys := s.keys.filter fun entry => entry.1 != s.flow.length }
  | none => .ok s

/-- The state that remembers the next token as a possible key, if keys are allowed. -/
def rememberKey (s : LexerState) : Result LexerState :=
  if s.keysAllowed then do
    let required := !s.inFlow && s.indent = s.cursor.column + 1
    let key := PossibleKey.mk s.count required s.cursor.index s.cursor.line s.cursor.column
    let cleared ← s.dropKey
    return { cleared with keys := (s.flow.length, key) :: cleared.keys }
  else .ok s

/-- The state with the blocks closed that are indented more than the given amount. Brackets have no
indentation. -/
def closeBlocks (s : LexerState) (indent : Nat) : LexerState :=
  if s.inFlow then s
  else
    let closed := (s.indent :: s.outer).takeWhile (indent < ·)
    match (s.indent :: s.outer).drop closed.length with
    | [] => s
    | innermost :: outer =>
      { s with
        reversed := List.replicate closed.length .blockEnd ++ s.reversed
        count := s.count + closed.length
        indent := innermost
        outer := outer }

/-- The state inside a block that begins at a column, and whether the block is new. -/
def openBlock (s : LexerState) (column : Nat) : LexerState × Bool :=
  if s.indent < column + 1 then
    ({ s with indent := column + 1, outer := s.indent :: s.outer }, true)
  else (s, false)

/-- The state with a token for a new block at the current column, unless the block is open. -/
def pushBlock (s : LexerState) (token : Token) : LexerState :=
  let (opened, isNew) := s.openBlock s.cursor.column
  if isNew then opened.push token else opened

/-- The place of the next token. A break outside brackets allows a key. -/
def skipToToken : Nat → LexerState → LexerState
  | 0, s => s
  | fuel + 1, s =>
    let spaces := s.cursor.skipWhile fun c => c == ' ' || (s.inFlow && c == '\t')
    let after := spaces.skipComment
    if startsBreak after.rest then
      skipToToken fuel { s with cursor := after.next, keysAllowed := s.keysAllowed || !s.inFlow }
    else { s with cursor := after }

/-- A mark between documents. It closes all blocks, and no key may follow it. -/
def documentMark (s : LexerState) (length : Nat) (token : Token) : Result LexerState := do
  return ((← (s.closeBlocks 0).dropKey).allowKeys false).pushOver length token

/-- A directive. One that gives the version counts at once. -/
def directive (s : LexerState) : Result LexerState := do
  let cleared ← (s.closeBlocks 0).dropKey
  let (content, after) ← wellFormed (documentDirective cleared.minor cleared.cursor.next)
  let minor := match content with
    | .version _ minor => minor
    | _ => cleared.minor
  return { (cleared.allowKeys false).push (.directive content) with
    cursor := after, minor := minor }

/-- An opening bracket, which may begin a key and after which keys are allowed. -/
def openFlow (s : LexerState) (kind : FlowKind) (token : Token) : Result LexerState := do
  let remembered ← s.rememberKey
  let inside := { remembered with flow := kind :: remembered.flow }
  return (inside.allowKeys true).pushOver 1 token

/-- A closing bracket. -/
def closeFlow (s : LexerState) (token : Token) : Result LexerState := do
  let cleared ← s.dropKey
  let outside := { cleared with flow := cleared.flow.drop 1 }
  return (outside.allowKeys false).pushOver 1 token

/-- A comma between brackets. -/
def flowEntry (s : LexerState) : Result LexerState := do
  return ((← s.dropKey).allowKeys true).pushOver 1 .flowEntry

/-- The hyphen of an item of a block, which may stand only where a key may. -/
def blockEntry (s : LexerState) : Result LexerState :=
  if s.inFlow then do return ((← s.dropKey).allowKeys true).pushOver 1 .blockEntry
  else if s.keysAllowed then do
    return ((← (s.pushBlock .blockSequenceStart).dropKey).allowKeys true).pushOver 1 .blockEntry
  else malformed

/-- The question mark before a key. -/
def explicitKey (s : LexerState) : Result LexerState :=
  if s.inFlow then do return ((← s.dropKey).allowKeys false).pushOver 1 .key
  else if s.keysAllowed then do
    return ((← (s.pushBlock .blockMappingStart).dropKey).allowKeys true).pushOver 1 .key
  else malformed

/-- The colon behind a key that begins with a token, which gets its key token now. -/
def valueOfKey (s : LexerState) (key : PossibleKey) : LexerState :=
  let others := s.keys.filter fun entry => entry.1 != s.flow.length
  let keyed := { s with keys := others }.insertAt key.number .key
  let opened :=
    if keyed.inFlow then keyed
    else
      let (inside, isNew) := keyed.openBlock key.column
      if isNew then inside.insertAt key.number .blockMappingStart else inside
  (opened.allowKeys false).pushOver 1 .value

/-- The colon before a value. Without a key before it on its line it belongs to a key with a
question mark, or to none. -/
def value (s : LexerState) : Result LexerState :=
  match s.keys.lookup s.flow.length with
  | some key => .ok (s.valueOfKey key)
  | none =>
    if s.inFlow then do return ((← s.dropKey).allowKeys false).pushOver 1 .value
    else if s.keysAllowed then do
      return ((← (s.pushBlock .blockMappingStart).dropKey).allowKeys true).pushOver 1 .value
    else malformed

/-- A token that may be a key, read from the place of the lexer. -/
def keyToken (s : LexerState) (read : Cursor → Result (Token × Cursor)) : Result LexerState := do
  let remembered ← s.rememberKey
  let (token, after) ← read s.cursor
  return { (remembered.allowKeys false).push token with cursor := after }

/-- A block scalar, behind which a key is allowed. -/
def blockScalar (s : LexerState) (folded : Bool) : Result LexerState := do
  let cleared ← s.dropKey
  let (text, after) ← wellFormed (blockText folded s.indent s.cursor.next)
  return { (cleared.allowKeys true).push (.scalar text false) with cursor := after }

/-- A quoted scalar. -/
def quoted (s : LexerState) (double : Bool) : Result LexerState :=
  s.keyToken fun cursor => do
    let (text, after) ← quotedText double (cursor.rest.length + 1) cursor.next
    return (.scalar text false, after)

/-- A plain scalar. A key is allowed behind it when a break follows. -/
def plain (s : LexerState) : Result LexerState := do
  let remembered ← s.rememberKey
  let (text, after, crossesLine) :=
    plainText ⟨s.inFlow, s.minor⟩ s.indent (s.cursor.rest.length + 1) s.cursor
  return { (remembered.allowKeys crossesLine).push (.scalar text true) with cursor := after }

/-- Whether a colon here comes before a value. Behind a key in braces no space is needed, unless the
last of the tokens that wait for a possible key, `waiting`, is itself a colon. In version 1.1 none
is needed inside brackets. -/
def isValue (s : LexerState) (waiting : Bool) (following : List Char) : Bool :=
  if s.minor == 1 && s.inFlow then true
  else match s.flow with
  | .mapping :: _ => !(waiting && s.reversed.head? == some .value) || endsWord following
  | _ => endsWord following

/-- Whether a plain scalar begins with a character, given what follows it. -/
def startsPlain (place : PlainPlace) (c : Char) (following : List Char) : Bool :=
  if c == '-' then !endsWord following
  else if c == ':' && place.inFlow then place.minor != 1 && !startsSpace following
  else if c == ':' || c == '?' then !place.inFlow && !endsWord following
  else !(endsItem [c] || "\t,[]\x7b\x7d#&*!|>'\"%@`".toList.contains c)

/-- The state behind a token that begins with a character of its own. -/
def indicatorToken (s : LexerState) (c : Char) (waiting : Bool) (rest : List Char) :
    Result LexerState :=
  if c == '[' then s.openFlow .sequence .flowSequenceStart
  else if c == '\x7b' then s.openFlow .mapping .flowMappingStart
  else if c == ']' then s.closeFlow .flowSequenceEnd
  else if c == '\x7d' then s.closeFlow .flowMappingEnd
  else if c == ',' then s.flowEntry
  else if c == '-' && endsWord rest then s.blockEntry
  else if c == '?' && (s.inFlow || endsWord rest) then s.explicitKey
  else if c == ':' && s.isValue waiting rest then s.value
  else if c == '*' then s.keyToken fun cursor => do
    let (name, after) ← wellFormed (anchorName cursor.next)
    return (.alias name, after)
  else if c == '&' then s.keyToken fun cursor => do
    let (name, after) ← wellFormed (anchorName cursor.next)
    return (.anchor name, after)
  else if c == '!' then s.keyToken fun cursor => do
    let (written, after) ← wellFormed (writtenTag s.minor cursor)
    return (.tag written, after)
  else if c == '|' && !s.inFlow then s.blockScalar false
  else if c == '>' && !s.inFlow then s.blockScalar true
  else if c == '\'' then s.quoted false
  else if c == '"' then s.quoted true
  else if startsPlain ⟨s.inFlow, s.minor⟩ c rest then s.plain
  else malformed

/-- The state behind the next token, provided that one begins there. -/
def token (s : LexerState) (waiting : Bool) : Result LexerState :=
  match s.cursor.rest with
  | [] => malformed
  | c :: rest =>
    if s.cursor.column = 0 && c == '%' then s.directive
    else if s.cursor.column = 0 && startsMark documentStartMark s.cursor.rest then
      s.documentMark documentStartMark.length .documentStart
    else if s.cursor.column = 0 && startsMark documentEndMark s.cursor.rest then
      s.documentMark documentEndMark.length .documentEnd
    else s.indicatorToken c waiting rest

/-- The state behind the next token, or at the end of the text, where all blocks are closed; and
whether it is the end. -/
def step (s : LexerState) : Result (LexerState × Bool) := do
  let waiting := !s.keys.isEmpty
  let s ← (skipToToken (s.cursor.rest.length + 1) s).dropStaleKeys
  let s := s.closeBlocks (s.cursor.column + 1)
  if s.cursor.rest.isEmpty then return (← (s.closeBlocks 0).dropKey, true)
  else return (← (← s.token waiting).dropStaleKeys, false)

/-- The tokens that are known to be complete: those before the first possible key. -/
def settled (s : LexerState) : List Token :=
  s.reversed.reverse.take (s.keys.foldl (fun count entry => min count entry.2.number) s.count)

end LexerState

/-- Some tokens, and the problem that ends them unless they reach the end of their text. -/
structure TokenStream where
  tokens : List Token
  problem : Option (Halt Problem)

/-- The tokens from a state on, together with those before it. The first argument bounds the number
of steps. -/
def LexerState.stream : Nat → LexerState → TokenStream
  | 0, s => ⟨s.reversed.reverse, some (.error .malformed)⟩
  | fuel + 1, s =>
    match s.step with
    | .error reason => ⟨s.settled, some reason⟩
    | .ok (after, true) => ⟨after.reversed.reverse, none⟩
    | .ok (after, false) => after.stream fuel

/-- Whether the character may stand in a YAML text. -/
def isAllowed (c : Char) : Bool :=
  c == '\t' || c == '\n' || (' ' ≤ c && c ≤ '~') || c == nextLine ||
    (Char.ofNat 0xa0 ≤ c && c.toNat ≠ 0xfffe && c.toNat ≠ 0xffff)

/-- The tokens of a text. -/
def tokenize (text : List Char) : TokenStream :=
  if text.all isAllowed then LexerState.stream (text.length + 2) (.start text)
  else ⟨[], some (.error .malformed)⟩

end Transclude.Yaml
