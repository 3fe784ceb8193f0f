import Transclude.Yaml.Lexer
import Transclude.Yaml.Node

/-! # Documents of YAML

The tokens of a stream tell the nodes of its only document. Where a node may be
missing, as behind a colon, it counts as an empty plain scalar. A node has its
number before its parts, so that these can refer to it. -/

namespace Transclude.Yaml

/-- A document: its nodes, the minor number of its version, and the number of the outermost node. -/
structure Document where
  graph : Graph
  minor : Nat
  root : NodeId

namespace Document

/-- What is left to read: the tokens and the problem behind them, the anchors so far, the handles of
tags, the minor number of the version, and the nodes so far. -/
structure Source where
  tokens : List Token
  problem : Option (Halt Problem)
  anchors : List (List Char × NodeId)
  handles : List (List Char × List Char)
  minor : Nat
  graph : Graph

/-- A reader of nodes. -/
abbrev Reader := StateT Source (Except (Halt Problem))

/-- The reader that finds its text malformed. -/
def refuse {α : Type} : Reader α := throw (.error .malformed)

/-- The next token, absent at the end of the text. -/
def peek : Reader (Option Token) := do
  let source ← get
  match source.tokens, source.problem with
  | token :: _, _ => return some token
  | [], some reason => throw reason
  | [], none => return none

/-- Whether the next token is one of some. -/
def nextIs (tokens : List Token) : Reader Bool := do
  match ← peek with
  | some token => return tokens.contains token
  | none => return false

/-- Leaves the next token behind. -/
def advance : Reader Unit := modify fun source => { source with tokens := source.tokens.drop 1 }

/-- Leaves a token behind if it is the next one, and says whether it was. -/
def accept (token : Token) : Reader Bool := do
  if ← nextIs [token] then
    advance
    return true
  return false

/-- Leaves a token behind that must be the next one. -/
def expect (token : Token) : Reader Unit := do
  if ← accept token then return () else refuse

/-- What is known of a node before its content. A tag that is a lone exclamation mark names no kind,
but a scalar with it is read as if it were plain. -/
structure Head where
  anchor : Option (List Char)
  tag : Option (List Char)
  isLone : Bool

namespace Head

/-- The head of a node with nothing before its content. -/
def bare : Head := ⟨none, none, false⟩

/-- Whether there is anything before the content. -/
def isWritten (head : Head) : Bool := head.anchor.isSome || head.tag.isSome || head.isLone

end Head

/-- The anchor that stands here, if any. -/
def anchorHere : Reader (Option (List Char)) := do
  match ← peek with
  | some (.anchor name) =>
    advance
    return some name
  | _ => return none

/-- The tag that stands here, if any. -/
def tagHere : Reader (Option WrittenTag) := do
  match ← peek with
  | some (.tag written) =>
    advance
    return some written
  | _ => return none

/-- The anchor and the tag of a node, in either order. -/
def properties : Reader (Option (List Char) × Option WrittenTag) := do
  match ← anchorHere with
  | some name => return (some name, ← tagHere)
  | none =>
    let tag ← tagHere
    if tag.isSome then return (← anchorHere, tag)
    return (none, none)

/-- The full name of a tag. Its handle must be known. -/
def fullName (written : WrittenTag) : Reader (List Char) := do
  match written.handle with
  | none => decodedSuffix written.suffix
  | some handle =>
    match (← get).handles.lookup handle with
    | some expansion => return expansion ++ (← decodedSuffix written.suffix)
    | none => refuse

/-- The head of the node that begins here. -/
def head : Reader Head := do
  let (anchor, tag) ← properties
  let name ← tag.mapM fullName
  if name == some ['!'] then return ⟨anchor, none, true⟩
  return ⟨anchor, name, false⟩

/-- The node of an alias. -/
def aliased (name : List Char) : Reader NodeId := do
  match (← get).anchors.lookup name with
  | some id => return id
  | none => refuse

/-- The number of a node that begins here, to which its anchor refers from now on. -/
def begin (head : Head) : Reader NodeId :=
  modifyGet fun source =>
    let id := source.graph.size
    (id, { source with
      graph := source.graph.push default
      anchors := (head.anchor.map fun name => (name, id)).toList ++ source.anchors })

/-- Gives a node that has begun its kind and form. -/
def finish (id : NodeId) (kind : Option Kind) (form : Form) : Reader NodeId := do
  modify fun source => { source with graph := source.graph.replace id ⟨kind, form, []⟩ }
  return id

/-- A scalar. One without a tag has a kind by its text if it is plain. -/
def scalar (head : Head) (text : List Char) (plain : Bool) : Reader NodeId := do
  let kind ← match head.tag with
    | some name => pure (kindOfTag? name)
    | none =>
      if plain || head.isLone then some <$> kindOfPlain (← get).minor text
      else pure (some .str)
  finish (← begin head) kind (.scalar text)

/-- The node that stands where none is written. -/
def emptyNode : Reader NodeId := scalar .bare [] true

/-- An empty scalar, where the content of a node may be missing: behind an anchor or a tag. -/
def missing (head : Head) : Reader NodeId :=
  if head.isWritten then scalar head [] true else refuse

/-- A sequence, given a reader of its items. -/
def sequence (head : Head) (items : Reader (List NodeId)) : Reader NodeId := do
  let id ← begin head
  finish id (head.tag.elim (some .sequence) kindOfTag?) (.sequence (← items))

/-- A mapping, given a reader of its entries. -/
def mapping (head : Head) (entries : Reader (List NodeEntry)) : Reader NodeId := do
  let id ← begin head
  finish id (head.tag.elim (some .mapping) kindOfTag?) (.mapping (← entries))

/-- A reader of what may be missing: it is when one of some tokens follows. -/
def unlessNext (tokens : List Token) (reader : Reader NodeId) : Reader NodeId := do
  if ← nextIs tokens then emptyNode else reader

/-- The value of an entry, missing when no colon or one of some tokens follows. -/
def valueUnless (tokens : List Token) (reader : Reader NodeId) : Reader NodeId := do
  if ← accept .value then unlessNext tokens reader else emptyNode

/-- Whether the key of an entry is left out before its colon, which version 1.1 does not know. -/
def omitsKey : Reader Bool := do
  if 1 < (← get).minor then nextIs [.value] else return false

/-- Where a node stands: which kinds of blocks may begin there. -/
inductive Position
  | inBrackets
  | inBlock
  /-- In a mapping, where the hyphens of a sequence may stand without indentation. -/
  | inEntry
deriving DecidableEq

mutual

/-- The node that begins here. The first argument bounds the number of steps. -/
def nodeHere : Nat → Position → Reader NodeId
  | 0, _ => refuse
  | fuel + 1, position => do
    if let some (.alias name) ← peek then
      advance
      return ← aliased name
    content fuel position (← head)

/-- A node with a head, from its content on. -/
def content : Nat → Position → Head → Reader NodeId
  | 0, _, _ => refuse
  | fuel + 1, position, head => do
    match ← peek with
    | some (.scalar text plain) =>
      advance
      scalar head text plain
    | some .flowSequenceStart =>
      advance
      sequence head (flowItems fuel true)
    | some .flowMappingStart =>
      advance
      mapping head (flowEntries fuel true)
    | some .blockSequenceStart =>
      if position = .inBrackets then missing head
      else
        advance
        sequence head (blockItems fuel)
    | some .blockMappingStart =>
      if position = .inBrackets then missing head
      else
        advance
        mapping head (blockEntries fuel)
    | some .blockEntry =>
      if position = .inEntry then sequence head (hyphenItems fuel) else missing head
    | _ => missing head

/-- The items of a sequence in a block of its own. -/
def blockItems : Nat → Reader (List NodeId)
  | 0 => refuse
  | fuel + 1 => do
    if ← accept .blockEntry then
      let item ← unlessNext [.blockEntry, .blockEnd] (nodeHere fuel .inBlock)
      return item :: (← blockItems fuel)
    expect .blockEnd
    return []

/-- The items of a sequence in the block of the mapping around it. -/
def hyphenItems : Nat → Reader (List NodeId)
  | 0 => refuse
  | fuel + 1 => do
    if ← accept .blockEntry then
      let item ← unlessNext [.blockEntry, .key, .value, .blockEnd] (nodeHere fuel .inBlock)
      return item :: (← hyphenItems fuel)
    return []

/-- The entries of a mapping in a block. -/
def blockEntries : Nat → Reader (List NodeEntry)
  | 0 => refuse
  | fuel + 1 => do
    let ends : List Token := [.key, .value, .blockEnd]
    if ← accept .key then
      let key ← unlessNext ends (nodeHere fuel .inEntry)
      let value ← valueUnless ends (nodeHere fuel .inEntry)
      return (key, value) :: (← blockEntries fuel)
    if ← omitsKey then
      let key ← emptyNode
      let value ← valueUnless ends (nodeHere fuel .inEntry)
      return (key, value) :: (← blockEntries fuel)
    expect .blockEnd
    return []

/-- The items of a sequence in brackets. An item with a colon is a mapping of one entry. -/
def flowItems : Nat → Bool → Reader (List NodeId)
  | 0, _ => refuse
  | fuel + 1, isFirst => do
    if ← accept .flowSequenceEnd then return []
    if !isFirst then
      expect .flowEntry
      if ← accept .flowSequenceEnd then return []
    let ends : List Token := [.flowEntry, .flowSequenceEnd]
    if ← accept .key then
      let item ← mapping .bare do
        let key ← unlessNext (.value :: ends) (nodeHere fuel .inBrackets)
        let value ← valueUnless ends (nodeHere fuel .inBrackets)
        return [(key, value)]
      return item :: (← flowItems fuel false)
    let item ← nodeHere fuel .inBrackets
    return item :: (← flowItems fuel false)

/-- The entries of a mapping in braces. -/
def flowEntries : Nat → Bool → Reader (List NodeEntry)
  | 0, _ => refuse
  | fuel + 1, isFirst => do
    if ← accept .flowMappingEnd then return []
    if !isFirst then
      expect .flowEntry
      if ← accept .flowMappingEnd then return []
    let ends : List Token := [.flowEntry, .flowMappingEnd]
    if ← accept .key then
      let key ← unlessNext (.value :: ends) (nodeHere fuel .inBrackets)
      let value ← valueUnless ends (nodeHere fuel .inBrackets)
      return (key, value) :: (← flowEntries fuel false)
    if ← omitsKey then
      let key ← emptyNode
      let value ← valueUnless ends (nodeHere fuel .inBrackets)
      return (key, value) :: (← flowEntries fuel false)
    let key ← nodeHere fuel .inBrackets
    let value ← emptyNode
    return (key, value) :: (← flowEntries fuel false)

end

/-- The handles of tags that need no directive. -/
def standardHandles : List (List Char × List Char) :=
  [("!".toList, "!".toList), ("!!".toList, kindSpace)]

/-- Reads the directives before a document; `versioned` says that one has given the version. -/
def directives : Nat → Bool → Reader Unit
  | 0, _ => refuse
  | fuel + 1, versioned => do
    match ← peek with
    | some (.directive written) =>
      advance
      match written with
      | .version major minor =>
        if versioned || major ≠ 1 then refuse
        modify fun source => { source with minor := minor }
        directives fuel true
      | .tag handle expansion =>
        if (← get).handles.any fun known => known.1 == handle then refuse
        modify fun source => { source with handles := (handle, expansion) :: source.handles }
        directives fuel versioned
      | .other => directives fuel versioned
    | _ => return ()

/-- The only document of a stream; absent when the stream is empty. -/
def document (fuel : Nat) : Reader (Option NodeId) := do
  match ← peek with
  | none => return none
  | some (.directive _) | some .documentStart =>
    directives fuel false
    expect .documentStart
    modify fun source => { source with handles := source.handles ++ standardHandles }
    match ← peek with
    | none | some .documentEnd | some .documentStart | some (.directive _) => some <$> emptyNode
    | some _ => some <$> nodeHere fuel .inBlock
  | some _ =>
    modify fun source => { source with handles := standardHandles }
    some <$> nodeHere fuel .inBlock

/-- Leaves the mark behind the document; version 1.1 allows several. -/
def documentEnds : Nat → Reader Unit
  | 0 => return ()
  | fuel + 1 => do
    if ← accept .documentEnd then
      if (← get).minor = 1 then documentEnds fuel

/-- The whole stream: at most one document, and the mark of its end. -/
def stream (fuel : Nat) : Reader (Option NodeId) := do
  let root ← document fuel
  documentEnds fuel
  match ← peek with
  | none => return root
  | some _ => refuse

/-- The document of a stream of tokens, absent when the stream is empty. -/
def ofTokens? (tokens : TokenStream) : Result (Option Document) := do
  let fuel := 3 * tokens.tokens.length + 3
  let start : Source :=
    ⟨tokens.tokens, tokens.problem, [], [], LexerState.standardMinor, .empty⟩
  let (root, source) ← (stream fuel).run start
  return root.map fun root => ⟨source.graph, source.minor, root⟩

end Document

end Transclude.Yaml
