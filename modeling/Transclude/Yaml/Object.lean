import Transclude.Yaml.Document

/-! # The objects of a YAML document

Each node of a document becomes one object: a scalar, or a list, set or mapping,
to which all references to the node lead. Lists, sets and mappings are made
empty and filled later, in the order in which they were made; only the keys of
mappings are filled at once. A mapping may take entries from others by the key
`<<`; its own entries win over these. Without such a key no two of its keys may
be the same. -/

namespace Transclude.Yaml

/-- A part of an object: a scalar, a tuple of parts, or the list, set or mapping of a node. -/
inductive Part
  | scalar (s : Scalar)
  | tuple (items : List Part)
  | object (id : NodeId)
deriving Repr, Inhabited

/-- What a list, set or mapping holds. -/
inductive Holding
  | list (items : List Part)
  | set (members : List Key)
  | map (ordered : Bool) (entries : List (Key × Part))
deriving Repr, Inhabited

/-- The objects made so far: the graph, which changes where mappings take entries, the part of each
node, what the lists, sets and mappings hold, and those that are yet to be filled, the last one
first. A node that is `unfinished` is being made. -/
structure Workshop where
  graph : Graph
  minor : Nat
  parts : Array (Option Part)
  holdings : Array Holding
  waiting : List NodeId
  unfinished : List NodeId

namespace Workshop

/-- The workshop for a document. -/
def ofDocument (document : Document) : Workshop :=
  let size := document.graph.size
  ⟨document.graph, document.minor, Array.replicate size none, Array.replicate size (.list []),
    [], []⟩

/-- What an object holds. -/
def holding (shop : Workshop) (id : NodeId) : Holding := shop.holdings.getD id (.list [])

end Workshop

/-- A maker of objects. -/
abbrev Maker := StateT Workshop (Except (Halt Problem))

namespace Maker

/-- The maker that finds its document malformed. -/
def refuse {α : Type} : Maker α := throw (.error .malformed)

/-- The node of a number. -/
def nodeAt (id : NodeId) : Maker Node := return (← get).graph.node id

/-- Replaces a node by what becomes of it. -/
def changeNode (id : NodeId) (change : Node → Node) : Maker Unit :=
  modify fun shop => { shop with graph := shop.graph.replace id (change (shop.graph.node id)) }

/-- Says what an object holds. -/
def hold (id : NodeId) (holding : Holding) : Maker Unit :=
  modify fun shop => { shop with holdings := shop.holdings.setIfInBounds id holding }

/-! ### Entries taken from other mappings -/

/-- The entries before the first key that takes entries, what they are taken from, and the entries
behind it. -/
def splitAtMerge (graph : Graph) :
    List NodeEntry → Option (List NodeEntry × NodeId × List NodeEntry)
  | [] => none
  | (key, value) :: rest =>
    if graph.kind? key == some .merge then some ([], value, rest)
    else (splitAtMerge graph rest).map fun (before, source, behind) =>
      ((key, value) :: before, source, behind)

/-- The entries of a mapping. -/
def entriesOf (id : NodeId) : Maker (List NodeEntry) := do
  match (← nodeAt id).form with
  | .mapping entries => return entries
  | _ => refuse

/-- The mappings that entries are taken from, the strongest one first: a mapping, or those of a
sequence. -/
def mergeSources (id : NodeId) : Maker (List NodeId) := do
  match (← nodeAt id).form with
  | .mapping _ => return [id]
  | .sequence items => return items
  | .scalar _ => refuse

/-- Makes the scalar `=`, used as a key, a text. -/
def plainKey (id : NodeId) : Maker Unit :=
  changeNode id fun node =>
    if node.kind == some .defaultKey then { node with kind := some .str } else node

mutual

/-- Puts the entries that a mapping takes from others before its own. -/
def flatten : Nat → NodeId → Maker Unit
  | 0, _ => refuse
  | fuel + 1, id => do
    let merged ← takeMerged fuel id []
    let entries ← entriesOf id
    entries.forM fun entry => plainKey entry.1
    if !merged.isEmpty then
      changeNode id fun node =>
        { node with form := .mapping (merged ++ entries), merged := merged }

/-- Removes the keys of a mapping that take entries, and gives these entries, together with those
taken before. Only one such key may lead to entries. -/
def takeMerged : Nat → NodeId → List NodeEntry → Maker (List NodeEntry)
  | 0, _, _ => refuse
  | fuel + 1, id, merged => do
    match splitAtMerge (← get).graph (← entriesOf id) with
    | none => return merged
    | some (before, source, behind) =>
      if !merged.isEmpty then refuse
      changeNode id fun node => { node with form := .mapping (before ++ behind) }
      let taken ← (← mergeSources source).mapM fun mapping => do
        flatten fuel mapping
        entriesOf mapping
      takeMerged fuel id taken.reverse.flatten

end

/-! ### Making objects -/

/-- The text of a scalar, or of the value that a mapping has at the scalar `=`. -/
def scalarText : Nat → NodeId → Maker (List Char)
  | 0, _ => throw (.fault .circular)
  | fuel + 1, id => do
    match (← nodeAt id).form with
    | .scalar text => return text
    | .sequence _ => refuse
    | .mapping entries =>
      let graph := (← get).graph
      match entries.find? fun entry => graph.kind? entry.1 == some .defaultKey with
      | some (_, value) => scalarText fuel value
      | none => refuse

/-- The value of a scalar of a kind. -/
def scalarValue (kind : Kind) (id : NodeId) : Maker Scalar := do
  let minor := (← get).minor
  if kind = .timestamp then
    match (← nodeAt id).form with
    | .scalar text => Timestamp.value text
    | _ => refuse
  else
    let text ← scalarText ((← get).graph.size + 1) id
    match kind with
    | .null => return .null
    | .bool => return .bool (← truthValue text)
    | .int => return .number (.int (← integerValue minor text))
    | .float => return .number (.float (← floatValue minor [id] text))
    | .bytes => return .bytes (← wellFormed (Base64.decode text))
    | _ => return .str (String.ofList text)

/-- Tells the objects that are filled from those that are complete when they are made. -/
def emptyHolding? : Kind → Option Holding
  | .sequence | .pairs => some (.list [])
  | .mapping => some (.map false [])
  | .orderedMapping => some (.map true [])
  | .set => some (.set [])
  | _ => none

/-- The key that a part is, if it may be one. -/
def keyOf : Part → Option Key
  | .scalar s => some (.scalar s)
  | .tuple items => (keysOf items).map .sequence
  | .object _ => none
where
  /-- The keys that parts are. -/
  keysOf : List Part → Option (List Key)
    | [] => some []
    | part :: rest =>
      match keyOf part, keysOf rest with
      | some key, some keys => some (key :: keys)
      | _, _ => none

/-- The key that a part must be. -/
def requireKey (part : Part) : Maker Key :=
  match keyOf part with
  | some key => return key
  | none => throw (.fault .wrongType)

/-- A part that is used as a key. A list counts as the tuple of its items. -/
def asKey (part : Part) : Maker Part := do
  match part with
  | .object id =>
    match (← get).holding id with
    | .list items => return .tuple items
    | .set _ | .map _ _ => refuse
  | part => return part

/-- How the part of a node is made; its content may have to be complete at once. -/
abbrev Making := Bool → NodeId → Maker Part

/-- The entries with one more, whose key may be new. -/
def insertPart (key : Key) (value : Part) : List (Key × Part) → List (Key × Part)
  | [] => [(key, value)]
  | (k, v) :: rest =>
    if k.same key then (k, value) :: rest else (k, v) :: insertPart key value rest

/-- The entries of a mapping, inserted in turn; unless they may recur, their keys must differ. -/
def insertions (make : Making) (deep mayRecur : Bool) (made : List (Key × Part)) :
    List NodeEntry → Maker (List (Key × Part))
  | [] => return made
  | (key, value) :: rest => do
    let key ← asKey (← make true key)
    let value ← make deep value
    let key ← requireKey key
    if !mayRecur && made.any fun entry => entry.1.same key then refuse
    insertions make deep mayRecur (insertPart key value made) rest

/-- The entries of a mapping. -/
def mappingEntries (make : Making) (deep : Bool) (id : NodeId) : Maker (List (Key × Part)) := do
  let _ ← entriesOf id
  flatten (2 * (← get).graph.entryCount + 2) id
  let merged := (← nodeAt id).merged
  let entries ← entriesOf id
  insertions make deep (!merged.isEmpty) [] (merged ++ entries)

/-- The items of a sequence. -/
def itemsOf (id : NodeId) : Maker (List NodeId) := do
  match (← nodeAt id).form with
  | .sequence items => return items
  | _ => refuse

/-- The only entry of a mapping. -/
def soleEntry (id : NodeId) : Maker NodeEntry := do
  match ← entriesOf id with
  | [entry] => return entry
  | _ => refuse

/-- The pair of a mapping with one entry. -/
def pair (make : Making) (deep : Bool) (id : NodeId) : Maker Part := do
  let (key, value) ← soleEntry id
  return .tuple [← make deep key, ← make deep value]

/-- The entries of an ordered mapping, which is a sequence of mappings with one entry each. -/
def orderedEntries (make : Making) (deep : Bool) (made : List (Key × Part)) :
    List NodeId → Maker (List (Key × Part))
  | [] => return made
  | id :: rest => do
    let (key, value) ← soleEntry id
    let key ← requireKey (← make deep key)
    if made.any fun entry => entry.1.same key then throw (.fault .repeatedKey)
    let value ← make deep value
    orderedEntries make deep (insertPart key value made) rest

/-- A key that is a natural number. -/
def natural? : Key → Option Nat
  | .scalar (.number (.int n)) => if 0 ≤ n then some n.toNat else none
  | _ => none

/-- The members of a set in the order in which they are listed: natural numbers ascend. -/
def listed (members : List Key) : List Key :=
  if members.all fun key => (natural? key).isSome then
    members.mergeSort fun a b => (natural? a).getD 0 ≤ (natural? b).getD 0
  else members

/-- Fills the object of a node. -/
def fill (make : Making) (deep : Bool) (id : NodeId) : Maker Unit := do
  match (← nodeAt id).kind with
  | some .sequence => hold id (.list (← (← itemsOf id).mapM (make deep)))
  | some .pairs => hold id (.list (← (← itemsOf id).mapM (pair make deep)))
  | some .mapping => hold id (.map false (← mappingEntries make deep id))
  | some .orderedMapping => hold id (.map true (← orderedEntries make deep [] (← itemsOf id)))
  | some .set => hold id (.set (listed ((← mappingEntries make deep id).map (·.1))))
  | _ => return ()

/-- Begins the object of a node: a scalar is complete, others wait to be filled, or are filled at
once if they must be. -/
def beginObject (make : Making) (deep : Bool) (id : NodeId) : Maker Part := do
  match (← nodeAt id).kind with
  | none | some .merge | some .defaultKey | some .indicator => refuse
  | some kind =>
    match emptyHolding? kind with
    | none => return .scalar (← scalarValue kind id)
    | some holding =>
      hold id holding
      if deep then fill make true id
      else modify fun shop => { shop with waiting := id :: shop.waiting }
      return .object id

/-- The part of a node, made when it is needed first. A node that is needed while it is being made
is null there. The first argument bounds how many are being made. -/
def make : Nat → Making
  | 0, _, _ => refuse
  | fuel + 1, deep, id => do
    let shop ← get
    match shop.parts.getD id none with
    | some part => return part
    | none =>
      if shop.unfinished.contains id then return .scalar .null
      set { shop with unfinished := id :: shop.unfinished }
      let part ← beginObject (make fuel) deep id
      modify fun shop => { shop with
        parts := shop.parts.setIfInBounds id (some part)
        unfinished := shop.unfinished.erase id }
      return part

/-- Fills what is waiting, generation by generation. The first argument bounds their number. -/
def fillWaiting (make : Making) : Nat → Maker Unit
  | 0 => return ()
  | generations + 1 => do
    let waiting := (← get).waiting.reverse
    if !waiting.isEmpty then
      modify fun shop => { shop with waiting := [] }
      waiting.forM (fill make false)
      fillWaiting make generations

end Maker

/-! ### Objects as data -/

namespace Workshop

/-- A part as data, in which each object has the number of its node as its place. The first argument
bounds the depth. -/
def toDatum (shop : Workshop) : Nat → Part → Except Fault Datum
  | _, .scalar s => .ok (.scalar s)
  | 0, _ => .error .circular
  | fuel + 1, .tuple items => return .tuple (← items.mapM (shop.toDatum fuel))
  | fuel + 1, .object id =>
    match shop.holding id with
    | .list items => return .list (.ofPlace [id]) (← items.mapM (shop.toDatum fuel))
    | .set members => return .set members
    | .map ordered entries => do
      let entries ← entries.mapM fun (key, value) => return (key, ← shop.toDatum fuel value)
      return .map ⟨[id], ordered⟩ entries

end Workshop

/-- The data of a document. -/
def Document.toDatum (document : Document) : Result Datum := do
  let size := document.graph.size
  let make := Maker.make (size + 1)
  let (part, shop) ← (do
    let part ← make false document.root
    Maker.fillWaiting make (size + 1)
    return part : Maker Part).run (.ofDocument document)
  shop.toDatum (2 * size + 2) part

end Transclude.Yaml
