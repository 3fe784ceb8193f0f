import Transclude.Yaml.Schema

/-! # Nodes of YAML

The nodes of a document are numbered in the order in which they begin, and refer
to each other by these numbers. An alias is one more reference to the node that
carries its anchor, so that a node may even refer to itself. -/

namespace Transclude.Yaml

/-- The number of a node. -/
abbrev NodeId := Nat

/-- A key and its value. -/
abbrev NodeEntry := NodeId × NodeId

/-- What a node consists of. -/
inductive Form
  | scalar (text : List Char)
  | sequence (items : List NodeId)
  | mapping (entries : List NodeEntry)
deriving Repr, Inhabited

/-- A node. Its kind is absent when its tag is unknown. `merged` holds the entries that a mapping
has taken from others. -/
structure Node where
  kind : Option Kind
  form : Form
  merged : List NodeEntry
deriving Repr, Inhabited

/-- The nodes of a document by their numbers. -/
structure Graph where
  nodes : Array Node
deriving Repr, Inhabited

namespace Graph

/-- The graph without nodes. -/
def empty : Graph := ⟨#[]⟩

/-- The number of nodes. -/
def size (graph : Graph) : Nat := graph.nodes.size

/-- The node of a number. -/
def node (graph : Graph) (id : NodeId) : Node := graph.nodes.getD id default

/-- The kind of a node. -/
def kind? (graph : Graph) (id : NodeId) : Option Kind := (graph.node id).kind

/-- The graph with one more node, which gets the next number. -/
def push (graph : Graph) (node : Node) : Graph := ⟨graph.nodes.push node⟩

/-- The graph with another node for a number. -/
def replace (graph : Graph) (id : NodeId) (node : Node) : Graph :=
  ⟨graph.nodes.setIfInBounds id node⟩

/-- The number of entries of all mappings. -/
def entryCount (graph : Graph) : Nat :=
  graph.nodes.foldl (fun count node =>
    match node.form with
    | .mapping entries => count + entries.length
    | _ => count) 0

end Graph

end Transclude.Yaml
