import Stratagem.Graph.Node

/-!
# Rule graphs

A `GraphDocument` lists nodes and wires as they are written down; a `RuleGraph` is a document that
is well formed: at most one Start node, and every wire runs between nodes of the graph, leaves
through a port of its source and arrives through a channel that its destination accepts.

* `GraphDocument.violation?` finds the first violation, in this order: the number of Start nodes;
  then, wire by wire, an unknown source, an unknown destination, the port, the channel.
* `GraphDocument.violation?_eq_none_iff`: there is none exactly if the document is well formed.
* `RuleGraph.outputs` lists the links of a port in wiring order, and `RuleGraph.toDocument` writes
  the wires node by node and port by port.
-/

namespace Stratagem

/-- Where a wire leads: a node, and the channel it arrives through. -/
structure Link where
  node : NodeId
  channel : Option Channel
deriving DecidableEq, Repr

/-- A wire from a port of one node to another node. -/
structure Wire where
  source : NodeId
  port : Port
  dest : NodeId
  channel : Option Channel
deriving DecidableEq, Repr

/-- The end of a wire. -/
def Wire.link (w : Wire) : Link := ⟨w.dest, w.channel⟩

/-- A graph as it is written down: the kinds of its nodes in order, and its wires. -/
structure GraphDocument where
  id : String
  nodes : List NodeKind
  wires : List Wire
deriving DecidableEq, Repr

/-- Why a document is no rule graph. -/
inductive GraphError
  | multipleStarts (rule : String) (count : Nat)
  | unknownNode (rule : String) (node : NodeId)
  | invalidPort (rule : String) (node : NodeId) (kind : NodeKind) (port : Port)
  | invalidChannel (rule : String) (node : NodeId) (kind : NodeKind) (channel : Option Channel)
deriving DecidableEq, Repr

namespace GraphError

/-- The way that a wire would have arrived by. -/
def wayText : Option Channel → String
  | some channel => "the " ++ channel.name ++ " channel"
  | none => "a role-less wire"

/-- The wording of a violation. -/
def message : GraphError → String
  | .multipleStarts rule count =>
    "rule '" ++ rule ++ "' has " ++ toString count ++ " Start nodes, expected one"
  | .unknownNode rule node =>
    "rule '" ++ rule ++ "' wires node " ++ node.label ++ ", which does not exist"
  | .invalidPort rule node kind port =>
    "rule '" ++ rule ++ "': " ++ kind.name ++ " node " ++ node.label ++ " has no '" ++ port.name
      ++ "' port"
  | .invalidChannel rule node kind channel =>
    "rule '" ++ rule ++ "': " ++ kind.name ++ " node " ++ node.label
      ++ " cannot be reached through " ++ wayText channel

end GraphError

namespace GraphDocument

/-! ## Well-formed documents -/

/-- The Start nodes, in order. -/
def starts (d : GraphDocument) : List NodeKind := d.nodes.filter (· = .start)

/-- A wire that fits the nodes of a document. -/
structure WireFits (d : GraphDocument) (w : Wire) : Prop where
  source : ∃ kind, d.nodes[w.source]? = some kind ∧ kind.hasPort w.port = true
  dest : ∃ kind, d.nodes[w.dest]? = some kind ∧ kind.accepts w.channel = true

/-- A document that describes a rule graph. -/
structure WellFormed (d : GraphDocument) : Prop where
  starts_le_one : d.starts.length ≤ 1
  wires_fit : ∀ w ∈ d.wires, d.WireFits w

/-- What is wrong with one wire. -/
def wireViolation? (d : GraphDocument) (w : Wire) : Option GraphError :=
  match d.nodes[w.source]?, d.nodes[w.dest]? with
  | none, _ => some (.unknownNode d.id w.source)
  | some _, none => some (.unknownNode d.id w.dest)
  | some source, some dest =>
    if source.hasPort w.port then
      if dest.accepts w.channel then none
      else some (.invalidChannel d.id w.dest dest w.channel)
    else some (.invalidPort d.id w.source source w.port)

/-- The first violation of a document. -/
def violation? (d : GraphDocument) : Option GraphError :=
  if 1 < d.starts.length then some (.multipleStarts d.id d.starts.length)
  else d.wires.findSome? d.wireViolation?

theorem wireViolation?_eq_none_iff (d : GraphDocument) (w : Wire) :
    d.wireViolation? w = none ↔ d.WireFits w := by
  unfold wireViolation?
  constructor
  · intro h
    split at h
    · exact absurd h (by simp)
    · exact absurd h (by simp)
    · next source dest hs hd =>
      split at h
      · next port =>
        split at h
        · next channel => exact ⟨⟨source, hs, port⟩, ⟨dest, hd, channel⟩⟩
        · exact absurd h (by simp)
      · exact absurd h (by simp)
  · rintro ⟨⟨source, hs, port⟩, ⟨dest, hd, channel⟩⟩
    simp [hs, hd, port, channel]

theorem violation?_eq_none_iff (d : GraphDocument) : d.violation? = none ↔ d.WellFormed := by
  unfold violation?
  split
  · next many => exact ⟨fun h => absurd h (by simp), fun h => absurd h.starts_le_one (by omega)⟩
  · next few =>
    rw [List.findSome?_eq_none_iff]
    exact ⟨fun h => ⟨by omega, fun w hw => (d.wireViolation?_eq_none_iff w).1 (h w hw)⟩,
      fun h w hw => (d.wireViolation?_eq_none_iff w).2 (h.wires_fit w hw)⟩

end GraphDocument

/-- A graph that rules are evaluated on: a well-formed document. -/
structure RuleGraph where
  document : GraphDocument
  wellFormed : document.WellFormed
deriving DecidableEq

/-- The rule graph of a document, or the first violation. -/
def GraphDocument.validate (d : GraphDocument) : Except GraphError RuleGraph :=
  match h : d.violation? with
  | some e => .error e
  | none => .ok ⟨d, d.violation?_eq_none_iff.1 h⟩

namespace RuleGraph

/-! ## The shape of a graph -/

def id (g : RuleGraph) : String := g.document.id

/-- The kinds of the nodes, in order. -/
def nodes (g : RuleGraph) : List NodeKind := g.document.nodes

/-- The kind of a node. -/
def kind? (g : RuleGraph) (n : NodeId) : Option NodeKind := g.nodes[n]?

/-- The Start node; a draft has none. -/
def start? (g : RuleGraph) : Option NodeId := g.nodes.findIdx? (· = .start)

/-- The links wired to a port, in wiring order. -/
def outputs (g : RuleGraph) (n : NodeId) (port : Port) : List Link :=
  (g.document.wires.filter fun w => w.source = n ∧ w.port = port).map Wire.link

def nodeCount (g : RuleGraph) : Nat := g.nodes.length

def wireCount (g : RuleGraph) : Nat := g.document.wires.length

/-- The wires of one port of a node. -/
def portWires (g : RuleGraph) (n : NodeId) (port : Port) : List Wire :=
  (g.outputs n port).map fun link => ⟨n, port, link.node, link.channel⟩

/-- The document of a graph: its wires by node, then in the order of the node's ports, then in
wiring order. -/
def toDocument (g : RuleGraph) : GraphDocument where
  id := g.id
  nodes := g.nodes
  wires := g.nodes.zipIdx.flatMap fun (kind, n) => kind.ports.flatMap (g.portWires n)

theorem lt_nodeCount {g : RuleGraph} {n : NodeId} {kind : NodeKind}
    (h : g.kind? n = some kind) : n < g.nodeCount :=
  (List.getElem?_eq_some_iff.1 h).1

theorem kind?_of_start? {g : RuleGraph} {start : NodeId} (h : g.start? = some start) :
    g.kind? start = some .start := by
  obtain ⟨lt, is, -⟩ := List.findIdx?_eq_some_iff_getElem.1 h
  exact List.getElem?_eq_some_iff.2 ⟨lt, of_decide_eq_true is⟩

theorem mem_outputs {g : RuleGraph} {n : NodeId} {port : Port} {link : Link} :
    link ∈ g.outputs n port ↔
      ∃ w ∈ g.document.wires, w.source = n ∧ w.port = port ∧ w.link = link := by
  simp [outputs, and_assoc]

/-- A link leads to a node of the graph that accepts its channel. -/
theorem accepts_of_mem_outputs {g : RuleGraph} {n : NodeId} {port : Port} {link : Link}
    (h : link ∈ g.outputs n port) :
    ∃ kind, g.kind? link.node = some kind ∧ kind.accepts link.channel = true := by
  obtain ⟨w, hw, _, _, rfl⟩ := mem_outputs.1 h
  exact (g.wellFormed.wires_fit w hw).dest

/-- Links leave through ports of their node only. -/
theorem hasPort_of_mem_outputs {g : RuleGraph} {n : NodeId} {port : Port} {link : Link}
    (h : link ∈ g.outputs n port) :
    ∃ kind, g.kind? n = some kind ∧ kind.hasPort port = true := by
  obtain ⟨w, hw, rfl, rfl, _⟩ := mem_outputs.1 h
  exact (g.wellFormed.wires_fit w hw).source

end RuleGraph

end Stratagem
