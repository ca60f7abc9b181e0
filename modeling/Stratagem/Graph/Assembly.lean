import Stratagem.Graph.Basic
import Stratagem.Registry
import Stratagem.Total

/-!
# Assembling a graph

A document becomes a graph that can be walked in one pass. The Start nodes are counted; then the
wires are taken in order, each is checked, and its link is put to those that leave through the same
port. The first violation ends the pass.

* `GraphDocument.assemble` is the pass, and `GraphDocument.wireUp` what it does with one wire.
* `WiredGraph.outputs` and the operations after it read the links by port only.
-/

namespace Stratagem

/-- The links of each port that has any, in wiring order. -/
abbrev Exits : Type := Registry (NodeId × Port) (List Link)

namespace Exits

/-- The links of a port. -/
def links (exits : Exits) (n : NodeId) (port : Port) : List Link :=
  (exits.find? (n, port)).getD []

/-- Put the link of a wire to those of its port. -/
def connect (exits : Exits) (w : Wire) : Exits :=
  exits.insert (w.source, w.port) (exits.links w.source w.port ++ [w.link])

end Exits

/-- A graph as it is walked. -/
structure WiredGraph where
  id : String
  nodes : List NodeKind
  /-- The Start node; a draft has none. -/
  start? : Option NodeId
  exits : Exits

namespace GraphDocument

/-- The places of the Start nodes, in order. -/
def startNodes (d : GraphDocument) : List NodeId :=
  (d.nodes.zipIdx.filter fun entry => entry.1 = .start).map Prod.snd

/-- Check a wire and put its link to those of its port. -/
def wireUp (d : GraphDocument) (exits : Exits) (w : Wire) : Except GraphError Exits :=
  match d.nodes[w.source]? with
  | none => .error (.unknownNode d.id w.source)
  | some source =>
    match d.nodes[w.dest]? with
    | none => .error (.unknownNode d.id w.dest)
    | some dest =>
      if !source.hasPort w.port then .error (.invalidPort d.id w.source source w.port)
      else if !dest.accepts w.channel then .error (.invalidChannel d.id w.dest dest w.channel)
      else .ok (exits.connect w)

/-- Make a document into a graph that can be walked. -/
def assemble (d : GraphDocument) : Except GraphError WiredGraph :=
  if 1 < d.startNodes.length then .error (.multipleStarts d.id d.startNodes.length)
  else do
    let exits ← d.wires.foldlM d.wireUp .empty
    pure { id := d.id, nodes := d.nodes, start? := d.startNodes.head?, exits }

end GraphDocument

namespace WiredGraph

/-- The kind of a node. -/
def kind? (t : WiredGraph) (n : NodeId) : Option NodeKind := t.nodes[n]?

/-- The links wired to a port, in wiring order. -/
def outputs (t : WiredGraph) (n : NodeId) (port : Port) : List Link := t.exits.links n port

/-- How many links the ports have. -/
def wireCount (t : WiredGraph) : Nat := total List.length t.exits.values

/-- The wires of one port of a node. -/
def portWires (t : WiredGraph) (n : NodeId) (port : Port) : List Wire :=
  (t.outputs n port).map fun link => ⟨n, port, link.node, link.channel⟩

/-- The document of a graph: its wires by node, then in the order of the node's ports, then in
wiring order. -/
def toDocument (t : WiredGraph) : GraphDocument where
  id := t.id
  nodes := t.nodes
  wires := t.nodes.zipIdx.flatMap fun (kind, n) => kind.ports.flatMap (t.portWires n)

end WiredGraph

end Stratagem
