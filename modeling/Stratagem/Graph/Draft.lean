import Stratagem.Graph.Basic

/-!
# Drafting a graph

A graph is drafted by adding nodes and wires to a document one at a time and validated at the end.
Nodes are numbered from zero in the order in which they are added.

* `GraphDocument.draft` takes the steps of a draft in order.
* `GraphDocument.draft_eq`: the draft has the nodes and the wires of the steps, each in their order,
  however nodes and wires take turns.
-/

namespace Stratagem.GraphDocument

/-- The draft without nodes. -/
def blank (id : String) : GraphDocument := { id, nodes := [], wires := [] }

/-- Where the next node will stand. -/
def nextNode (d : GraphDocument) : NodeId := d.nodes.length

/-- Add a node; it stands at `nextNode`. -/
def addNode (d : GraphDocument) (kind : NodeKind) : GraphDocument :=
  { d with nodes := d.nodes ++ [kind] }

/-- Add a wire. -/
def addWire (d : GraphDocument) (w : Wire) : GraphDocument := { d with wires := d.wires ++ [w] }

/-- Wire a port to a condition, through a channel. -/
def wire (d : GraphDocument) (source : NodeId) (port : Port) (dest : NodeId) (channel : Channel) :
    GraphDocument :=
  d.addWire ⟨source, port, dest, some channel⟩

/-- Wire a port to a diagnostic node. -/
def flow (d : GraphDocument) (source : NodeId) (port : Port) (dest : NodeId) : GraphDocument :=
  d.addWire ⟨source, port, dest, none⟩

theorem nodes_addNode (d : GraphDocument) (kind : NodeKind) :
    (d.addNode kind).nodes[d.nextNode]? = some kind := by
  simp [addNode, nextNode]

/-! ## Drafting in steps -/

/-- One step of a draft. -/
inductive DraftStep
  | node (kind : NodeKind)
  | wire (source : NodeId) (port : Port) (dest : NodeId) (channel : Channel)
  | flow (source : NodeId) (port : Port) (dest : NodeId)
deriving DecidableEq, Repr

namespace DraftStep

/-- The node that a step adds. -/
def kind? : DraftStep → Option NodeKind
  | .node kind => some kind
  | .wire .. | .flow .. => none

/-- The wire that a step adds. -/
def wire? : DraftStep → Option Wire
  | .node _ => none
  | .wire source port dest channel => some ⟨source, port, dest, some channel⟩
  | .flow source port dest => some ⟨source, port, dest, none⟩

/-- The step that adds a wire. -/
def ofWire (w : Wire) : DraftStep :=
  match w.channel with
  | some channel => .wire w.source w.port w.dest channel
  | none => .flow w.source w.port w.dest

theorem wire?_ofWire (w : Wire) : (ofWire w).wire? = some w := by
  obtain ⟨source, port, dest, channel⟩ := w
  cases channel <;> rfl

theorem kind?_ofWire (w : Wire) : (ofWire w).kind? = none := by
  obtain ⟨source, port, dest, channel⟩ := w
  cases channel <;> rfl

end DraftStep

/-- Take one step. -/
def take (d : GraphDocument) : DraftStep → GraphDocument
  | .node kind => d.addNode kind
  | .wire source port dest channel => d.wire source port dest channel
  | .flow source port dest => d.flow source port dest

/-- The draft that steps lead to. -/
def draft (id : String) (steps : List DraftStep) : GraphDocument := steps.foldl take (blank id)

theorem take_eq (d : GraphDocument) (step : DraftStep) :
    d.take step =
      ⟨d.id, d.nodes ++ step.kind?.toList, d.wires ++ step.wire?.toList⟩ := by
  cases step <;> simp [take, addNode, wire, flow, addWire, DraftStep.kind?, DraftStep.wire?]

theorem foldl_take (d : GraphDocument) (steps : List DraftStep) :
    steps.foldl take d =
      ⟨d.id, d.nodes ++ steps.filterMap DraftStep.kind?,
        d.wires ++ steps.filterMap DraftStep.wire?⟩ := by
  induction steps generalizing d with
  | nil => simp
  | cons step steps ih =>
    rw [List.foldl_cons, ih, take_eq]
    cases step <;> simp [List.filterMap_cons, DraftStep.kind?, DraftStep.wire?]

theorem draft_eq (id : String) (steps : List DraftStep) :
    draft id steps =
      ⟨id, steps.filterMap DraftStep.kind?, steps.filterMap DraftStep.wire?⟩ := by
  rw [draft, foldl_take]
  simp [blank]

end Stratagem.GraphDocument
