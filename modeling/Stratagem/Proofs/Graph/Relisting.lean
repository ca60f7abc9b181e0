import Mathlib.Data.List.Nodup
import Stratagem.Graph.Basic

/-!
# Listing the wires of a graph again

The document of a graph lists its wires by node and port. Nothing else about them changes: the wires
are those of the graph, so the document is well formed, and the graph that it describes has the same
links at every port, in the same order.

* `RuleGraph.relisted` is the graph that is read from the document of a graph.
* `RuleGraph.outputs_relisted`: its ports have the same links.
* `RuleGraph.Matches`: graphs that cannot be told apart by what they are asked.
-/

namespace Stratagem

/-- Where only one of distinct items contributes, the whole is what it contributes. -/
theorem flatMap_eq_of_single {α β : Type} {f : α → List β} {items : List α} {a : α}
    (distinct : items.Nodup) (met : a ∈ items) (others : ∀ x ∈ items, x ≠ a → f x = []) :
    items.flatMap f = f a := by
  induction items with
  | nil => cases met
  | cons x items ih =>
    obtain ⟨fresh, distinct⟩ := List.nodup_cons.1 distinct
    have later : ∀ y ∈ items, y ≠ a → f y = [] := fun y hy => others y (List.mem_cons_of_mem _ hy)
    rw [List.flatMap_cons]
    by_cases here : x = a
    · subst here
      have rest : items.flatMap f = [] := by
        refine List.flatMap_eq_nil_iff.2 fun y hy => later y hy ?_
        rintro rfl
        exact fresh hy
      rw [rest, List.append_nil]
    · have met : a ∈ items := (List.mem_cons.1 met).resolve_left (Ne.symm here)
      rw [others x List.mem_cons_self here, List.nil_append]
      exact ih distinct met later

theorem NodeKind.nodup_ports (k : NodeKind) : k.ports.Nodup := by
  cases k <;> simp [ports]

namespace RuleGraph

variable {g : RuleGraph} {n : NodeId} {port : Port} {w : Wire}

/-! ## The wires of the document -/

theorem mem_portWires : w ∈ g.portWires n port ↔
    w ∈ g.document.wires ∧ w.source = n ∧ w.port = port := by
  unfold portWires
  simp only [List.mem_map, mem_outputs]
  constructor
  · rintro ⟨_, ⟨u, hu, rfl, rfl, rfl⟩, rfl⟩
    exact ⟨hu, rfl, rfl⟩
  · rintro ⟨hw, rfl, rfl⟩
    exact ⟨w.link, ⟨w, hw, rfl, rfl, rfl⟩, rfl⟩

/-- The document lists wires of the graph only. -/
theorem mem_of_mem_toDocument (hw : w ∈ g.toDocument.wires) : w ∈ g.document.wires := by
  obtain ⟨⟨kind, n⟩, -, hw⟩ := List.mem_flatMap.1 hw
  obtain ⟨port, -, hw⟩ := List.mem_flatMap.1 hw
  exact (mem_portWires.1 hw).1

theorem wellFormed_toDocument (g : RuleGraph) : g.toDocument.WellFormed where
  starts_le_one := g.wellFormed.starts_le_one
  wires_fit := fun w hw =>
    let fits := g.wellFormed.wires_fit w (mem_of_mem_toDocument hw)
    ⟨fits.source, fits.dest⟩

/-- The graph that its own document describes. -/
def relisted (g : RuleGraph) : RuleGraph := ⟨g.toDocument, g.wellFormed_toDocument⟩

/-! ## The links of the ports -/

/-- Of the wires of a port those that leave through a port are all or none. -/
theorem filter_portWires (m : NodeId) (other : Port) :
    (g.portWires m other).filter (fun w => w.source = n ∧ w.port = port) =
      if m = n ∧ other = port then g.portWires n port else [] := by
  split
  · next same =>
    obtain ⟨rfl, rfl⟩ := same
    refine List.filter_eq_self.2 fun w hw => ?_
    obtain ⟨-, source, port⟩ := mem_portWires.1 hw
    simp [source, port]
  · next differ =>
    refine List.filter_eq_nil_iff.2 fun w hw => ?_
    obtain ⟨-, source, port⟩ := mem_portWires.1 hw
    simp only [source, port, decide_eq_true_eq]
    exact differ

/-- A port that its node does not have has no wires. -/
theorem portWires_eq_nil (missing : ∀ kind, g.kind? n = some kind → port ∉ kind.ports) :
    g.portWires n port = [] := by
  refine List.eq_nil_iff_forall_not_mem.2 fun w met => ?_
  obtain ⟨hw, rfl, rfl⟩ := mem_portWires.1 met
  obtain ⟨kind, known, has⟩ := (g.wellFormed.wires_fit w hw).source
  exact missing kind known (List.contains_iff_mem.1 has)

/-- Of the wires listed for a node those that leave a node through a port are all of this port's, if
it is this node, and none else. -/
theorem filter_nodeWires {m : NodeId} {kind : NodeKind} (known : g.kind? m = some kind) :
    (kind.ports.flatMap (g.portWires m)).filter (fun w => w.source = n ∧ w.port = port) =
      if m = n then g.portWires n port else [] := by
  rw [List.filter_flatMap]
  simp only [filter_portWires]
  split
  · next here =>
    subst here
    by_cases has : port ∈ kind.ports
    · refine (flatMap_eq_of_single kind.nodup_ports has fun other _ differ => ?_).trans ?_
      · exact if_neg fun same => differ same.2
      · exact if_pos ⟨rfl, rfl⟩
    · rw [portWires_eq_nil fun k hk => Option.some.inj (known.symm.trans hk) ▸ has]
      refine List.flatMap_eq_nil_iff.2 fun other _ => ?_
      split <;> rfl
  · next elsewhere =>
    exact List.flatMap_eq_nil_iff.2 fun other _ => if_neg fun same => elsewhere same.1

/-- Each wire of a port is listed once, in order. -/
theorem filter_toDocument (g : RuleGraph) (n : NodeId) (port : Port) :
    g.toDocument.wires.filter (fun w => w.source = n ∧ w.port = port) = g.portWires n port := by
  have distinct : g.nodes.zipIdx.Nodup := by
    refine List.Nodup.of_map Prod.snd ?_
    rw [List.zipIdx_map_snd]
    exact List.nodup_range'
  have each : ∀ entry ∈ g.nodes.zipIdx,
      (entry.1.ports.flatMap (g.portWires entry.2)).filter
          (fun w => w.source = n ∧ w.port = port) =
        if entry.2 = n then g.portWires n port else [] :=
    fun entry met => filter_nodeWires (List.mem_zipIdx_iff_getElem?.1 met)
  rw [toDocument, List.filter_flatMap]
  cases known : g.kind? n with
  | none =>
    -- there is no such node, so the port has no wires, and none are listed for it
    rw [portWires_eq_nil fun kind hk => nomatch known.symm.trans hk]
    refine List.flatMap_eq_nil_iff.2 fun entry met => (each entry met).trans (if_neg fun same => ?_)
    have present := List.mem_zipIdx_iff_getElem?.1 met
    rw [same] at present
    cases known.symm.trans present
  | some kind =>
    have met : (kind, n) ∈ g.nodes.zipIdx := List.mem_zipIdx_iff_getElem?.2 known
    refine (flatMap_eq_of_single distinct met fun entry other differ => ?_).trans
      ((each _ met).trans (if_pos rfl))
    refine (each entry other).trans (if_neg fun same => differ (Prod.ext ?_ same))
    have present := List.mem_zipIdx_iff_getElem?.1 other
    rw [same] at present
    exact Option.some.inj (present.symm.trans known)

/-- Listing the wires of a graph again keeps the links of every port in their order. -/
theorem outputs_relisted (g : RuleGraph) (n : NodeId) (port : Port) :
    g.relisted.outputs n port = g.outputs n port := by
  show (g.toDocument.wires.filter _).map Wire.link = _
  rw [filter_toDocument, portWires, List.map_map]
  exact List.map_id _

/-- A graph that has been listed again is listed as it was. -/
theorem toDocument_relisted (g : RuleGraph) : g.relisted.toDocument = g.toDocument := by
  have wires : ∀ n, g.relisted.portWires n = g.portWires n := by
    intro n
    funext port
    rw [portWires, portWires, outputs_relisted]
  unfold toDocument
  simp only [wires]
  rfl

/-! ## What can be told of a graph -/

/-- Two graphs with the same id, the same nodes and the same links at every port. -/
structure Matches (g h : RuleGraph) : Prop where
  id : h.id = g.id
  nodes : h.nodes = g.nodes
  start? : h.start? = g.start?
  outputs : ∀ n port, h.outputs n port = g.outputs n port

theorem matches_relisted (g : RuleGraph) : g.Matches g.relisted where
  id := rfl
  nodes := rfl
  start? := rfl
  outputs := g.outputs_relisted

end RuleGraph

end Stratagem
