import Mathlib.Data.Prod.Lex
import Stratagem.Proofs.Graph.Assembly
import Stratagem.Proofs.Graph.Relisting
import Stratagem.Proofs.Sorting

/-!
# The order of the wires in a document

The document of a graph lists the wires by their sources and, for each source, in the order of its
ports. This is a stable sort of the wires that the graph was made of: wires of one port stay in
their order, and no wire is lost, since no wire leaves through a port that its source does not have.

* `GraphDocument.place` is where a wire belongs: its source, and the position of its port.
* `RuleGraph.stablySorted_toDocument`: the wires of the document are sorted stably by their places.
* `RuleGraph.toDocument_eq_iff`: what the document keeps of the order of the wires is the order of
  those of each port, and nothing else.
* `GraphDocument.listing_exact` is the result for documents that can be assembled.
-/

namespace Stratagem

/-- The ports of a kind stand in the order of their positions. -/
theorem NodeKind.pairwise_idxOf_ports (k : NodeKind) :
    k.ports.Pairwise fun p q => k.ports.idxOf p ≤ k.ports.idxOf q := by
  rw [List.pairwise_iff_getElem]
  intro i j hi hj lt
  rw [k.nodup_ports.idxOf_getElem, k.nodup_ports.idxOf_getElem]
  exact Nat.le_of_lt lt

namespace GraphDocument

/-- Where a wire belongs in the document of a graph: first by its source, and for each source by the
position of its port among the ports of the source. -/
def place (d : GraphDocument) (w : Wire) : NodeId ×ₗ Nat :=
  toLex (w.source, ((d.nodes[w.source]?).map fun kind => kind.ports.idxOf w.port).getD 0)

variable {d : GraphDocument} {u w : Wire}

theorem place_eq {kind : NodeKind} (known : d.nodes[w.source]? = some kind) :
    d.place w = toLex (w.source, kind.ports.idxOf w.port) := by
  simp [place, known]

theorem place_le_iff : d.place u ≤ d.place w ↔
    u.source < w.source ∨ u.source = w.source ∧ (d.place u).2 ≤ (d.place w).2 :=
  Prod.Lex.le_iff

/-- Wires that fit have one place if and only if they leave through one port. -/
theorem place_eq_iff (hu : d.WireFits u) (hw : d.WireFits w) :
    d.place u = d.place w ↔ u.source = w.source ∧ u.port = w.port := by
  obtain ⟨kind, known, has⟩ := hu.source
  obtain ⟨kind', known', has'⟩ := hw.source
  rw [place_eq known, place_eq known', toLex_inj, Prod.mk.injEq]
  constructor
  · rintro ⟨source, position⟩
    rw [source, known'] at known
    obtain rfl := Option.some.inj known
    exact ⟨source, (List.idxOf_inj (hasPort_iff.1 has)).1 position⟩
  · rintro ⟨source, port⟩
    rw [source, known'] at known
    obtain rfl := Option.some.inj known
    exact ⟨source, by rw [port]⟩

end GraphDocument

namespace RuleGraph

variable {g h : RuleGraph} {n : NodeId} {port : Port} {kind : NodeKind}

/-- The wires of a port are those wires of the graph that leave through it, in wiring order. -/
theorem portWires_eq_filter (g : RuleGraph) (n : NodeId) (port : Port) :
    g.portWires n port = g.document.wires.filter fun w => w.source = n ∧ w.port = port := by
  unfold portWires outputs
  rw [List.map_map]
  conv_rhs => rw [← List.map_id (g.document.wires.filter _)]
  refine List.map_congr_left fun w hw => ?_
  obtain ⟨-, through⟩ := List.mem_filter.1 hw
  obtain ⟨rfl, rfl⟩ := of_decide_eq_true through
  rfl

/-! ## Where the wires stand -/

/-- The wires listed for a node stand in the order of their places. -/
theorem pairwise_nodeWires (known : g.kind? n = some kind) :
    (kind.ports.flatMap (g.portWires n)).Pairwise fun u w =>
      g.document.place u ≤ g.document.place w := by
  have place : ∀ port, ∀ w ∈ g.portWires n port,
      g.document.place w = toLex (n, kind.ports.idxOf port) := by
    intro port w hw
    obtain ⟨-, rfl, rfl⟩ := mem_portWires.1 hw
    exact GraphDocument.place_eq known
  rw [List.pairwise_flatMap]
  constructor
  · intro port _
    refine List.pairwise_of_forall_mem_list fun u hu w hw => ?_
    rw [place port u hu, place port w hw]
  · refine kind.pairwise_idxOf_ports.imp fun {p q} le u hu w hw => ?_
    rw [place p u hu, place q w hw]
    exact Prod.Lex.toLex_le_toLex.2 (.inr ⟨rfl, le⟩)

/-- The wires of the document stand in the order of their places. -/
theorem pairwise_toDocument (g : RuleGraph) :
    g.toDocument.wires.Pairwise fun u w => g.document.place u ≤ g.document.place w := by
  unfold toDocument
  rw [List.pairwise_flatMap]
  constructor
  · intro entry met
    exact pairwise_nodeWires (List.mem_zipIdx_iff_getElem?.1 met)
  · -- nodes are numbered in their order, and the wires listed for a node leave it
    have numbered : g.nodes.zipIdx.Pairwise fun a b => a.2 < b.2 := by
      rw [← List.pairwise_map (f := Prod.snd), List.zipIdx_map_snd]
      exact List.pairwise_lt_range' 1
    have source : ∀ entry ∈ g.nodes.zipIdx, ∀ w ∈ entry.1.ports.flatMap (g.portWires entry.2),
        w.source = entry.2 := by
      intro entry _ w hw
      obtain ⟨port, -, hw⟩ := List.mem_flatMap.1 hw
      exact (mem_portWires.1 hw).2.1
    refine numbered.imp_of_mem fun {a b} ha hb lt u hu w hw => ?_
    rw [GraphDocument.place_le_iff, source a ha u hu, source b hb w hw]
    exact .inl lt

/-- The wires of one place are listed in the order in which they are in the graph. -/
theorem filter_place_toDocument (g : RuleGraph) (k : NodeId ×ₗ Nat) :
    g.toDocument.wires.filter (g.document.place · = k) =
      g.document.wires.filter (g.document.place · = k) := by
  by_cases some : ∃ w ∈ g.document.wires, g.document.place w = k
  · obtain ⟨w, hw, rfl⟩ := some
    have fits : ∀ u ∈ g.document.wires, g.document.WireFits u := g.wellFormed.wires_fit
    -- among the wires of the graph, those of the place of `w` are those of its port
    have same : ∀ u ∈ g.document.wires,
        decide (g.document.place u = g.document.place w) =
          decide (u.source = w.source ∧ u.port = w.port) := fun u hu =>
      decide_eq_decide.2 (GraphDocument.place_eq_iff (fits u hu) (fits w hw))
    rw [List.filter_congr same, List.filter_congr fun u hu => same u (mem_of_mem_toDocument hu),
      filter_toDocument, portWires_eq_filter]
  · have none : ∀ u ∈ g.document.wires, ¬ decide (g.document.place u = k) = true := by
      intro u hu here
      exact some ⟨u, hu, of_decide_eq_true here⟩
    rw [List.filter_eq_nil_iff.2 none,
      List.filter_eq_nil_iff.2 fun u hu => none u (mem_of_mem_toDocument hu)]

theorem stablySorted_toDocument (g : RuleGraph) :
    StablySorted g.document.place g.document.wires g.toDocument.wires where
  ordered := g.pairwise_toDocument
  kept := g.filter_place_toDocument

/-! ## What the order keeps -/

/-- Two graphs of the same nodes have one document if and only if the wires of each port are the
same, in the same order. -/
theorem toDocument_eq_iff (id : h.id = g.id) (nodes : h.nodes = g.nodes) :
    h.toDocument = g.toDocument ↔ ∀ n port,
      (h.document.wires.filter fun w => w.source = n ∧ w.port = port) =
        g.document.wires.filter fun w => w.source = n ∧ w.port = port := by
  simp only [← portWires_eq_filter]
  constructor
  · intro same n port
    rw [← filter_toDocument, ← filter_toDocument, same]
  · intro same
    have wires : ∀ n, h.portWires n = g.portWires n := fun n => funext (same n)
    unfold toDocument
    simp only [id, nodes, wires]

end RuleGraph

/-! ## The document of what was assembled -/

/-- A document that can be assembled comes back with its id and its nodes, and with its wires sorted
stably by their places. So it has as many wires as before, and each as often; a graph counts as many;
and what comes back can be assembled and comes back as it is. Two documents of one id and the same
nodes come back as one if and only if, for every port of every node, they list the same wires in the
same order. -/
theorem GraphDocument.listing_exact (d : GraphDocument) (t : WiredGraph)
    (assembled : d.assemble = .ok t) :
    t.toDocument.id = d.id ∧ t.toDocument.nodes = d.nodes ∧
    StablySorted d.place d.wires t.toDocument.wires ∧
    t.toDocument.wires = (d.wires.mergeSort fun u w => d.place u ≤ d.place w) ∧
    t.toDocument.wires.Perm d.wires ∧ t.wireCount = d.wires.length ∧
    (∃ again, t.toDocument.assemble = .ok again ∧ again.toDocument = t.toDocument) ∧
    ∀ (d' : GraphDocument) (t' : WiredGraph), d'.assemble = .ok t' → d'.id = d.id →
      d'.nodes = d.nodes →
      (t'.toDocument = t.toDocument ↔ ∀ n port,
        (d'.wires.filter fun w => w.source = n ∧ w.port = port) =
          d.wires.filter fun w => w.source = n ∧ w.port = port) := by
  obtain ⟨fits, rfl⟩ := assemble_eq_ok_iff.1 assembled
  let g : RuleGraph := ⟨d, fits⟩
  have document : d.wired.toDocument = g.toDocument := g.wired_agrees.toDocument
  rw [document]
  have sorted : StablySorted d.place d.wires g.toDocument.wires := g.stablySorted_toDocument
  refine ⟨rfl, rfl, sorted, sorted.eq_mergeSort, sorted.perm, d.wireCount_wired, ?_, ?_⟩
  · refine ⟨g.toDocument.wired, assemble_eq_ok_iff.2 ⟨g.wellFormed_toDocument, rfl⟩, ?_⟩
    exact g.relisted.wired_agrees.toDocument.trans g.toDocument_relisted
  · intro d' t' assembled' id nodes
    obtain ⟨fits', rfl⟩ := assemble_eq_ok_iff.1 assembled'
    let g' : RuleGraph := ⟨d', fits'⟩
    rw [show d'.wired.toDocument = g'.toDocument from g'.wired_agrees.toDocument]
    exact RuleGraph.toDocument_eq_iff (g := g) (h := g') id nodes

/-- Of four wires two leave through one port. Taking turns with the others, they come back in the
order that they have among themselves, behind the wire of the Start node, and otherwise only if they
change places. -/
theorem GraphDocument.listing_exact_interleaved :
    let run : Wire := ⟨0, .run, 1, some .target⟩
    let male : Wire := ⟨1, .male, 2, none⟩
    let female : Wire := ⟨1, .female, 2, none⟩
    let other : Wire := ⟨1, .female, 3, none⟩
    let listing (wires : List Wire) : GraphDocument :=
      ⟨"rule", [.start, .gender, .warning "one", .warning "two"], wires⟩
    ∃ t t' t'', (listing [female, other, run, male]).assemble = .ok t ∧
      (listing [female, run, other, male]).assemble = .ok t' ∧
      (listing [other, run, female, male]).assemble = .ok t'' ∧
      t.toDocument.wires = [run, male, female, other] ∧ t'.toDocument = t.toDocument ∧
      t''.toDocument ≠ t.toDocument := by
  intro run male female other listing
  let d := listing [female, other, run, male]
  let swapped := listing [female, run, other, male]
  let turned := listing [other, run, female, male]
  have assembled : d.assemble = .ok d.wired := rfl
  obtain ⟨-, -, -, -, -, -, -, same⟩ := listing_exact d d.wired assembled
  refine ⟨d.wired, swapped.wired, turned.wired, assembled, rfl, rfl, ?_, ?_, ?_⟩
  · decide +kernel
  · refine (same swapped swapped.wired rfl rfl rfl).2 fun n port => ?_
    -- the wire that has changed its place among the others leaves through a port of its own
    by_cases here : 0 = n ∧ Port.run = port
    · obtain ⟨rfl, rfl⟩ := here
      rfl
    · simp [swapped, d, listing, List.filter_cons, run, here]
  · intro equal
    have kept := (same turned turned.wired rfl rfl rfl).1 equal 1 .female
    exact absurd kept (by decide)
end Stratagem
