import Stratagem.Graph.Assembly
import Stratagem.Graph.Draft
import Stratagem.Graph.Library
import Stratagem.Proofs.Json.Reading

/-!
# What can be assembled

The pass over a document counts, checks and sorts links as it goes. What it accepts, what it refuses
and what it makes of the wires can be said at once, from the document alone.

* `GraphDocument.WireFault` and `GraphDocument.FirstViolation` say what is wrong with a document,
  and `GraphDocument.violation?_eq_some_iff` that this is what is reported.
* `Exits.links_foldl`: the links of a port are those of its wires, in order.
* `GraphDocument.assemble_eq`: the pass comes to the first violation, or to the graph.
* `WiredGraph.Agrees`: what is asked of the assembled graph is answered as by the rule graph.
* `GraphDocument.assembly_exact` is the result for documents, drafts and libraries.
-/

namespace Stratagem

/-! ## The first violation -/

namespace GraphDocument

variable {d : GraphDocument} {w : Wire} {e : GraphError}

/-- What is wrong with a wire. Its ends come first, the source before the destination, then its port
and last its channel. -/
inductive WireFault (d : GraphDocument) (w : Wire) : GraphError → Prop
  | source : d.nodes[w.source]? = none → WireFault d w (.unknownNode d.id w.source)
  | dest {source : NodeKind} : d.nodes[w.source]? = some source → d.nodes[w.dest]? = none →
      WireFault d w (.unknownNode d.id w.dest)
  | port {source dest : NodeKind} : d.nodes[w.source]? = some source →
      d.nodes[w.dest]? = some dest → w.port ∉ source.ports →
      WireFault d w (.invalidPort d.id w.source source w.port)
  | channel {source dest : NodeKind} : d.nodes[w.source]? = some source →
      d.nodes[w.dest]? = some dest → w.port ∈ source.ports → dest.accepts w.channel = false →
      WireFault d w (.invalidChannel d.id w.dest dest w.channel)

/-- What is wrong with a document. Several Start nodes come first; then the wires count in order,
and those before the one at fault fit. -/
inductive FirstViolation (d : GraphDocument) : GraphError → Prop
  | starts : 1 < d.starts.length → FirstViolation d (.multipleStarts d.id d.starts.length)
  | wire {before after : List Wire} {w : Wire} {e : GraphError} : d.starts.length ≤ 1 →
      d.wires = before ++ w :: after → (∀ u ∈ before, d.WireFits u) → d.WireFault w e →
      FirstViolation d e

theorem hasPort_iff {kind : NodeKind} {port : Port} :
    kind.hasPort port = true ↔ port ∈ kind.ports := List.contains_iff_mem

theorem wireViolation?_eq_some_iff : d.wireViolation? w = some e ↔ d.WireFault w e := by
  unfold wireViolation?
  constructor
  · intro h
    split at h
    · next missing =>
      cases h
      exact .source missing
    · next found missing =>
      cases h
      exact .dest found missing
    · next source dest found found' =>
      split at h
      · next port =>
        split at h
        · cases h
        · next channel =>
          cases h
          exact .channel found found' (hasPort_iff.1 port) (Bool.eq_false_iff.2 channel)
      · next port =>
        cases h
        exact .port found found' (mt hasPort_iff.2 port)
  · intro fault
    cases fault with
    | source missing => simp only [missing]
    | dest found missing => simp only [found, missing]
    | port found found' port =>
      simp only [found, found', if_neg (mt hasPort_iff.1 port)]
    | channel found found' port channel =>
      simp only [found, found', if_pos (hasPort_iff.2 port), channel, Bool.false_eq_true, if_false]

theorem violation?_eq_some_iff : d.violation? = some e ↔ d.FirstViolation e := by
  unfold violation?
  split
  · next many =>
    constructor
    · intro h
      obtain rfl := Option.some.inj h
      exact .starts many
    · intro first
      cases first with
      | starts => rfl
      | wire few => omega
  · next few =>
    rw [List.findSome?_eq_some_iff]
    constructor
    · rintro ⟨before, w, after, split, fault, fit⟩
      exact .wire (by omega) split (fun u hu => (d.wireViolation?_eq_none_iff u).1 (fit u hu))
        (wireViolation?_eq_some_iff.1 fault)
    · intro first
      cases first with
      | starts many => exact absurd many few
      | wire _ split fit fault =>
        exact ⟨_, _, _, split, wireViolation?_eq_some_iff.2 fault,
          fun u hu => (d.wireViolation?_eq_none_iff u).2 (fit u hu)⟩

/-- A document is validated as it stands. -/
theorem validate_eq_ok_iff {g : RuleGraph} : d.validate = .ok g ↔ g.document = d := by
  unfold validate
  split
  · next e violated =>
    refine ⟨nofun, fun same => ?_⟩
    subst same
    rw [(violation?_eq_none_iff _).2 g.wellFormed] at violated
    cases violated
  · next fits =>
    refine ⟨fun h => ?_, fun same => ?_⟩
    · cases h
      rfl
    · subst same
      rfl

theorem validate_eq_error_iff : d.validate = .error e ↔ d.FirstViolation e := by
  rw [← violation?_eq_some_iff]
  unfold validate
  split
  · next e' violated =>
    rw [violated]
    exact ⟨fun h => congrArg some (Except.error.inj h),
      fun h => congrArg Except.error (Option.some.inj h)⟩
  · next fits =>
    exact ⟨nofun, fun h => nomatch fits.symm.trans h⟩

/-- A Start node accepts no wire, so none leads to it. -/
theorem WellFormed.dest_ne_start (fits : d.WellFormed) (hw : w ∈ d.wires) :
    d.nodes[w.dest]? ≠ some .start := by
  intro start
  obtain ⟨kind, known, accepts⟩ := (fits.wires_fit w hw).dest
  obtain rfl := Option.some.inj (known.symm.trans start)
  rw [NodeKind.not_accepts_start] at accepts
  cases accepts

end GraphDocument

/-! ## The links of a port -/

namespace Registry

variable {κ α : Type} [DecidableEq κ] {entries : List (κ × α)} {key : κ}

theorem map_modifyEntry_of_fresh (fresh : key ∉ entries.map Prod.fst) (f : α → α) :
    entries.map (modifyEntry key f) = entries := by
  conv_rhs => rw [← List.map_id entries]
  refine List.map_congr_left fun entry met => ?_
  have other : entry.1 ≠ key := fun same => fresh (same ▸ List.mem_map_of_mem met)
  exact if_neg other

theorem total_modifyEntry {f : α → Nat} (nodup : (entries.map Prod.fst).Nodup)
    (known : key ∈ entries.map Prod.fst) (value : α) :
    total (f ∘ Prod.snd) (entries.map (modifyEntry key fun _ => value)) +
        (((entries.find? (·.1 = key)).map Prod.snd).map f).getD 0 =
      total (f ∘ Prod.snd) entries + f value := by
  induction entries with
  | nil => cases known
  | cons entry entries ih =>
    obtain ⟨fresh, nodup⟩ := List.nodup_cons.1 nodup
    by_cases here : entry.1 = key
    · subst here
      simp [map_modifyEntry_of_fresh fresh, modifyEntry]
      omega
    · have known : key ∈ entries.map Prod.fst := by
        rcases List.mem_cons.1 known with same | known
        · exact absurd same.symm here
        · exact known
      have rest := ih nodup known
      have kept : modifyEntry key (fun _ => value) entry = entry := if_neg here
      rw [List.map_cons, total_cons, total_cons, kept, List.find?_cons_of_neg (by simpa using here)]
      omega

/-- Entering a value adds what it counts, in place of what the value before it counted. -/
theorem total_values_insert {f : α → Nat} (r : Registry κ α) (key : κ) (value : α) :
    total f (r.insert key value).values + ((r.find? key).map f).getD 0 =
      total f r.values + f value := by
  unfold values insert find?
  split
  · next known =>
    rw [total_map, total_map]
    exact total_modifyEntry r.nodup_keys known value
  · next fresh =>
    have missing := (r.find?_eq_none_iff key).2 fresh
    unfold find? at missing
    rw [missing]
    simp [append]

end Registry

namespace Exits

theorem links_connect (exits : Exits) (w : Wire) (n : NodeId) (port : Port) :
    (exits.connect w).links n port =
      exits.links n port ++ ([w].filter fun w => w.source = n ∧ w.port = port).map Wire.link := by
  unfold links connect
  rw [Registry.find?_insert]
  by_cases here : (n, port) = (w.source, w.port)
  · obtain ⟨rfl, rfl⟩ := Prod.mk.inj here
    simp [links]
  · have elsewhere : ¬ (w.source = n ∧ w.port = port) := by
      rintro ⟨rfl, rfl⟩
      exact here rfl
    simp [here, elsewhere]

theorem links_foldl (wires : List Wire) (exits : Exits) (n : NodeId) (port : Port) :
    (wires.foldl connect exits).links n port =
      exits.links n port ++
        (wires.filter fun w => w.source = n ∧ w.port = port).map Wire.link := by
  induction wires generalizing exits with
  | nil => simp
  | cons w wires ih =>
    rw [List.foldl_cons, ih, links_connect, List.append_assoc, ← List.map_append,
      ← List.filter_append, List.singleton_append]

end Exits

/-! ## The pass -/

namespace GraphDocument

variable {d : GraphDocument} {e : GraphError}

theorem wireUp_eq (d : GraphDocument) (exits : Exits) (w : Wire) :
    d.wireUp exits w =
      match d.wireViolation? w with
      | some e => .error e
      | none => .ok (exits.connect w) := by
  unfold wireUp wireViolation?
  cases d.nodes[w.source]? with
  | none => rfl
  | some source =>
    cases d.nodes[w.dest]? with
    | none => rfl
    | some dest =>
      dsimp only
      cases source.hasPort w.port <;> cases dest.accepts w.channel <;> rfl

theorem foldlM_wireUp (d : GraphDocument) (wires : List Wire) (exits : Exits) :
    wires.foldlM d.wireUp exits =
      match wires.findSome? d.wireViolation? with
      | some e => .error e
      | none => .ok (wires.foldl Exits.connect exits) := by
  induction wires generalizing exits with
  | nil => rfl
  | cons w wires ih =>
    rw [List.foldlM_cons, wireUp_eq, List.findSome?_cons]
    cases d.wireViolation? w with
    | some e => rfl
    | none => exact ih _

theorem length_startNodes (d : GraphDocument) : d.startNodes.length = d.starts.length := by
  have kinds : d.nodes.zipIdx.map Prod.fst = d.nodes := List.zipIdx_map_fst _ _
  rw [startNodes, List.length_map, starts]
  conv_rhs => rw [← kinds]
  rw [List.filter_map, List.length_map]
  rfl

theorem head?_startNodes (d : GraphDocument) :
    d.startNodes.head? = d.nodes.findIdx? (· = .start) := by
  rw [startNodes, List.head?_map, List.head?_filter, List.findIdx?_eq_fst_find?_zipIdx]

/-- The graph that the pass makes of a document without fault. -/
def wired (d : GraphDocument) : WiredGraph where
  id := d.id
  nodes := d.nodes
  start? := d.nodes.findIdx? (· = .start)
  exits := d.wires.foldl Exits.connect .empty

/-- The pass comes to the first violation, or else to the graph. -/
theorem assemble_eq (d : GraphDocument) :
    d.assemble =
      match d.violation? with
      | some e => .error e
      | none => .ok d.wired := by
  unfold assemble violation?
  rw [length_startNodes]
  by_cases many : 1 < d.starts.length
  · rw [if_pos many, if_pos many]
  · rw [if_neg many, if_neg many, foldlM_wireUp, head?_startNodes]
    cases d.wires.findSome? d.wireViolation? <;> rfl

theorem assemble_eq_ok_iff {t : WiredGraph} : d.assemble = .ok t ↔ d.WellFormed ∧ d.wired = t := by
  rw [assemble_eq, ← violation?_eq_none_iff]
  cases d.violation? <;> simp

theorem assemble_eq_error_iff : d.assemble = .error e ↔ d.FirstViolation e := by
  rw [assemble_eq, ← violation?_eq_some_iff]
  cases d.violation? <;> simp

theorem exists_assemble_iff (d : GraphDocument) : (∃ t, d.assemble = .ok t) ↔ d.WellFormed := by
  simp only [assemble_eq_ok_iff, exists_and_left, exists_eq', and_true]

/-- The links of a port of the assembled graph are those of its wires, in order. -/
theorem outputs_wired (d : GraphDocument) (n : NodeId) (port : Port) :
    d.wired.outputs n port =
      (d.wires.filter fun w => w.source = n ∧ w.port = port).map Wire.link :=
  Exits.links_foldl d.wires .empty n port

/-- Every wire is entered once. -/
theorem wireCount_wired (d : GraphDocument) : d.wired.wireCount = d.wires.length := by
  have counted : ∀ (wires : List Wire) (exits : Exits),
      total List.length (wires.foldl Exits.connect exits).values =
        total List.length exits.values + wires.length := by
    intro wires
    induction wires with
    | nil => exact fun _ => rfl
    | cons w wires ih =>
      intro exits
      have entered := Registry.total_values_insert (f := List.length) exits (w.source, w.port)
        (exits.links w.source w.port ++ [w.link])
      have before : (exits.links w.source w.port).length =
          ((exits.find? (w.source, w.port)).map List.length).getD 0 := by
        unfold Exits.links
        cases exits.find? (w.source, w.port) <;> rfl
      rw [List.length_append, List.length_singleton] at entered
      rw [List.foldl_cons, ih, Exits.connect, List.length_cons]
      omega
  exact (counted d.wires .empty).trans (Nat.zero_add _)

end GraphDocument

/-- A graph of which everything that is asked is answered as a rule graph answers it. -/
structure WiredGraph.Agrees (t : WiredGraph) (g : RuleGraph) : Prop where
  id : t.id = g.id
  start? : t.start? = g.start?
  kind? : ∀ n, t.kind? n = g.kind? n
  outputs : ∀ n port, t.outputs n port = g.outputs n port
  wireCount : t.wireCount = g.wireCount
  toDocument : t.toDocument = g.toDocument

theorem RuleGraph.wired_agrees (g : RuleGraph) : g.document.wired.Agrees g where
  id := rfl
  start? := rfl
  kind? := fun _ => rfl
  outputs := g.document.outputs_wired
  wireCount := g.document.wireCount_wired
  toDocument := by
    have wires : ∀ n, g.document.wired.portWires n = g.portWires n := by
      intro n
      funext port
      unfold WiredGraph.portWires portWires
      rw [g.document.outputs_wired]
      rfl
    unfold WiredGraph.toDocument toDocument
    simp only [wires]
    rfl

/-! ## Drafts -/

namespace GraphDocument

theorem draft_eq_of_steps {d : GraphDocument} {steps : List DraftStep}
    (nodes : steps.filterMap DraftStep.kind? = d.nodes)
    (wires : steps.filterMap DraftStep.wire? = d.wires) : draft d.id steps = d := by
  rw [draft_eq, nodes, wires]

/-- Every document can be drafted: its nodes first, then its wires. -/
theorem exists_draft_eq (d : GraphDocument) : ∃ steps, draft d.id steps = d := by
  refine ⟨d.nodes.map DraftStep.node ++ d.wires.map DraftStep.ofWire, draft_eq_of_steps ?_ ?_⟩
  · rw [List.filterMap_append, List.filterMap_map, List.filterMap_map]
    have none : DraftStep.kind? ∘ DraftStep.ofWire = fun _ => none :=
      funext DraftStep.kind?_ofWire
    have some : DraftStep.kind? ∘ DraftStep.node = some := rfl
    rw [none, some]
    simp
  · rw [List.filterMap_append, List.filterMap_map, List.filterMap_map]
    have none : DraftStep.wire? ∘ DraftStep.node = fun _ => none := rfl
    have some : DraftStep.wire? ∘ DraftStep.ofWire = some := funext DraftStep.wire?_ofWire
    rw [none, some]
    simp

end GraphDocument

/-! ## Loading a library -/

theorem RuleGraph.ofJson_eq_ok_iff {v : Json} {g : RuleGraph} :
    RuleGraph.ofJson v = .ok g ↔ GraphDocument.ofJson? v = some g.document := by
  unfold RuleGraph.ofJson
  cases GraphDocument.ofJson? v with
  | none => exact ⟨nofun, nofun⟩
  | some d =>
    have valid : d.validate = .ok g ↔ some d = some g.document := by
      rw [GraphDocument.validate_eq_ok_iff, Option.some_inj, eq_comm]
    rw [← valid]
    cases checked : d.validate <;> simp [checked]

namespace RuleLibrary

theorem graph?_insert (l : RuleLibrary) (g : RuleGraph) (rule : String) :
    (l.insert g).graph? rule = if rule = g.id then some g else l.graph? rule :=
  Registry.find?_insert ..

theorem graph?_foldl_insert (graphs : List RuleGraph) (l : RuleLibrary) (rule : String) :
    (graphs.foldl insert l).graph? rule =
      ((graphs.filter (·.id = rule)).getLast?).or (l.graph? rule) := by
  induction graphs generalizing l with
  | nil => rfl
  | cons g graphs ih =>
    rw [List.foldl_cons, ih, graph?_insert]
    by_cases here : g.id = rule
    · rw [if_pos here.symm, List.filter_cons_of_pos (by simpa using here), List.getLast?_cons]
      cases (graphs.filter (·.id = rule)).getLast? <;> rfl
    · rw [if_neg (Ne.symm here), List.filter_cons_of_neg (by simpa using here)]

/-- Of several graphs with one id the last stays. -/
theorem graph?_ofList (graphs : List RuleGraph) (rule : String) :
    (ofList graphs).graph? rule = (graphs.filter (·.id = rule)).getLast? := by
  rw [ofList, graph?_foldl_insert]
  exact Option.or_none

theorem ofJson_eq_ok_iff {v : Json} {l : RuleLibrary} :
    ofJson v = .ok l ↔ ∃ items graphs, v = .array items ∧ l = ofList graphs ∧
      List.Forall₂ (fun item g => GraphDocument.ofJson? item = some g.document) items graphs := by
  cases v with
  | scalar s => exact ⟨nofun, fun ⟨_, _, same, _⟩ => nomatch same⟩
  | object fields => exact ⟨nofun, fun ⟨_, _, same, _⟩ => nomatch same⟩
  | array items =>
    simp only [← RuleGraph.ofJson_eq_ok_iff, ← mapM_eq_ok_iff]
    unfold ofJson
    cases read : items.mapM RuleGraph.ofJson with
    | error e => simp [Except.map, read]
    | ok graphs => simp [Except.map, read, eq_comm]

/-- A text loads as a library if it is an array of documents that can be assembled. -/
theorem exists_ofText_iff (text : String) :
    (∃ l, ofText text = .ok l) ↔ ∃ items, Json.parse? text = some (.array items) ∧
      ∀ item ∈ items, ∃ d t, GraphDocument.ofJson? item = some d ∧ d.assemble = .ok t := by
  have admitted : ∀ item, (∃ g, RuleGraph.ofJson item = .ok g) ↔
      ∃ d t, GraphDocument.ofJson? item = some d ∧ d.assemble = .ok t := by
    intro item
    simp only [RuleGraph.ofJson_eq_ok_iff, GraphDocument.assemble_eq_ok_iff]
    constructor
    · exact fun ⟨g, read⟩ => ⟨g.document, _, read, g.wellFormed, rfl⟩
    · exact fun ⟨d, _, read, fits, _⟩ => ⟨⟨d, fits⟩, read⟩
  have all : ∀ items : List Json, (∀ item ∈ items, ∃ g, RuleGraph.ofJson item = .ok g) ↔
      ∃ graphs : List RuleGraph,
        List.Forall₂ (fun item g => GraphDocument.ofJson? item = some g.document) items graphs := by
    intro items
    rw [← exists_mapM_eq_ok_iff]
    simp only [mapM_eq_ok_iff, RuleGraph.ofJson_eq_ok_iff]
  simp only [← admitted, all]
  constructor
  · rintro ⟨l, loaded⟩
    obtain ⟨v, parsed, read⟩ := Json.readText_eq_ok_iff.1 loaded
    obtain ⟨items, graphs, rfl, -, each⟩ := ofJson_eq_ok_iff.1 read
    exact ⟨items, parsed, graphs, each⟩
  · rintro ⟨items, parsed, graphs, each⟩
    exact ⟨ofList graphs,
      Json.readText_eq_ok_iff.2 ⟨_, parsed, ofJson_eq_ok_iff.2 ⟨items, graphs, rfl, rfl, each⟩⟩⟩

/-- Every graph of a library that was loaded is one of the documents of the text. -/
theorem exists_item_of_graph? {text rule : String} {l : RuleLibrary} {g : RuleGraph}
    (loaded : ofText text = .ok l) (found : l.graph? rule = some g) :
    ∃ items, Json.parse? text = some (.array items) ∧
      ∃ item ∈ items, GraphDocument.ofJson? item = some g.document := by
  obtain ⟨v, parsed, read⟩ := Json.readText_eq_ok_iff.1 loaded
  obtain ⟨items, graphs, rfl, rfl, each⟩ := ofJson_eq_ok_iff.1 read
  rw [graph?_ofList] at found
  have met : g ∈ graphs := (List.mem_filter.1 (List.mem_of_getLast? found)).1
  obtain ⟨item, hitem, read⟩ := exists_of_forall₂ each met
  exact ⟨items, parsed, item, hitem, read⟩

end RuleLibrary

/-! ## Exactly what is accepted -/

/-- The pass over a document accepts what is well formed and nothing else, and no wire of it
enters a Start node. Of what it refuses it reports the first violation; of what it accepts it
makes a graph in which the links of a port are those of its wires, in order, and which answers as
the validated document does. A draft, in however its nodes and wires take turns, comes to the
same as the document with these nodes and wires, and every document can be drafted. A text loads
as a library if it is an array of documents that are all accepted, and then every graph of the
library is one of them. -/
theorem GraphDocument.assembly_exact :
    (∀ d : GraphDocument,
      ((∃ t, d.assemble = .ok t) ↔ d.WellFormed) ∧
      (d.WellFormed → ∀ w ∈ d.wires, d.nodes[w.dest]? ≠ some .start) ∧
      (∀ e, d.assemble = .error e ↔ d.FirstViolation e) ∧
      (∀ e, d.validate = .error e ↔ d.FirstViolation e) ∧
      (∀ t, d.assemble = .ok t →
        (∃ g, d.validate = .ok g ∧ t.Agrees g) ∧
        ∀ n port, t.outputs n port =
          (d.wires.filter fun w => w.source = n ∧ w.port = port).map Wire.link) ∧
      (∀ steps, steps.filterMap DraftStep.kind? = d.nodes →
        steps.filterMap DraftStep.wire? = d.wires →
        (draft d.id steps).assemble = d.assemble) ∧
      ∃ steps, draft d.id steps = d) ∧
    ∀ text,
      ((∃ l, RuleLibrary.ofText text = .ok l) ↔
        ∃ items, Json.parse? text = some (.array items) ∧
          ∀ item ∈ items, ∃ d t, GraphDocument.ofJson? item = some d ∧ d.assemble = .ok t) ∧
      ∀ l rule g, RuleLibrary.ofText text = .ok l → l.graph? rule = some g →
        ∃ items, Json.parse? text = some (.array items) ∧
          ∃ item ∈ items, GraphDocument.ofJson? item = some g.document ∧
            g.document.assemble = .ok g.document.wired := by
  refine ⟨fun d => ⟨d.exists_assemble_iff, ?_, fun e => assemble_eq_error_iff,
    fun e => validate_eq_error_iff, ?_, ?_, d.exists_draft_eq⟩, fun text =>
    ⟨RuleLibrary.exists_ofText_iff text, ?_⟩⟩
  · exact fun fits w hw => fits.dest_ne_start hw
  · intro t assembled
    obtain ⟨fits, rfl⟩ := assemble_eq_ok_iff.1 assembled
    let g : RuleGraph := ⟨d, fits⟩
    exact ⟨⟨g, validate_eq_ok_iff.2 rfl, g.wired_agrees⟩, d.outputs_wired⟩
  · intro steps nodes wires
    rw [draft_eq_of_steps nodes wires]
  · intro l rule g loaded found
    obtain ⟨items, parsed, item, met, read⟩ := RuleLibrary.exists_item_of_graph? loaded found
    exact ⟨items, parsed, item, met, read, assemble_eq_ok_iff.2 ⟨g.wellFormed, rfl⟩⟩

/-- Of a wire through a port that its source lacks and a wire to nowhere the first is reported. With
both mended, the two wires of the Start node are the links of its port, in order. -/
theorem GraphDocument.assembly_exact_mended :
    let nodes : List NodeKind := [.start, .gender, .warning "both"]
    let run : Wire := ⟨0, .run, 2, none⟩
    let again : Wire := ⟨0, .run, 1, some .target⟩
    let muddled : GraphDocument :=
      ⟨"rule", nodes, [run, ⟨1, .true, 2, some .dual⟩, ⟨0, .run, 7, none⟩]⟩
    let mended : GraphDocument := ⟨"rule", nodes, [run, ⟨1, .male, 2, none⟩, again]⟩
    muddled.assemble = .error (.invalidPort "rule" 1 .gender .true) ∧
      ∃ t, mended.assemble = .ok t ∧ t.outputs 0 .run = [run.link, again.link] := by
  intro nodes run again muddled mended
  obtain ⟨-, -, refused, -⟩ := assembly_exact.1 muddled
  obtain ⟨accepted, -, -, -, outputs, -⟩ := assembly_exact.1 mended
  have fits : mended.WellFormed := (violation?_eq_none_iff mended).1 rfl
  obtain ⟨t, assembled⟩ := accepted.2 fits
  refine ⟨(refused _).2 ?_, t, assembled, (outputs t assembled).2 0 .run⟩
  have first : muddled.WireFits run := (wireViolation?_eq_none_iff muddled run).1 rfl
  have split : muddled.wires = [run] ++ ⟨1, .true, 2, some .dual⟩ :: [⟨0, .run, 7, none⟩] := rfl
  refine .wire (by decide) split ?_ (.port rfl rfl (by decide))
  exact fun u hu => List.mem_singleton.1 hu ▸ first

end Stratagem
