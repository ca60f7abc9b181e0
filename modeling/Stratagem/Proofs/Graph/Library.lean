import Mathlib.Data.String.Basic
import Stratagem.Proofs.Graph.Assembly
import Stratagem.Proofs.Graph.Document
import Stratagem.Proofs.Graph.Relisting
import Stratagem.Proofs.Sorting
import Stratagem.Proofs.Walk.Renaming

/-!
# Saving and loading a library

The text of a library lists its graphs in the order of their ids. Loading it validates the document
of each graph once more and gives a library of the same rules, in which each graph has its wires
listed anew.

* `RuleGraph.ofJson_toJson`: a graph is read back as it is listed.
* `RuleLibrary.reloaded` is the library that loading gives, and `RuleLibrary.graph?_reloaded` its
  graphs.
* `Arbiter.events_of_matches`: rules that match are judged alike.
* `RuleLibrary.text_round_trip` is the result.
-/

namespace Stratagem

/-! ## One graph -/

namespace RuleGraph

theorem ofJson_toJson (g : RuleGraph) : RuleGraph.ofJson g.toJson = .ok g.relisted :=
  ofJson_eq_ok_iff.2 g.toDocument.ofJson?_toJson

/-- The wires of a graph whose nodes are numbered by 64-bit words name them by such words. -/
theorem numbered_of_mem {g : RuleGraph} {w : Wire} (few : g.nodeCount ≤ UInt64.size)
    (hw : w ∈ g.document.wires) : w.Numbered := by
  obtain ⟨⟨source, known, -⟩, dest, known', -⟩ := g.wellFormed.wires_fit w hw
  exact ⟨Nat.lt_of_lt_of_le (lt_nodeCount known) few,
    Nat.lt_of_lt_of_le (lt_nodeCount known') few⟩

theorem writable_toJson {g : RuleGraph} (few : g.nodeCount ≤ UInt64.size) :
    g.toJson.Writable 4 :=
  GraphDocument.writable_toJson fun _ hw => numbered_of_mem few (mem_of_mem_toDocument hw)

end RuleGraph

/-! ## Judging rules that match -/

/-- A graph that matches has the same shape, with every node under its own name. -/
theorem embeds_of_matches {g h : RuleGraph} (same : g.Matches h) : g.Embeds id h where
  start := by rw [same.start?, Option.map_id, id]
  injective := fun _ _ _ _ equal => equal
  kind := by
    intro n _
    unfold RuleGraph.kind?
    rw [same.nodes, id]
  outputs := by
    intro n port _
    have kept : Link.rename id = id := rfl
    rw [kept, List.map_id]
    exact same.outputs n port

/-- Rules whose graphs match leave the same record, whatever is judged by them. -/
theorem Arbiter.events_of_matches (a : Arbiter) {rules : String → Option RuleGraph}
    (same : ∀ rule, Option.Rel RuleGraph.Matches (a.rules rule) (rules rule)) (world : World)
    (rule : String) (scheme : Option Scheme) (p : Parties) :
    (a.withRules rules).events world rule scheme p = a.events world rule scheme p := by
  have here := same rule
  generalize known : a.rules rule = found at here
  generalize known' : rules rule = found' at here
  cases here with
  | none => simp only [events, withRules, known, known']
  | some fit =>
    rw [events_rename (embeds_of_matches fit) known known']
    exact (List.map_congr_left fun x _ => x.rename_id).trans (List.map_id _)

/-! ## The whole library -/

namespace RuleLibrary

variable {l : RuleLibrary} {graphs : List RuleGraph}

/-- A library enters each graph under its own id. -/
theorem graphs_ofList (graphs : List RuleGraph) :
    (ofList graphs).graphs = Registry.ofList (graphs.map fun g => (g.id, g)) := by
  have entered (l : RuleLibrary) : (graphs.foldl insert l).graphs =
      (graphs.map fun g => (g.id, g)).foldl (fun r pair => r.insert pair.1 pair.2) l.graphs := by
    induction graphs generalizing l with
    | nil => rfl
    | cons g graphs ih => exact ih (l.insert g)
  exact entered empty

/-- Graphs with different ids are entered one behind the other. -/
theorem entries_ofList (distinct : (graphs.map RuleGraph.id).Nodup) :
    (ofList graphs).graphs.entries = graphs.map fun g => (g.id, g) := by
  have ids : (graphs.map fun g => (g.id, g)).map Prod.fst = graphs.map RuleGraph.id := by
    rw [List.map_map]
    rfl
  rw [graphs_ofList, Registry.entries_ofList (ids ▸ distinct)]

theorem values_ofList (distinct : (graphs.map RuleGraph.id).Nodup) :
    (ofList graphs).graphs.values = graphs := by
  rw [Registry.values, entries_ofList distinct, List.map_map]
  exact List.map_id _

theorem keys_ofList (distinct : (graphs.map RuleGraph.id).Nodup) :
    (ofList graphs).graphs.keys = graphs.map RuleGraph.id := by
  rw [Registry.keys, entries_ofList distinct, List.map_map]
  rfl

/-- The keys of a library are the ids of its graphs. -/
theorem map_id_values (l : RuleLibrary) : l.graphs.values.map RuleGraph.id = l.graphs.keys := by
  rw [Registry.values, Registry.keys, List.map_map]
  exact List.map_congr_left fun entry met => (l.keyed entry met).symm

theorem toList_perm (l : RuleLibrary) : l.toList.Perm l.graphs.values := List.mergeSort_perm ..

theorem ids_perm (l : RuleLibrary) : (l.toList.map RuleGraph.id).Perm l.graphs.keys :=
  l.map_id_values ▸ l.toList_perm.map RuleGraph.id

theorem nodup_ids (l : RuleLibrary) : (l.toList.map RuleGraph.id).Nodup :=
  l.ids_perm.nodup_iff.2 l.graphs.nodup_keys

/-- The graphs are listed in ascending order of their ids. -/
theorem pairwise_toList (l : RuleLibrary) : l.toList.Pairwise fun a b => a.id ≤ b.id :=
  pairwise_mergeSort_key RuleGraph.id l.graphs.values

/-- The library that is loaded from the text of a library. -/
def reloaded (l : RuleLibrary) : RuleLibrary := ofList (l.toList.map RuleGraph.relisted)

theorem ids_relisted (l : RuleLibrary) :
    (l.toList.map RuleGraph.relisted).map RuleGraph.id = l.toList.map RuleGraph.id := by
  rw [List.map_map]
  rfl

theorem ofJson_toJson (l : RuleLibrary) : ofJson l.toJson = .ok l.reloaded := by
  refine ofJson_eq_ok_iff.2 ⟨_, _, rfl, rfl, ?_⟩
  rw [List.forall₂_map_left_iff, List.forall₂_map_right_iff, List.forall₂_same]
  exact fun g _ => RuleGraph.ofJson_eq_ok_iff.1 g.ofJson_toJson

theorem keys_reloaded (l : RuleLibrary) : l.reloaded.graphs.keys = l.toList.map RuleGraph.id := by
  rw [reloaded, keys_ofList (l.ids_relisted ▸ l.nodup_ids), ids_relisted]

theorem ruleIds_reloaded (l : RuleLibrary) : l.reloaded.ruleIds = l.ruleIds := by
  have distinct : ∀ a ∈ l.toList.map RuleGraph.id, ∀ b ∈ l.toList.map RuleGraph.id,
      id a = id b → a = b := fun _ _ _ _ same => same
  unfold ruleIds
  rw [keys_reloaded]
  exact mergeSort_key_eq_of_perm l.ids_perm distinct

/-- A rule of the reloaded library is the rule of the library, listed anew. -/
theorem graph?_reloaded (l : RuleLibrary) (rule : String) :
    l.reloaded.graph? rule = (l.graph? rule).map RuleGraph.relisted := by
  cases found : l.graph? rule with
  | none =>
    have missing : rule ∉ l.graphs.keys := (l.graphs.find?_eq_none_iff rule).1 found
    refine (l.reloaded.graphs.find?_eq_none_iff rule).2 ?_
    rw [keys_reloaded, l.ids_perm.mem_iff]
    exact missing
  | some g =>
    have own : g.id = rule := (l.keyed _ (Registry.mem_of_find? found)).symm
    have met : g ∈ l.toList := l.toList_perm.mem_iff.2 (Registry.mem_values_of_find? found)
    have entry : (rule, g.relisted) ∈ l.reloaded.graphs.entries := by
      rw [reloaded, entries_ofList (l.ids_relisted ▸ l.nodup_ids), ← own]
      exact List.mem_map.2 ⟨g.relisted, List.mem_map_of_mem met, rfl⟩
    exact Registry.find?_of_mem entry

/-- The reloaded library lists its graphs as the library does. -/
theorem toList_reloaded (l : RuleLibrary) :
    l.reloaded.toList = l.toList.map RuleGraph.relisted := by
  have values : l.reloaded.graphs.values = l.toList.map RuleGraph.relisted :=
    values_ofList (l.ids_relisted ▸ l.nodup_ids)
  rw [toList, values]
  refine List.mergeSort_of_pairwise (List.pairwise_map.2 ?_)
  exact l.pairwise_toList.imp fun h => decide_eq_true h

theorem text_reloaded (l : RuleLibrary) : l.reloaded.text = l.text := by
  have listed : ∀ g : RuleGraph, g.relisted.toJson = g.toJson := fun g =>
    congrArg GraphDocument.toJson g.toDocument_relisted
  unfold text toJson Json.ofList
  rw [toList_reloaded, List.map_map]
  simp only [Function.comp_def, listed]

/-- The text of a library whose nodes are numbered by 64-bit words is read as what was written. -/
theorem parse?_text (few : ∀ g ∈ l.toList, g.nodeCount ≤ UInt64.size) :
    Json.parse? l.text = some l.toJson := by
  have writable : l.toJson.Writable 5 := by
    intro item met
    obtain ⟨g, hg, rfl⟩ := List.mem_map.1 met
    exact RuleGraph.writable_toJson (few g hg)
  exact Json.parse?_pretty writable (by decide)

/-- Every rule of the reloaded library matches the rule of the library. -/
theorem matches_reloaded (l : RuleLibrary) (rule : String) :
    Option.Rel RuleGraph.Matches (l.graph? rule) (l.reloaded.graph? rule) := by
  rw [graph?_reloaded]
  cases l.graph? rule with
  | none => exact .none
  | some g => exact .some g.matches_relisted

/-! ## The round trip -/

/-- What a library is written as can be loaded, and gives a library of the same rules: the graph of
each has the same id, nodes, Start node and links, the wires of a port in the same order. So
whatever is judged by the one is judged alike by the other, and the other is written as the same
text. The text itself, not only the value it stands for, loads if it is parsed as that value, which
it is as long as nodes are numbered by 64-bit words. Of several graphs with one id in a text, the
last is the one that stays. -/
theorem text_round_trip (l : RuleLibrary) :
    (∃ l' : RuleLibrary, ofJson l.toJson = .ok l' ∧
      (Json.parse? l.text = some l.toJson → ofText l.text = .ok l') ∧
      ((∀ rule g, l.graph? rule = some g → g.nodeCount ≤ UInt64.size) →
        Json.parse? l.text = some l.toJson) ∧
      l'.ruleIds = l.ruleIds ∧
      (∀ rule, Option.Rel RuleGraph.Matches (l.graph? rule) (l'.graph? rule)) ∧
      (∀ (a : Arbiter) (world : World) (p : Parties),
        (∀ rule, (a.withRules l'.graph?).judge world rule p =
          (a.withRules l.graph?).judge world rule p) ∧
        ∀ s : Scheme, (a.withRules l'.graph?).judgeScheme world s p =
            (a.withRules l.graph?).judgeScheme world s p ∧
          s.check (a.withRules l'.graph?) world p = s.check (a.withRules l.graph?) world p) ∧
      l'.text = l.text) ∧
    ∀ (text : String) (items : List Json) (graphs : List RuleGraph),
      Json.parse? text = some (.array items) →
      List.Forall₂ (fun item g => GraphDocument.ofJson? item = some g.document) items graphs →
      ∃ loaded, ofText text = .ok loaded ∧
        ∀ rule, loaded.graph? rule = (graphs.filter (·.id = rule)).getLast? := by
  refine ⟨⟨l.reloaded, l.ofJson_toJson, fun parsed => ?_, fun few => ?_, l.ruleIds_reloaded,
    l.matches_reloaded, ?_, l.text_reloaded⟩, fun text items graphs parsed each => ?_⟩
  · exact Json.readText_eq_ok_iff.2 ⟨_, parsed, l.ofJson_toJson⟩
  · have few' : ∀ g ∈ l.toList, g.nodeCount ≤ UInt64.size := by
      intro g met
      obtain ⟨rule, found⟩ :=
        Registry.exists_find?_of_mem_values (l.toList_perm.mem_iff.1 met)
      exact few rule g found
    exact parse?_text few'
  · intro a world p
    have alike : ∀ rule scheme, (a.withRules l.reloaded.graph?).events world rule scheme p =
        (a.withRules l.graph?).events world rule scheme p := fun rule scheme =>
      (a.withRules l.graph?).events_of_matches l.matches_reloaded world rule scheme p
    refine ⟨fun rule => congrArg Verdict.ofEvents (alike rule none), fun s =>
      ⟨congrArg Verdict.ofEvents (alike s.ruleId (some s)), congrArg Verdict.ofEvents ?_⟩⟩
    unfold Scheme.events
    rw [alike]
  · exact ⟨ofList graphs, Json.readText_eq_ok_iff.2 ⟨_, parsed,
      ofJson_eq_ok_iff.2 ⟨items, graphs, rfl, rfl, each⟩⟩, graph?_ofList graphs⟩

/-- A graph with two wires at one port, listed behind a wire of a later node, comes back with all of
them, the two in the order in which they were. -/
theorem text_round_trip_reordered :
    let d : GraphDocument :=
      ⟨"rule", [.start, .gender, .error "no"],
        [⟨1, .male, 2, none⟩, ⟨0, .run, 2, none⟩, ⟨0, .run, 1, some .target⟩]⟩
    ∃ (g : RuleGraph) (l' : RuleLibrary), g.document = d ∧ ofText (empty.insert g).text = .ok l' ∧
      l'.ruleIds = ["rule"] ∧ ∃ h, l'.graph? "rule" = some h ∧
        h.outputs 0 .run = [⟨2, none⟩, ⟨1, some .target⟩] ∧ h.outputs 1 .male = [⟨2, none⟩] := by
  intro d
  let g : RuleGraph := ⟨d, d.violation?_eq_none_iff.1 rfl⟩
  obtain ⟨⟨l', -, loaded, parsed, ids, same, -⟩, -⟩ := text_round_trip (empty.insert g)
  have found : ∀ rule h, (empty.insert g).graph? rule = some h → h = g := by
    intro rule h found
    rw [graph?_insert] at found
    split at found
    · exact (Option.some.inj found).symm
    · exact nomatch found
  have few : ∀ rule h, (empty.insert g).graph? rule = some h → h.nodeCount ≤ UInt64.size := by
    intro rule h here
    rw [found rule h here]
    decide
  have here : (empty.insert g).graph? "rule" = some g := rfl
  have fit := same "rule"
  rw [here] at fit
  generalize known : l'.graph? "rule" = other at fit
  cases fit with
  | @some _ h fit =>
    exact ⟨g, l', rfl, loaded (parsed few), ids.trans (List.mergeSort_singleton _), h, known,
      fit.outputs 0 .run, fit.outputs 1 .male⟩

end RuleLibrary

end Stratagem
