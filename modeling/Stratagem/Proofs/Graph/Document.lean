import Stratagem.Graph.Document
import Stratagem.Proofs.Variable.Document

/-!
# Documents of graphs are read back

Every part of a graph document is read back from what it is written as: ports, channels, selectors,
kinds with their fields, wires with or without a channel, and the document as a whole.

* `NodeKind.ofJson?_toJson`, `Wire.ofJson?_toJson` and `GraphDocument.ofJson?_toJson` say so.
* `GraphDocument.writable_toJson`: a document can be written as text if its wires name nodes by
  64-bit words.
-/

namespace Stratagem

open Json

/-! ## Reading back -/

theorem Port.ofJson?_toJson (p : Port) : Port.ofJson? p.toJson = some p := by
  cases p <;> rfl

theorem Channel.ofJson?_toJson (c : Channel) : Channel.ofJson? c.toJson = some c := by
  cases c <;> rfl

theorem Selector.ofJson?_toJson {kind : IdKind} (s : Selector (Id kind)) :
    Selector.ofJson? s.toJson = some s := by
  cases s with
  | fixed id => simp [toJson, ofJson?, asChoice?, Id.asId?_toJson]
  | invoked method => rfl

namespace NodeKind

theorem isReadable_toJson (k : NodeKind) : k.toJson.isReadable = true := by
  have selector : ∀ {kind : IdKind} (s : Selector (Id kind)), s.toJson.isReadable = true := by
    intro kind s
    cases s <;> rfl
  cases k <;> simp [toJson, fields, isReadable, fieldsReadable, selector, Id.toJson]

/-- A kind with one field is read from the record that it is written as. -/
theorem withFieldOfJson?_record {α : Type} {name : String} {read : Json → Option α}
    {k : α → NodeKind} {tag v : Json} {a : α} (other : name ≠ "kind") (back : read v = some a) :
    withFieldOfJson? name read k (.object [("kind", tag), (name, v)]) = some (k a) := by
  have differ : (name == "kind") = false := by simpa using other
  simp [withFieldOfJson?, asRecord?, countKey, Record.required, Record.get?, List.lookup_cons, differ,
    other.symm, back]

theorem plainOfJson?_record (k : NodeKind) (fields : List (String × Json)) :
    plainOfJson? k (.object fields) = some k := rfl

theorem ofTagged?_toJson (k : NodeKind) : ofTagged? k.tag k.toJson = some k := by
  cases k with
  | getActor actor => exact withFieldOfJson?_record (by decide) actor.ofJson?_toJson
  | getClan clan => exact withFieldOfJson?_record (by decide) clan.ofJson?_toJson
  | getRole role => exact withFieldOfJson?_record (by decide) role.asId?_toJson
  | getFamily family => exact withFieldOfJson?_record (by decide) family.ofJson?_toJson
  | invoke method => exact withFieldOfJson?_record (by decide) rfl
  | error message => exact withFieldOfJson?_record (by decide) rfl
  | warning message => exact withFieldOfJson?_record (by decide) rfl
  | _ => exact plainOfJson?_record _ _

/-- No field of a kind is called as its tag is. -/
theorem countKey_kind (k : NodeKind) :
    countKey "kind" (("kind", .string k.tag) :: k.fields) = 1 := by
  cases k <;> rfl

theorem ofJson?_toJson (k : NodeKind) : ofJson? k.toJson = some k := by
  have whole : ofWhole? k.toJson = ofTagged? k.tag k.toJson := by
    unfold toJson
    simp [ofWhole?, asRecord?, countKey_kind, Record.required, Record.get?, asString?]
  rw [ofJson?, if_pos k.isReadable_toJson, whole, ofTagged?_toJson]

end NodeKind

theorem Wire.ofJson?_toJson (w : Wire) : Wire.ofJson? w.toJson = some w := by
  obtain ⟨source, port, dest, channel⟩ := w
  have back : asOption? Channel.ofJson? (.ofOption Channel.toJson channel) = some channel :=
    asOption?_ofOption rfl Channel.ofJson?_toJson channel
  simp [toJson, ofJson?, asRecord?, countKey, Record.required, Record.withDefault, Record.get?,
    List.lookup_cons, asNat?, Port.ofJson?_toJson, back]

theorem GraphDocument.ofJson?_toJson (d : GraphDocument) :
    GraphDocument.ofJson? d.toJson = some d := by
  have nodes := asList?_ofList fun k (_ : k ∈ d.nodes) => k.ofJson?_toJson
  have wires := asList?_ofList fun w (_ : w ∈ d.wires) => w.ofJson?_toJson
  simp [toJson, ofJson?, asRecord?, countKey, Record.required, Record.withDefault, Record.get?,
    List.lookup_cons, asString?, nodes, wires]

/-! ## Writing as text -/

theorem Selector.writable_toJson {kind : IdKind} (s : Selector (Id kind)) :
    s.toJson.Writable 1 := by
  cases s <;> exact fun field hf => List.mem_singleton.1 hf ▸ trivial

theorem NodeKind.writable_toJson (k : NodeKind) : k.toJson.Writable 2 := by
  have fields : ∀ field ∈ k.fields, field.2.Writable 1 := by
    cases k with
    | getActor selector | getClan selector | getFamily selector =>
      exact fun field hf => List.mem_singleton.1 hf ▸ selector.writable_toJson
    | getRole id | invoke text | error text | warning text =>
      exact fun field hf => List.mem_singleton.1 hf ▸ trivial
    | _ => exact fun field hf => nomatch hf
  intro field hf
  rcases List.mem_cons.1 hf with rfl | hf
  · trivial
  · exact fields field hf

/-- A wire whose ends are 64-bit words. -/
structure Wire.Numbered (w : Wire) : Prop where
  source : w.source < UInt64.size
  dest : w.dest < UInt64.size

theorem Wire.writable_toJson {w : Wire} (numbered : w.Numbered) : w.toJson.Writable 1 := by
  have channel : ∀ c : Channel, c.toJson.Writable 0 := fun _ => writable_string _ 0
  simp only [toJson, writable_object_iff, List.forall_mem_cons]
  exact ⟨writable_nat numbered.source 0, writable_string _ 0, writable_nat numbered.dest 0,
    writable_ofOption channel _, nofun⟩

theorem GraphDocument.writable_toJson {d : GraphDocument} (numbered : ∀ w ∈ d.wires, w.Numbered) :
    d.toJson.Writable 4 := by
  have nodes : (Json.ofList NodeKind.toJson d.nodes).Writable 3 :=
    writable_ofList (fun k => k.writable_toJson) d.nodes
  have wires : (Json.ofList Wire.toJson d.wires).Writable 3 := by
    intro v hv
    obtain ⟨w, hw, rfl⟩ := List.mem_map.1 hv
    exact (Wire.writable_toJson (numbered w hw)).mono (by decide)
  simp only [toJson, writable_object_iff, List.forall_mem_cons]
  exact ⟨writable_string _ 3, nodes, wires, nofun⟩

end Stratagem
