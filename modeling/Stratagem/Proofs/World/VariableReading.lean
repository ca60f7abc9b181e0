import Stratagem.Proofs.Variable.Soundness
import Stratagem.Proofs.World.Document
import Stratagem.Scheme.Document

/-!
# Sets of variables that are read

Sets of variables are read on their own, with a scheme, and with a world, for the world itself and
for each actor, clan and family. In all of these places a set is either missing, and empty, or one
array of the document, taken as it is. Reading makes no set sound: the changes of a set keep it
sound, but a set that is written with two variables of one name, or with an enumeration beyond its
options, is read with them.

* `Json.Within` is a part of a document, and `VariableSet.WrittenIn` a set that is one of its parts.
* `VariableSet.ReadFrom` is a set that is read from a document, and `VariableSet.ReadFrom.written`
  that it is written in it.
* `VariableSet.read_back`: every set of finite doubles is read back from its text.
* `VariableSet.reading_exact` is the result.
-/

namespace Stratagem

open Json

variable {α : Type}

/-! ## Parts of documents -/

namespace Json

/-- A value is a part of a document. -/
inductive Within (v : Json) : Json → Prop
  | whole : Within v v
  | item {items : List Json} {w : Json} : w ∈ items → Within v w → Within v (.array items)
  | field {fields : List (String × Json)} {name : String} {w : Json} :
      (name, w) ∈ fields → Within v w → Within v (.object fields)

theorem Within.trans {u v w : Json} (inner : u.Within v) (outer : v.Within w) : u.Within w := by
  induction outer with
  | whole => exact inner
  | item met _ ih => exact .item met ih
  | field met _ ih => exact .field met ih

theorem mem_of_lookup {fields : List (String × Json)} {name : String} {v : Json}
    (found : fields.lookup name = some v) : (name, v) ∈ fields := by
  obtain ⟨before, after, rfl, -⟩ := List.lookup_eq_some_iff.1 found
  simp

/-- A field of a record is a part of it. -/
theorem within_of_get? {doc v : Json} {names : List String} {r : Record} {name : String}
    (taken : doc.asRecord? names = some r) (given : r.get? name = some v) : v.Within doc := by
  have met : (name, v) ∈ r.given := mem_of_lookup given
  unfold asRecord? at taken
  split at taken
  · split at taken
    · obtain rfl := Option.some.inj taken
      exact .field met .whole
    · cases taken
  · split at taken
    · obtain rfl := Option.some.inj taken
      exact .item (List.of_mem_zip met).2 .whole
    · cases taken
  · cases taken

theorem within_of_required {doc : Json} {names : List String} {r : Record} {name : String}
    {read : Json → Option α} {a : α} (taken : doc.asRecord? names = some r)
    (given : r.required name read = some a) : ∃ v, v.Within doc ∧ read v = some a := by
  obtain ⟨v, there, back⟩ := Option.bind_eq_some_iff.1 given
  exact ⟨v, within_of_get? taken there, back⟩

end Json

namespace VariableSet

/-- A set is one of the parts of a document, or missing. -/
def WrittenIn (doc : Json) (s : VariableSet) : Prop :=
  s = .empty ∨ ∃ part : Json, part.Within doc ∧ ofJson? part = some s

theorem WrittenIn.within {part doc : Json} {s : VariableSet} (written : s.WrittenIn part)
    (inner : part.Within doc) : s.WrittenIn doc :=
  written.imp_right fun ⟨v, there, read⟩ => ⟨v, there.trans inner, read⟩

/-- The variables of a record are written in it, if it has any. -/
theorem writtenIn_of_withDefault {doc : Json} {names : List String} {r : Record} {s : VariableSet}
    (taken : doc.asRecord? names = some r)
    (given : r.withDefault "variables" .empty ofJson? = some s) : s.WrittenIn doc := by
  unfold Record.withDefault at given
  split at given
  · next v there => exact .inr ⟨v, within_of_get? taken there, given⟩
  · exact .inl (Option.some.inj given).symm

end VariableSet

/-! ## The five places -/

/-- What holds of all that is read behind a part holds of all that is read. -/
theorem forall_of_bind {β : Type} {P : β → Prop} {a? : Option α} {next : α → Option β}
    (each : ∀ a, a? = some a → ∀ b, next a = some b → P b) : ∀ b, a? >>= next = some b → P b := by
  intro b read
  obtain ⟨a, first, rest⟩ := Option.bind_eq_some_iff.1 read
  exact each a first b rest

section Places

variable {doc : Json}

/-- A record whose last field are the variables is read with those that are written in it. -/
theorem VariableSet.writtenIn_of_lastField {names : List String} {r : Record}
    {make : VariableSet → α} {vars : α → VariableSet} (taken : doc.asRecord? names = some r)
    (made : ∀ s, vars (make s) = s) :
    ∀ a, (r.withDefault "variables" .empty ofJson? >>= fun s => some (make s)) = some a →
      (vars a).WrittenIn doc := by
  refine forall_of_bind fun s given => ?_
  rintro _ ⟨⟩
  rw [made]
  exact writtenIn_of_withDefault taken given

theorem Actor.writtenIn : ∀ a, ofJson? doc = some a → a.vars.WrittenIn doc := by
  refine forall_of_bind fun r taken => ?_
  -- the other fields come first, and none of them matters
  iterate 11 refine forall_of_bind fun _ _ => ?_
  exact VariableSet.writtenIn_of_lastField taken fun _ => rfl

theorem Clan.writtenIn : ∀ c, ofJson? doc = some c → c.vars.WrittenIn doc := by
  refine forall_of_bind fun r taken => ?_
  iterate 4 refine forall_of_bind fun _ _ => ?_
  exact VariableSet.writtenIn_of_lastField taken fun _ => rfl

theorem Family.writtenIn : ∀ f, ofJson? doc = some f → f.vars.WrittenIn doc := by
  refine forall_of_bind fun r taken => ?_
  iterate 3 refine forall_of_bind fun _ _ => ?_
  exact VariableSet.writtenIn_of_lastField taken fun _ => rfl

theorem Scheme.writtenIn : ∀ x, ofJson? doc = some x → x.vars.WrittenIn doc := by
  refine forall_of_bind fun r taken => ?_
  iterate 5 refine forall_of_bind fun _ _ => ?_
  exact VariableSet.writtenIn_of_lastField taken fun _ => rfl

/-- Whatever is in a registry after pairs are entered was there before, or is one of them. -/
theorem Registry.mem_of_mem_foldl_insert {κ : Type} [DecidableEq κ] {pairs : List (κ × α)}
    {r : Registry κ α} {entry : κ × α}
    (met : entry ∈ (pairs.foldl (fun r pair => r.insert pair.1 pair.2) r).entries) :
    entry ∈ r.entries ∨ entry ∈ pairs := by
  induction pairs generalizing r with
  | nil => exact .inl met
  | cons pair pairs ih =>
    rcases ih met with earlier | later
    · rcases mem_insert earlier with rfl | old
      · exact .inr List.mem_cons_self
      · exact .inl old
    · exact .inr (List.mem_cons_of_mem _ later)

/-- A value of a registry is read from a part of its document. -/
theorem World.within_of_registryOfJson? {kind : IdKind} {read : Json → Option α}
    {r : Registry (Id kind) α} {a : α} (given : registryOfJson? read doc = some r)
    (met : a ∈ r.values) : ∃ v : Json, v.Within doc ∧ read v = some a := by
  cases doc with
  | scalar | array => cases given
  | object fields =>
    rw [registryOfJson?_object] at given
    obtain ⟨entries, listed, rfl⟩ := Option.map_eq_some_iff.1 given
    obtain ⟨entry, entered, rfl⟩ := List.mem_map.1 met
    have one : entry ∈ entries :=
      (Registry.mem_of_mem_foldl_insert entered).resolve_left List.not_mem_nil
    obtain ⟨field, there, read⟩ := exists_of_forall₂ (mapM_eq_some_iff.1 listed) one
    simp only [entryOfJson?, Option.bind_eq_bind, Option.bind_eq_some_iff, Option.pure_def,
      Option.some.injEq] at read
    obtain ⟨key, -, a, back, rfl⟩ := read
    exact ⟨field.2, .field there .whole, back⟩

/-- The sets of variables of a world and of everything in it. -/
def World.varSets (w : World) : List VariableSet :=
  w.actors.values.map (·.vars) ++ w.clans.values.map (·.vars) ++ w.families.values.map (·.vars) ++
    [w.vars]

/-- The variables of the entities in a registry are written in its document. -/
theorem World.writtenIn_of_registry {kind : IdKind} {read : Json → Option α}
    {r : Registry (Id kind) α} {vars : α → VariableSet} {names : List String} {record : Record}
    {name : String}
    (each : ∀ part a, read part = some a → (vars a).WrittenIn part)
    (taken : doc.asRecord? names = some record)
    (given : record.required name (registryOfJson? read) = some r) {s : VariableSet}
    (met : s ∈ r.values.map vars) : s.WrittenIn doc := by
  obtain ⟨a, there, rfl⟩ := List.mem_map.1 met
  obtain ⟨object, inner, entered⟩ := within_of_required taken given
  obtain ⟨part, inner', back⟩ := within_of_registryOfJson? entered there
  exact (each part a back).within (inner'.trans inner)

theorem World.writtenIn : ∀ w, ofJson? doc = some w → ∀ s ∈ w.varSets, s.WrittenIn doc := by
  refine forall_of_bind fun r taken => forall_of_bind fun actors readActors => ?_
  refine forall_of_bind fun clans readClans => forall_of_bind fun families readFamilies => ?_
  iterate 2 refine forall_of_bind fun _ _ => ?_
  refine forall_of_bind fun vars given => ?_
  rintro _ ⟨⟩ s met
  simp only [varSets, List.mem_append, List.mem_singleton] at met
  obtain ((met | met) | met) | rfl := met
  · exact writtenIn_of_registry (fun _ => Actor.writtenIn) taken readActors met
  · exact writtenIn_of_registry (fun _ => Clan.writtenIn) taken readClans met
  · exact writtenIn_of_registry (fun _ => Family.writtenIn) taken readFamilies met
  · exact VariableSet.writtenIn_of_withDefault taken given

end Places

/-! ## Reading -/

namespace VariableSet

/-- A set is read from a document, as that of a set, of a scheme or of a world. -/
inductive ReadFrom (doc : Json) : VariableSet → Prop
  | set {s : VariableSet} : ofJson? doc = some s → ReadFrom doc s
  | scheme {x : Scheme} : Scheme.ofJson? doc = some x → ReadFrom doc x.vars
  | world {w : World} {s : VariableSet} :
      World.ofJson? doc = some w → s ∈ w.varSets → ReadFrom doc s

variable {doc : Json} {s : VariableSet}

theorem ReadFrom.written (read : s.ReadFrom doc) : s.WrittenIn doc := by
  cases read with
  | set read => exact .inr ⟨doc, .whole, read⟩
  | scheme read => exact Scheme.writtenIn _ read
  | world read met => exact World.writtenIn _ read _ met

/-- What is written of a set is as sound as the set. -/
theorem WrittenIn.exists_items (written : s.WrittenIn doc) :
    s = .empty ∨ ∃ items, (Json.array items).Within doc ∧ ofJson? (.array items) = some s ∧
      (s.Sound ↔ ListsSoundly items) := by
  refine written.imp_right ?_
  rintro ⟨part, inner, read⟩
  obtain ⟨items, rfl, -⟩ := ofJson?_eq_some_iff.1 read
  exact ⟨items, inner, read, sound_iff_listsSoundly read⟩

/-- Every set of finite doubles is read back from its text, sound or not. -/
theorem read_back (finite : s.isFinite = true) :
    ∃ doc, parse? s.toJson.pretty = some doc ∧ ofJson? doc = some (s.map Variable.reread) := by
  obtain ⟨doc, reads, back⟩ := s.gives_toJson (n := 0)
  rw [finite, if_pos rfl] at back
  exact ⟨doc, parse?_pretty_of_readsAs reads (by decide), back⟩

theorem sound_reread : (s.map Variable.reread).Sound ↔ s.Sound := by
  have names : (s.map Variable.reread).names = s.names := List.map_map
  have selects (v : Variable) : v.reread.value.Selects ↔ v.value.Selects := by
    cases content : v.value with
    | float x => simp [Variable.reread, Value.reread, content, Value.Selects]
    | _ => simp [Variable.reread, Value.reread, content]
  constructor
  · rintro ⟨nodup, indices⟩
    exact ⟨names ▸ nodup, fun v met => (selects v).1 (indices _ (List.mem_map_of_mem met))⟩
  · rintro ⟨nodup, indices⟩
    refine ⟨names.symm ▸ nodup, fun u met => ?_⟩
    obtain ⟨v, there, rfl⟩ := List.mem_map.1 met
    exact (selects v).2 (indices v there)

/-- A set that is read is missing, and empty, or one array of the document. It is then sound exactly
if no two items of the array have one name and no enumeration is written with an index that is not
below the number of its options: reading does not see to it. What being sound comes to is that a
name is gone once it is removed, and that every enumeration has a label. Changes that add nothing
beyond its options make a sound set of the empty one and keep one that is sound. Saving and reading
again keeps it too, and mends nothing. -/
theorem reading_exact (doc : Json) (s : VariableSet) (read : s.ReadFrom doc) :
    (s = .empty ∨ ∃ items, (Json.array items).Within doc ∧ ofJson? (.array items) = some s ∧
      (s.Sound ↔ ListsSoundly items)) ∧
    (s.Sound ↔ (∀ name, (s.remove name).get? name = none) ∧
      ∀ v ∈ s.toList, v.kind = .enumeration → v.value.label?.isSome = true) ∧
    (∀ steps : List SetStep, (∀ v, .edit (.add v) ∈ steps → v.value.Selects) →
      (after steps).Sound ∧ (s.Sound → (steps.foldl SetStep.apply s).Sound)) ∧
    (s.isFinite = true → ∃ copy back, parse? s.toJson.pretty = some copy ∧
      ofJson? copy = some back ∧ (back.Sound ↔ s.Sound)) := by
  refine ⟨read.written.exists_items, sound_iff, fun steps adds => ?_, fun finite => ?_⟩
  · exact ⟨sound_after adds, fun sound => sound.foldl_apply adds⟩
  · obtain ⟨copy, parsed, back⟩ := read_back finite
    exact ⟨copy, _, parsed, back, sound_reread⟩

/-- Gold and a mood among the moods are read from their text, which lists them soundly. -/
theorem reading_exact_gold :
    let gold : Variable := { id := ⟨⟨1⟩⟩, name := "Gold", value := .integer 1 }
    let mood : Variable := { id := ⟨⟨2⟩⟩, name := "Mood", value := .enumeration 0 ["Calm"] }
    let s : VariableSet := ⟨[gold, mood]⟩
    ∃ doc items, parse? s.toJson.pretty = some doc ∧ s.ReadFrom doc ∧
      (Json.array items).Within doc ∧ ListsSoundly items ∧
      (s.set "Mood" (.enumeration 7 [])).result.Sound := by
  intro gold mood s
  have sound : s.Sound := by decide
  obtain ⟨doc, parsed, back⟩ := read_back (s := s) rfl
  have read : s.ReadFrom doc := .set back
  obtain ⟨written, -, kept, -⟩ := reading_exact doc s read
  obtain ⟨items, inner, -, listed⟩ := written.resolve_left (by decide)
  obtain ⟨-, keeps⟩ := kept [.edit (.set "Mood" (.enumeration 7 []))] (by simp)
  exact ⟨doc, items, parsed, read, inner, listed.1 sound, keeps sound⟩

/-- Two variables are called Gold, and the mood is beyond the moods. The text of the three is read:
once Gold is removed there is still a Gold, and the mood has no label. -/
theorem two_golds_read :
    let gold : Variable := { id := ⟨⟨1⟩⟩, name := "Gold", value := .integer 1 }
    let more : Variable := { id := ⟨⟨2⟩⟩, name := "Gold", value := .integer 2 }
    let mood : Variable := { id := ⟨⟨3⟩⟩, name := "Mood", value := .enumeration 7 ["Calm"] }
    let s : VariableSet := ⟨[gold, more, mood]⟩
    ∃ doc, parse? s.toJson.pretty = some doc ∧ s.ReadFrom doc ∧
      (s.remove "Gold").get? "Gold" = some more ∧
      s.get? "Mood" = some mood ∧ mood.kind = .enumeration ∧ mood.value.label? = none := by
  intro gold more mood s
  obtain ⟨doc, parsed, back⟩ := read_back (s := s) rfl
  exact ⟨doc, parsed, .set back, by decide, by decide, rfl, rfl⟩

end VariableSet

end Stratagem
