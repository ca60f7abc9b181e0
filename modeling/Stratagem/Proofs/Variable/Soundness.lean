import Stratagem.Proofs.Variable.Assignment
import Stratagem.Proofs.Variable.History

/-!
# Sound sets of variables

A set of variables is sound if its names differ and every enumeration selects one of its options. No
change of a set spoils that, unless it adds an enumeration that selects none. A document of a set
lists the variables one by one, and what is read from it is as sound as the list is written.

* `VariableSet.sound_iff`: in a sound set a name that is removed is gone, and every enumeration has
  a label.
* `VariableSet.Sound.apply` is what a change keeps, `VariableSet.Sound.foldl_apply` what a history of
  changes keeps, and `VariableSet.sound_after` what it makes.
* `Json.Overruns` is what is written of an enumeration that selects nothing, and
  `Variable.selects_iff` that it is read as one.
* `VariableSet.sound_iff_listsSoundly` is what this comes to for a list of variables.
-/

namespace Stratagem

open Json

namespace VariableSet

variable {s : VariableSet} {u v : Variable} {step : SetStep}

/-- No two variables have one name, and every enumeration selects one of its options. -/
structure Sound (s : VariableSet) : Prop where
  names : s.names.Nodup
  indices : ∀ v ∈ s.toList, v.value.Selects

instance (s : VariableSet) : Decidable s.Sound :=
  decidable_of_iff (s.names.Nodup ∧ ∀ v ∈ s.toList, v.value.Selects)
    ⟨fun ⟨names, indices⟩ => ⟨names, indices⟩, fun sound => ⟨sound.names, sound.indices⟩⟩

/-- The names differ exactly if each is gone once it is removed. -/
theorem nodup_names_iff : s.names.Nodup ↔ ∀ name, (s.remove name).get? name = none := by
  simp only [get?_eq_none_iff, names_remove, List.nodup_iff_count_le_one, ← List.count_eq_zero,
    List.count_erase_self, Nat.sub_eq_zero_iff_le]

theorem sound_iff :
    s.Sound ↔ (∀ name, (s.remove name).get? name = none) ∧
      ∀ v ∈ s.toList, v.kind = .enumeration → v.value.label?.isSome = true := by
  rw [← nodup_names_iff]
  constructor
  · exact fun sound => ⟨sound.names, fun v met => Value.selects_iff.1 (sound.indices v met)⟩
  · exact fun ⟨names, labels⟩ => ⟨names, fun v met => Value.selects_iff.2 (labels v met)⟩

theorem sound_empty : empty.Sound := ⟨List.nodup_nil, nofun⟩

/-! ## Changes -/

theorem nodup_names_apply (nodup : s.names.Nodup) (step : SetStep) :
    (step.apply s).names.Nodup := by
  rcases s.names_apply step with old | ⟨v, -, fresh, new⟩
  · exact nodup.sublist old
  · rw [new]
    exact List.nodup_append.2 ⟨nodup, List.nodup_singleton _, fun a met b met' same =>
      fresh (List.mem_singleton.1 met' ▸ same ▸ met)⟩

/-- A variable after a step was added by it, or has the value of one that was there before, or what
an assignment made of it. -/
theorem value_of_mem_apply (met : u ∈ (step.apply s).toList) :
    step = .edit (.add u) ∨ ∃ v ∈ s.toList, u.value = v.value ∨
      ∃ next, u.value = (v.assign next).result.value := by
  rcases step with (added | ⟨name, next⟩) | name | _
  · change u ∈ (s.add added).toList at met
    unfold add at met
    split at met
    · rcases mem_updateFirst met with old | ⟨-, -, rfl⟩
      · exact .inr ⟨u, old, .inl rfl⟩
      · exact .inl rfl
    · rcases List.mem_append.1 met with old | new
      · exact .inr ⟨u, old, .inl rfl⟩
      · rw [List.mem_singleton.1 new]
        exact .inl rfl
  · change u ∈ (s.set name next).result.toList at met
    rw [toList_set] at met
    rcases mem_updateFirst met with old | ⟨v, there, rfl⟩
    · exact .inr ⟨u, old, .inl rfl⟩
    · exact .inr ⟨v, there, .inr ⟨next, rfl⟩⟩
  · exact .inr ⟨u, List.mem_of_mem_eraseP met, .inl rfl⟩
  · obtain ⟨v, there, rfl⟩ := List.mem_map.1 met
    exact .inr ⟨v, there, .inl rfl⟩

theorem Sound.apply (sound : s.Sound)
    (adds : ∀ v, step = .edit (.add v) → v.value.Selects) : (step.apply s).Sound := by
  refine ⟨nodup_names_apply sound.names step, fun u met => ?_⟩
  rcases value_of_mem_apply met with rfl | ⟨v, there, same | ⟨next, made⟩⟩
  · exact adds u rfl
  · exact same ▸ sound.indices v there
  · exact made ▸ (v.endures_assign next).selects (sound.indices v there)

/-- A set that is sound stays so, whatever is done to it, if what is added selects an option. -/
theorem Sound.foldl_apply (sound : s.Sound) {steps : List SetStep}
    (adds : ∀ v, SetStep.edit (.add v) ∈ steps → v.value.Selects) :
    (steps.foldl SetStep.apply s).Sound := by
  induction steps generalizing s with
  | nil => exact sound
  | cons step rest ih =>
    have next : (step.apply s).Sound := sound.apply fun v same => adds v (same ▸ List.mem_cons_self)
    exact ih next fun v later => adds v (List.mem_cons_of_mem _ later)

theorem sound_after {history : List SetStep}
    (adds : ∀ v, SetStep.edit (.add v) ∈ history → v.value.Selects) : (after history).Sound :=
  sound_empty.foldl_apply adds

end VariableSet

/-! ## Documents -/

namespace Json

/-- A field that is written in a record. -/
def field? (names : List String) (name : String) (v : Json) : Option Json :=
  (v.asRecord? names).bind (·.get? name)

/-- The name that is written of a variable. -/
def writtenName? (item : Json) : Option String :=
  (item.field? ["id", "name", "value"] "name").bind asString?

/-- An enumeration is written whose index is not below the number of its options. -/
def Overruns (item : Json) : Prop :=
  ∃ content index options,
    (item.field? ["id", "name", "value"] "value").bind asChoice? = some ("Enum", some content) ∧
    content.field? ["index", "options"] "index" = some (.nat index) ∧
    content.field? ["index", "options"] "options" = some (.array options) ∧
    options.length ≤ index

/-- The items are written as those of a sound set. -/
structure ListsSoundly (items : List Json) : Prop where
  names : (items.map writtenName?).Nodup
  indices : ∀ item ∈ items, ¬ item.Overruns

/-- A word is read from its number only. -/
theorem asUInt64?_eq_some_iff {v : Json} {i : UInt64} :
    v.asUInt64? = some i ↔ v = .nat i.toNat := by
  refine ⟨fun read => ?_, fun same => same ▸ asUInt64?_toNat i⟩
  obtain ⟨n, within, rfl⟩ := Option.map_eq_some_iff.1 read
  unfold asIntIn? at within
  split at within
  · split at within
    · next m range =>
      obtain rfl := Option.some.inj within
      have word : m.toNat < UInt64.size := by omega
      rw [UInt64.toNat_ofNat_of_lt' word]
      exact congrArg Json.integer (Int.toNat_of_nonneg range.1).symm
    · cases within
  · cases within

end Json

namespace Value

variable {content : Json} {v : Value} {kind : String} {index : UInt64} {options : List String}

theorem enumerationOfJson?_eq_some_iff :
    enumerationOfJson? content = some v ↔ ∃ index options items,
      v = .enumeration index options ∧
      content.field? ["index", "options"] "index" = some (.nat index.toNat) ∧
      content.field? ["index", "options"] "options" = some (.array items) ∧
      List.Forall₂ (fun item label => asString? item = some label) items options := by
  unfold enumerationOfJson? Json.field?
  cases taken : content.asRecord? ["index", "options"] with
  | none => simp
  | some r =>
    simp only [Option.bind_eq_bind, Option.bind_some, Option.bind_eq_some_iff, Record.required,
      asUInt64?_eq_some_iff, Option.pure_def, Option.some.injEq]
    constructor
    · rintro ⟨index, ⟨_, given, rfl⟩, options, ⟨w, given', listed⟩, rfl⟩
      unfold asList? at listed
      split at listed
      · next items => exact ⟨index, options, items, rfl, given, given', mapM_eq_some_iff.1 listed⟩
      · cases listed
    · rintro ⟨index, options, items, rfl, given, given', listed⟩
      exact ⟨index, ⟨_, given, rfl⟩, options, ⟨_, given', mapM_eq_some_iff.2 listed⟩, rfl⟩

/-- An enumeration is read from the content of an enumeration only. -/
theorem enumerationOfJson?_of_ofContent?
    (read : ofContent? kind content = some (.enumeration index options)) :
    kind = "Enum" ∧ enumerationOfJson? content = some (.enumeration index options) := by
  unfold ofContent? at read
  split at read
  case h_6 => exact ⟨rfl, read⟩
  case h_10 => cases read
  all_goals
    obtain ⟨_, -, same⟩ := Option.map_eq_some_iff.1 read
    cases same

end Value

namespace Variable

variable {item : Json} {v : Variable}

/-- A variable is read with the name that is written and the value that is written. -/
theorem fields_of_ofJson? (read : ofJson? item = some v) :
    item.writtenName? = some v.name ∧ ∃ w kind content,
      item.field? ["id", "name", "value"] "value" = some w ∧
      w.asChoice? = some (kind, some content) ∧ Value.ofContent? kind content = some v.value := by
  simp only [ofJson?, Record.required, Value.ofJson?, Option.bind_eq_bind, Option.bind_eq_some_iff,
    Option.pure_def, Option.some.injEq] at read
  obtain ⟨r, taken, id, -, name, ⟨n, named, text⟩, value, ⟨w, given, back⟩, rfl⟩ := read
  obtain ⟨⟨kind, _⟩, chosen, content, rfl, made⟩ := back
  refine ⟨?_, w, kind, content, ?_, chosen, made⟩
  · simp [writtenName?, field?, taken, named, text]
  · simp [field?, taken, given]

/-- An enumeration selects an option exactly if that is how it is written. -/
theorem selects_iff (read : ofJson? item = some v) : v.value.Selects ↔ ¬ item.Overruns := by
  obtain ⟨-, w, kind, content, given, chosen, made⟩ := fields_of_ofJson? read
  constructor
  · rintro selects ⟨content', index, options, chosen', indexed, listed, beyond⟩
    rw [given, Option.bind_some, chosen] at chosen'
    obtain ⟨rfl, rfl⟩ : kind = "Enum" ∧ content = content' := by simpa using chosen'
    obtain ⟨index', labels, items, same, indexed', listed', each⟩ :=
      Value.enumerationOfJson?_eq_some_iff.1 made
    have number : index = index'.toNat := by simpa using indexed.symm.trans indexed'
    obtain rfl : options = items := by simpa using listed.symm.trans listed'
    have below : index'.toNat < labels.length := selects index' labels same
    have count : options.length = labels.length := each.length_eq
    omega
  · intro within index labels same
    rw [same] at made
    obtain ⟨rfl, made⟩ := Value.enumerationOfJson?_of_ofContent? made
    obtain ⟨index', labels', items, same', indexed, listed, each⟩ :=
      Value.enumerationOfJson?_eq_some_iff.1 made
    obtain ⟨rfl, rfl⟩ := Value.enumeration.inj same'
    have count : items.length = labels.length := each.length_eq
    apply Nat.lt_of_not_le
    intro beyond
    refine within ⟨content, index.toNat, items, ?_, indexed, listed, count ▸ beyond⟩
    rw [given, Option.bind_some, chosen]

end Variable

namespace VariableSet

variable {doc : Json} {items : List Json} {s : VariableSet}

/-- A set is read from an array, variable by variable. -/
theorem ofJson?_eq_some_iff :
    ofJson? doc = some s ↔ ∃ items, doc = .array items ∧
      List.Forall₂ (fun item v => Variable.ofJson? item = some v) items s.toList := by
  unfold ofJson? asList?
  constructor
  · intro read
    obtain ⟨vars, listed, rfl⟩ := Option.map_eq_some_iff.1 read
    split at listed
    · next items => exact ⟨items, rfl, mapM_eq_some_iff.1 listed⟩
    · cases listed
  · rintro ⟨items, rfl, listed⟩
    exact Option.map_eq_some_iff.2 ⟨s.toList, mapM_eq_some_iff.2 listed, rfl⟩

section Items

variable {vars : List Variable}
variable (each : List.Forall₂ (fun item v => Variable.ofJson? item = some v) items vars)

include each

theorem map_writtenName? : items.map writtenName? = (vars.map Variable.name).map some := by
  induction each with
  | nil => rfl
  | cons first _ ih => simp only [List.map_cons, (Variable.fields_of_ofJson? first).1, ih]

theorem forall_selects_iff :
    (∀ v ∈ vars, v.value.Selects) ↔ ∀ item ∈ items, ¬ item.Overruns := by
  induction each with
  | nil => exact ⟨fun _ => nofun, fun _ => nofun⟩
  | cons first _ ih =>
    rw [List.forall_mem_cons, List.forall_mem_cons, Variable.selects_iff first, ih]

end Items

/-- A set is as sound as it is written. -/
theorem sound_iff_listsSoundly (read : ofJson? (.array items) = some s) :
    s.Sound ↔ ListsSoundly items := by
  obtain ⟨_, same, each⟩ := ofJson?_eq_some_iff.1 read
  obtain rfl := Json.array.inj same
  have names : (items.map writtenName?).Nodup ↔ s.names.Nodup := by
    rw [map_writtenName? each, List.nodup_map_iff (Option.some_injective _)]
    rfl
  constructor
  · exact fun sound => ⟨names.2 sound.names, (forall_selects_iff each).1 sound.indices⟩
  · exact fun listed => ⟨names.1 listed.names, (forall_selects_iff each).2 listed.indices⟩

end VariableSet

end Stratagem
