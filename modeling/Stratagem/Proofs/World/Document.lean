import Stratagem.Proofs.Entity.Document
import Stratagem.World.Document

/-!
# Documents of worlds are read back

A world is read back from its document under the same keys, whatever the ids of its entities are,
with the variables that its own are read as.

* `World.gives_registry`: a registry is read if each of its values is.
* `World.allVars` lists the variables of a world and of everything in it; `World.mapVars` changes
  them and nothing else.
* `World.gives_toJson` says what a world is read as.
-/

namespace Stratagem.World

open Json

variable {n : Nat} {kind : IdKind} {α : Type} {write : α → Json} {read : Json → Option α}
  {legible : α → Bool} {g : α → α}

/-! ## Registries -/

/-- Read a field of an object as an entry of a registry. -/
def entryOfJson? (read : Json → Option α) (field : String × Json) : Option (Id kind × α) := do
  pure ((← Id.ofString? field.1), (← read field.2))

theorem registryOfJson?_object (fields : List (String × Json)) :
    (registryOfJson? read (.object fields) : Option (Registry (Id kind) α)) =
      (fields.mapM (entryOfJson? read)).map Registry.ofList := by
  rw [Option.map_eq_bind]
  rfl

/-- The entries of a registry are read one by one, each under its own key. -/
theorem gives_entries (each : ∀ a, Gives n (write a) read (legible a) (g a))
    (entries : List (Id kind × α)) :
    ∃ fields, List.Forall₂ (fun field field' => field.1 = field'.1 ∧ ReadsAs n field.2 field'.2)
        (entries.map fun entry => (toString entry.1, write entry.2)) fields ∧
      fields.mapM (entryOfJson? read) =
        if (entries.map Prod.snd).all legible then
          some (entries.map fun entry => (entry.1, g entry.2))
        else none := by
  induction entries with
  | nil => exact ⟨[], .nil, rfl⟩
  | cons entry entries ih =>
    obtain ⟨w, reads, back⟩ := each entry.2
    obtain ⟨fields, readsAll, backAll⟩ := ih
    have first : entryOfJson? read (toString entry.1, w) =
        if legible entry.2 then some (entry.1, g entry.2) else none := by
      simp only [entryOfJson?, Id.ofString?_toString, back]
      cases legible entry.2 <;> rfl
    refine ⟨(toString entry.1, w) :: fields, .cons ⟨rfl, reads⟩ readsAll, ?_⟩
    rw [List.mapM_cons, first, backAll, List.map_cons, List.all_cons]
    cases legible entry.2 <;> cases (entries.map Prod.snd).all legible <;> rfl

/-- A registry is read if each of its values is. The keys differ, so no entry replaces another. -/
theorem gives_registry (each : ∀ a, Gives n (write a) read (legible a) (g a))
    (r : Registry (Id kind) α) :
    Gives (n + 1) (registryToJson write r) (registryOfJson? read) (r.values.all legible)
      (r.map g) := by
  obtain ⟨fields, reads, back⟩ := gives_entries each r.entries
  refine ⟨.object fields, reads, ?_⟩
  rw [registryOfJson?_object, back, ← Registry.values]
  cases r.values.all legible with
  | false => rfl
  | true => exact congrArg some (Registry.ofList_entries (r.map g))

/-- A registry of values without doubles is read back as it is. -/
theorem gives_plainRegistry (writable : ∀ a, (write a).Writable n)
    (back : ∀ a, read (write a) = some a) (r : Registry (Id kind) α) :
    Gives (n + 1) (registryToJson write r) (registryOfJson? read) true r := by
  have given : Gives (n + 1) (registryToJson write r) (registryOfJson? read)
      (r.values.all fun _ => true) (r.map id) :=
    gives_registry (fun a => (writable a).gives (back a)) r
  have same : r.map id = r := by
    unfold Registry.map
    simp
  have legible : (r.values.all fun _ => true) = true := List.all_eq_true.2 fun _ _ => rfl
  rwa [same, legible] at given

/-! ## Worlds -/

/-- The variables of a world and of everything in it. -/
def allVars (w : World) : List Variable :=
  w.actors.values.flatMap (·.vars.toList) ++ w.clans.values.flatMap (·.vars.toList) ++
    w.families.values.flatMap (·.vars.toList) ++ w.vars.toList

/-- Whether every double of a world is finite. -/
def isFinite (w : World) : Bool := w.allVars.all (·.value.isFinite)

/-- The world with every variable changed, its own and those of everything in it. -/
def mapVars (g : Variable → Variable) (w : World) : World where
  actors := w.actors.map (·.mapVars g)
  clans := w.clans.map (·.mapVars g)
  families := w.families.map (·.mapVars g)
  roles := w.roles
  cultures := w.cultures
  vars := w.vars.map g

theorem isFinite_eq (w : World) :
    w.isFinite = (w.actors.values.all (·.vars.isFinite) && w.clans.values.all (·.vars.isFinite) &&
      w.families.values.all (·.vars.isFinite) && w.vars.isFinite) := by
  simp only [isFinite, allVars, List.all_append, List.all_flatMap]
  rfl

/-- The document of a world is read as the world, with the variables that its own are read as, if
its doubles are finite, and refused if one of them is not. -/
theorem gives_toJson (w : World) :
    Gives 8 w.toJson ofJson? w.isFinite (w.mapVars Variable.reread) := by
  obtain ⟨actors, readsActors, backActors⟩ :=
    gives_registry (fun a => a.gives_toJson (n := 0)) w.actors
  obtain ⟨clans, readsClans, backClans⟩ :=
    gives_registry (fun c => c.gives_toJson (n := 0)) w.clans
  obtain ⟨families, readsFamilies, backFamilies⟩ :=
    gives_registry (fun f => f.gives_toJson (n := 0)) w.families
  obtain ⟨roles, readsRoles, backRoles⟩ :=
    gives_plainRegistry (n := 6) (fun r => r.writable_toJson) Role.ofJson?_toJson w.roles
  obtain ⟨cultures, readsCultures, backCultures⟩ :=
    gives_plainRegistry (n := 6) (fun c => c.writable_toJson) Culture.ofJson?_toJson w.cultures
  obtain ⟨vars, readsVars, backVars⟩ := w.vars.gives_toJson (n := 2)
  let r : Record := ⟨false, [("actors", actors), ("clans", clans), ("families", families),
    ("roles", roles), ("cultures", cultures), ("variables", vars)]⟩
  refine ⟨.object r.given, ?_, ?_⟩
  · exact .cons ⟨rfl, readsActors⟩ <| .cons ⟨rfl, readsClans⟩ <| .cons ⟨rfl, readsFamilies⟩ <|
      .cons ⟨rfl, readsRoles⟩ <| .cons ⟨rfl, readsCultures⟩ <| .cons ⟨rfl, readsVars⟩ .nil
  · have opened : ofJson? (.object r.given) = (do
        let actors ← registryOfJson? Actor.ofJson? actors
        let clans ← registryOfJson? Clan.ofJson? clans
        let families ← registryOfJson? Family.ofJson? families
        let roles ← registryOfJson? Role.ofJson? roles
        let cultures ← registryOfJson? Culture.ofJson? cultures
        let vars ← VariableSet.ofJson? vars
        pure { actors, clans, families, roles, cultures, vars }) := rfl
    -- The first part that is not legible refuses the whole.
    rw [opened, isFinite_eq, backActors, backClans, backFamilies, backRoles, backCultures, backVars]
    cases w.actors.values.all (·.vars.isFinite) with
    | false => rfl
    | true =>
      cases w.clans.values.all (·.vars.isFinite) with
      | false => rfl
      | true =>
        cases w.families.values.all (·.vars.isFinite) with
        | false => rfl
        | true => cases w.vars.isFinite <;> rfl

end Stratagem.World
