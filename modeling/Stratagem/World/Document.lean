import Stratagem.Entity.Document
import Stratagem.World.Basic

/-!
# Worlds as documents

A world is written as one object per sort of entity, from keys to entities, and the variables of
the world. When read, a repeated key is no fault: the last entity under it stays, and two spellings
of one identifier are one key. The five objects are required, the variables have a default.
-/

namespace Stratagem

open Json

namespace World

/-- A registry as an object from keys to entities. -/
def registryToJson {kind : IdKind} {α : Type} (f : α → Json) (r : Registry (Id kind) α) : Json :=
  .object (r.entries.map fun entry => (toString entry.1, f entry.2))

/-- Read an object from keys to entities. -/
def registryOfJson? {kind : IdKind} {α : Type} (read : Json → Option α) :
    Json → Option (Registry (Id kind) α)
  | .object fields => do
    let entries ← fields.mapM fun field => do
      pure ((← Id.ofString? field.1), (← read field.2))
    pure (Registry.ofList entries)
  | _ => none

def toJson (w : World) : Json :=
  .object [
    ("actors", registryToJson Actor.toJson w.actors),
    ("clans", registryToJson Clan.toJson w.clans),
    ("families", registryToJson Family.toJson w.families),
    ("roles", registryToJson Role.toJson w.roles),
    ("cultures", registryToJson Culture.toJson w.cultures),
    ("variables", w.vars.toJson)]

def ofJson? (v : Json) : Option World := do
  let r ← v.asRecord? ["actors", "clans", "families", "roles", "cultures", "variables"]
  let actors ← r.required "actors" (registryOfJson? Actor.ofJson?)
  let clans ← r.required "clans" (registryOfJson? Clan.ofJson?)
  let families ← r.required "families" (registryOfJson? Family.ofJson?)
  let roles ← r.required "roles" (registryOfJson? Role.ofJson?)
  let cultures ← r.required "cultures" (registryOfJson? Culture.ofJson?)
  let vars ← r.withDefault "variables" .empty VariableSet.ofJson?
  pure { actors, clans, families, roles, cultures, vars }

/-- The indented text of a world. -/
def snapshot (w : World) : String := w.toJson.pretty

/-- Read a world from its text. -/
def ofSnapshot (text : String) : Except (Json.Fault Empty) World :=
  Json.readText (fun v => Json.orMismatch (ofJson? v)) text

end World

end Stratagem
