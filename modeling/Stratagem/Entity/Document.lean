import Stratagem.Entity.Basic
import Stratagem.Variable.Document

/-!
# Actors and groups as documents

Fields are written in declared order, an absent reference as `null`. When read, the state of an
actor, its parents and any variables have defaults.
-/

namespace Stratagem

open Json

namespace Gender

def name : Gender → String
  | .male => "Male"
  | .female => "Female"

def named? : String → Option Gender
  | "Male" => some .male
  | "Female" => some .female
  | _ => none

def ofJson? : Json → Option Gender := asPlainChoice? named?

end Gender

namespace ActorState

def name : ActorState → String
  | .active => "Active"
  | .passive => "Passive"

def named? : String → Option ActorState
  | "Active" => some .active
  | "Passive" => some .passive
  | _ => none

def ofJson? : Json → Option ActorState := asPlainChoice? named?

end ActorState

namespace Actor

def toJson (a : Actor) : Json :=
  .object [
    ("id", a.id.toJson),
    ("name", .string a.name),
    ("gender", .string a.gender.name),
    ("age", .nat a.age.toNat),
    ("is_ai", .bool a.autonomous),
    ("state", .string a.state.name),
    ("role", .ofOption Id.toJson a.role),
    ("clan", .ofOption Id.toJson a.clan),
    ("family", .ofOption Id.toJson a.family),
    ("culture", .ofOption Id.toJson a.culture),
    ("parents", .ofList Id.toJson a.parents),
    ("variables", a.vars.toJson)]

/-- The fields of an actor document, in declared order. -/
def fieldNames : List String :=
  ["id", "name", "gender", "age", "is_ai", "state", "role", "clan", "family", "culture", "parents",
    "variables"]

def ofJson? (v : Json) : Option Actor := do
  let r ← v.asRecord? fieldNames
  let id ← r.required "id" asId?
  let name ← r.required "name" asString?
  let gender ← r.required "gender" Gender.ofJson?
  let age ← r.required "age" asUInt32?
  let autonomous ← r.required "is_ai" asBool?
  let state ← r.withDefault "state" .active ActorState.ofJson?
  let role ← r.optional "role" asId?
  let clan ← r.optional "clan" asId?
  let family ← r.optional "family" asId?
  let culture ← r.optional "culture" asId?
  let parents ← r.withDefault "parents" [] (asList? asId?)
  let vars ← r.withDefault "variables" .empty VariableSet.ofJson?
  pure { id, name, gender, age, autonomous, state, role, clan, family, culture, parents, vars }

end Actor

namespace Role

def toJson (x : Role) : Json :=
  .object [
    ("id", x.id.toJson),
    ("name", .string x.name),
    ("female_title", .ofOption .string x.femaleTitle),
    ("priority", .integer x.priority.toInt)]

def ofJson? (v : Json) : Option Role := do
  let r ← v.asRecord? ["id", "name", "female_title", "priority"]
  let id ← r.required "id" asId?
  let name ← r.required "name" asString?
  let femaleTitle ← r.optional "female_title" asString?
  let priority ← r.required "priority" asInt32?
  pure { id, name, femaleTitle, priority }

end Role

namespace Clan

def toJson (c : Clan) : Json :=
  .object [
    ("id", c.id.toJson),
    ("name", .string c.name),
    ("description", .ofOption .string c.description),
    ("culture", .ofOption Id.toJson c.culture),
    ("variables", c.vars.toJson)]

def ofJson? (v : Json) : Option Clan := do
  let r ← v.asRecord? ["id", "name", "description", "culture", "variables"]
  let id ← r.required "id" asId?
  let name ← r.required "name" asString?
  let description ← r.optional "description" asString?
  let culture ← r.optional "culture" asId?
  let vars ← r.withDefault "variables" .empty VariableSet.ofJson?
  pure { id, name, description, culture, vars }

end Clan

namespace Family

def toJson (f : Family) : Json :=
  .object [
    ("id", f.id.toJson),
    ("name", .string f.name),
    ("culture", .ofOption Id.toJson f.culture),
    ("variables", f.vars.toJson)]

def ofJson? (v : Json) : Option Family := do
  let r ← v.asRecord? ["id", "name", "culture", "variables"]
  let id ← r.required "id" asId?
  let name ← r.required "name" asString?
  let culture ← r.optional "culture" asId?
  let vars ← r.withDefault "variables" .empty VariableSet.ofJson?
  pure { id, name, culture, vars }

end Family

namespace Culture

def toJson (c : Culture) : Json :=
  .object [
    ("id", c.id.toJson),
    ("name", .string c.name),
    ("description", .ofOption .string c.description)]

def ofJson? (v : Json) : Option Culture := do
  let r ← v.asRecord? ["id", "name", "description"]
  let id ← r.required "id" asId?
  let name ← r.required "name" asString?
  let description ← r.optional "description" asString?
  pure { id, name, description }

end Culture

end Stratagem
