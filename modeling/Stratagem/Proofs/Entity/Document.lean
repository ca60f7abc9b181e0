import Stratagem.Entity.Document
import Stratagem.Proofs.Variable.Document

/-!
# Documents of actors and groups are read back

An actor, a clan or a family is read back from its document with the variables that its own are read
as; a role and a culture are read back as they are.

* `Actor.mapVars`, `Clan.mapVars` and `Family.mapVars` change the variables and nothing else.
* `Actor.gives_toJson` and its like say what each is read as.
-/

namespace Stratagem

open Json

variable {n : Nat}

theorem Gender.ofJson?_name (g : Gender) : Gender.ofJson? (.string g.name) = some g := by
  cases g <;> rfl

theorem ActorState.ofJson?_name (s : ActorState) :
    ActorState.ofJson? (.string s.name) = some s := by
  cases s <;> rfl

namespace Actor

/-- The actor with every variable changed. -/
def mapVars (g : Variable → Variable) (a : Actor) : Actor := { a with vars := a.vars.map g }

/-- The fields of an actor before its variables. -/
def plainFields (a : Actor) : List (String × Json) := [
  ("id", a.id.toJson),
  ("name", .string a.name),
  ("gender", .string a.gender.name),
  ("age", .nat a.age.toNat),
  ("is_ai", .bool a.autonomous),
  ("state", .string a.state.name),
  ("role", .ofOption Id.toJson a.role),
  ("clan", .ofOption Id.toJson a.clan),
  ("family", .ofOption Id.toJson a.family),
  ("culture", .ofOption Id.toJson a.culture),
  ("parents", .ofList Id.toJson a.parents)]

theorem writable_plainFields (a : Actor) : ∀ field ∈ a.plainFields, field.2.Writable (n + 1) := by
  have id {kind : IdKind} (id? : Option (Id kind)) :
      (Json.ofOption Id.toJson id?).Writable (n + 1) :=
    writable_ofOption (fun id => id.writable_toJson _) id?
  have age : a.age.toNat < UInt64.size := Nat.lt_trans a.age.toNat_lt_size (by decide)
  simp only [plainFields, List.forall_mem_cons]
  exact ⟨a.id.writable_toJson _, writable_string _ _, writable_string _ _, writable_nat age _,
    writable_bool _ _, writable_string _ _, id _, id _, id _, id _,
    writable_ofList (fun id => id.writable_toJson _) _, nofun⟩

/-- The record of an actor whose variables are written as a value. -/
def record (a : Actor) (w : Json) : Record := ⟨false, a.plainFields ++ [("variables", w)]⟩

theorem ofJson?_fields (a : Actor) (w : Json) :
    ofJson? (.object (a.plainFields ++ [("variables", w)])) =
      (VariableSet.ofJson? w).map fun vars => { a with vars } := by
  have taken : asRecord? fieldNames (.object (a.plainFields ++ [("variables", w)])) =
      some (a.record w) := rfl
  have id : (a.record w).required "id" asId? = some a.id :=
    Record.required_eq rfl a.id.asId?_toJson
  have name : (a.record w).required "name" asString? = some a.name := Record.required_eq rfl rfl
  have gender : (a.record w).required "gender" Gender.ofJson? = some a.gender :=
    Record.required_eq rfl (Gender.ofJson?_name a.gender)
  have age : (a.record w).required "age" asUInt32? = some a.age :=
    Record.required_eq rfl (asUInt32?_toNat a.age)
  have autonomous : (a.record w).required "is_ai" asBool? = some a.autonomous :=
    Record.required_eq rfl rfl
  have state : (a.record w).withDefault "state" .active ActorState.ofJson? = some a.state :=
    (Record.withDefault_eq rfl _ _).trans (ActorState.ofJson?_name a.state)
  have role : (a.record w).optional "role" asId? = some a.role :=
    Record.optional_eq rfl (Id.asOption?_toJson a.role)
  have clan : (a.record w).optional "clan" asId? = some a.clan :=
    Record.optional_eq rfl (Id.asOption?_toJson a.clan)
  have family : (a.record w).optional "family" asId? = some a.family :=
    Record.optional_eq rfl (Id.asOption?_toJson a.family)
  have culture : (a.record w).optional "culture" asId? = some a.culture :=
    Record.optional_eq rfl (Id.asOption?_toJson a.culture)
  have parents : (a.record w).withDefault "parents" [] (asList? asId?) = some a.parents :=
    (Record.withDefault_eq rfl _ _).trans (asList?_ofList fun id _ => id.asId?_toJson)
  have vars : (a.record w).withDefault "variables" .empty VariableSet.ofJson? =
      VariableSet.ofJson? w := Record.withDefault_eq rfl _ _
  refine bind_eq taken <| bind_eq id <| bind_eq name <| bind_eq gender <| bind_eq age <|
    bind_eq autonomous <| bind_eq state <| bind_eq role <| bind_eq clan <| bind_eq family <|
    bind_eq culture <| bind_eq parents ?_
  rw [vars, Option.map_eq_bind]
  rfl

theorem gives_toJson (a : Actor) :
    Gives (n + 6) a.toJson ofJson? a.vars.isFinite (a.mapVars Variable.reread) :=
  a.vars.gives_toJson.lastField a.plainFields (h := fun vars => { a with vars })
    a.writable_plainFields a.ofJson?_fields

end Actor

namespace Clan

/-- The clan with every variable changed. -/
def mapVars (g : Variable → Variable) (c : Clan) : Clan := { c with vars := c.vars.map g }

theorem gives_toJson (c : Clan) :
    Gives (n + 6) c.toJson ofJson? c.vars.isFinite (c.mapVars Variable.reread) := by
  refine c.vars.gives_toJson.lastField [("id", c.id.toJson), ("name", .string c.name),
    ("description", .ofOption .string c.description), ("culture", .ofOption Id.toJson c.culture)]
    (h := fun vars => { c with vars }) ?_ fun w => ?_
  · simp only [List.forall_mem_cons]
    exact ⟨c.id.writable_toJson _, writable_string _ _,
      writable_ofOption (fun s => writable_string s _) _,
      writable_ofOption (fun id => id.writable_toJson _) _, nofun⟩
  · simp [ofJson?, asRecord?, countKey, Record.required, Record.withDefault, Record.optional,
      Record.get?, List.lookup_cons, asString?, Id.asId?_toJson, Id.asOption?_toJson,
      asOption?_string, Option.map_eq_bind]

end Clan

namespace Family

/-- The family with every variable changed. -/
def mapVars (g : Variable → Variable) (f : Family) : Family := { f with vars := f.vars.map g }

theorem gives_toJson (f : Family) :
    Gives (n + 6) f.toJson ofJson? f.vars.isFinite (f.mapVars Variable.reread) := by
  refine f.vars.gives_toJson.lastField [("id", f.id.toJson), ("name", .string f.name),
    ("culture", .ofOption Id.toJson f.culture)] (h := fun vars => { f with vars }) ?_ fun w => ?_
  · simp only [List.forall_mem_cons]
    exact ⟨f.id.writable_toJson _, writable_string _ _,
      writable_ofOption (fun id => id.writable_toJson _) _, nofun⟩
  · simp [ofJson?, asRecord?, countKey, Record.required, Record.withDefault, Record.optional,
      Record.get?, List.lookup_cons, asString?, Id.asId?_toJson, Id.asOption?_toJson,
      Option.map_eq_bind]

end Family

/-! ## Groups without variables -/

theorem Role.ofJson?_toJson (r : Role) : Role.ofJson? r.toJson = some r := by
  simp [toJson, ofJson?, asRecord?, countKey, Record.required, Record.optional, Record.get?,
    List.lookup_cons, asString?, Id.asId?_toJson, asOption?_string, asInt32?_toInt]

theorem Role.writable_toJson (r : Role) : r.toJson.Writable (n + 1) := by
  have low : Int64.minValue.toInt ≤ r.priority.toInt :=
    Int.le_trans (by decide) r.priority.minValue_le_toInt
  have high : r.priority.toInt < UInt64.size := Int.lt_of_le_of_lt r.priority.toInt_le (by decide)
  simp only [toJson, writable_object_iff, List.forall_mem_cons]
  exact ⟨r.id.writable_toJson _, writable_string _ _,
    writable_ofOption (fun s => writable_string s _) _, writable_integer low high _, nofun⟩

theorem Culture.ofJson?_toJson (c : Culture) : Culture.ofJson? c.toJson = some c := by
  simp [toJson, ofJson?, asRecord?, countKey, Record.required, Record.optional, Record.get?,
    List.lookup_cons, asString?, Id.asId?_toJson, asOption?_string]

theorem Culture.writable_toJson (c : Culture) : c.toJson.Writable (n + 1) := by
  simp only [toJson, writable_object_iff, List.forall_mem_cons]
  exact ⟨c.id.writable_toJson _, writable_string _ _,
    writable_ofOption (fun s => writable_string s _) _, nofun⟩

end Stratagem
