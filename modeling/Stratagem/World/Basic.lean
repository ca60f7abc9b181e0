import Stratagem.Entity.Basic
import Stratagem.Registry

/-!
# The world

A `World` holds every actor and group at a point in time, each under a key. The operations that
enter an entity use its own identifier as the key; a world that was read may hold an entity under
another key. Look-ups and changes go by key, relations between actors by the actors' own
identifiers.

* `World.joinClan`, `World.joinFamily`, `World.assignRole` and `World.addParent` change one field
  of one actor, or report the first condition that fails and change nothing.
* `World.childrenOf`, `World.siblingsOf`, `World.clanMembers` and `World.familyMembers` list actors
  in the order of their own identifiers.
-/

namespace Stratagem

/-- Every actor and group at a point in time. -/
structure World where
  actors : Registry ActorId Actor
  clans : Registry ClanId Clan
  families : Registry FamilyId Family
  roles : Registry RoleId Role
  cultures : Registry CultureId Culture
  /-- The variables of the world itself. -/
  vars : VariableSet

/-- Why a change of the world was refused. -/
inductive WorldError
  | unknownActor (id : ActorId)
  | unknownClan (id : ClanId)
  | unknownFamily (id : FamilyId)
  | unknownRole (id : RoleId)
  | selfParent (id : ActorId)
  | duplicateParent (child parent : ActorId)
deriving DecidableEq, Repr

/-- The wording of a refusal. -/
def WorldError.message : WorldError → String
  | .unknownActor id => "unknown actor " ++ toString id
  | .unknownClan id => "unknown clan " ++ toString id
  | .unknownFamily id => "unknown family " ++ toString id
  | .unknownRole id => "unknown role " ++ toString id
  | .selfParent id => "actor " ++ toString id ++ " cannot be its own parent"
  | .duplicateParent child parent =>
    "actor " ++ toString parent ++ " is already a parent of " ++ toString child

namespace World

/-- The world without actors and groups. -/
def empty : World where
  actors := .empty
  clans := .empty
  families := .empty
  roles := .empty
  cultures := .empty
  vars := .empty

instance : Inhabited World := ⟨empty⟩

/-! ## Look-up -/

def actor? (w : World) (id : ActorId) : Option Actor := w.actors.find? id
def clan? (w : World) (id : ClanId) : Option Clan := w.clans.find? id
def family? (w : World) (id : FamilyId) : Option Family := w.families.find? id
def role? (w : World) (id : RoleId) : Option Role := w.roles.find? id
def culture? (w : World) (id : CultureId) : Option Culture := w.cultures.find? id

/-- The keys of all actors, in ascending order. -/
def actorIds (w : World) : List ActorId := w.actors.keys.mergeSort fun a b => a ≤ b

/-! ## Entering entities -/

def addActor (w : World) (a : Actor) : World := { w with actors := w.actors.insert a.id a }
def addClan (w : World) (c : Clan) : World := { w with clans := w.clans.insert c.id c }
def addFamily (w : World) (f : Family) : World := { w with families := w.families.insert f.id f }
def addRole (w : World) (r : Role) : World := { w with roles := w.roles.insert r.id r }
def addCulture (w : World) (c : Culture) : World :=
  { w with cultures := w.cultures.insert c.id c }

/-! ## Changing an actor -/

/-- Change the actor under a key, if there is one. -/
def modifyActor (w : World) (id : ActorId) (f : Actor → Actor) : World :=
  { w with actors := w.actors.modify id f }

/-- Change the actor under a key, which must be there. -/
def updateActor (w : World) (id : ActorId) (f : Actor → Actor) : Except WorldError World :=
  if w.actors.contains id then .ok (w.modifyActor id f) else .error (.unknownActor id)

/-- Move an actor into a clan. -/
def joinClan (w : World) (actor : ActorId) (clan : ClanId) : Except WorldError World :=
  if w.clans.contains clan then w.updateActor actor fun a => { a with clan := some clan }
  else .error (.unknownClan clan)

/-- Move an actor into a family. -/
def joinFamily (w : World) (actor : ActorId) (family : FamilyId) : Except WorldError World :=
  if w.families.contains family then w.updateActor actor fun a => { a with family := some family }
  else .error (.unknownFamily family)

/-- Give an actor a role, or take its role away. -/
def assignRole (w : World) (actor : ActorId) (role : Option RoleId) : Except WorldError World :=
  match role with
  | some r =>
    if w.roles.contains r then w.updateActor actor fun a => { a with role := some r }
    else .error (.unknownRole r)
  | none => w.updateActor actor fun a => { a with role := none }

/-- Name one actor as a parent of another. -/
def addParent (w : World) (child parent : ActorId) : Except WorldError World :=
  if child = parent then .error (.selfParent child)
  else if w.actors.contains parent then
    match w.actor? child with
    | none => .error (.unknownActor child)
    | some c =>
      if c.parents.contains parent then .error (.duplicateParent child parent)
      else .ok (w.modifyActor child fun a => { a with parents := a.parents ++ [parent] })
  else .error (.unknownActor parent)

/-! ## Relations -/

/-- Whether the actor under the key `child` names `parent`. -/
def isParent (w : World) (parent child : ActorId) : Bool :=
  match w.actor? child with
  | some c => c.parents.contains parent
  | none => false

/-- Whether the actors under two keys are siblings. -/
def isSibling (w : World) (a b : ActorId) : Bool :=
  match w.actor? a, w.actor? b with
  | some x, some y => x.isSiblingOf y
  | _, _ => false

/-- The actors that a condition holds of, in the order of their own identifiers. -/
def actorsWhere (w : World) (p : Actor → Bool) : List Actor :=
  (w.actors.values.filter p).mergeSort fun a b => a.id ≤ b.id

def childrenOf (w : World) (parent : ActorId) : List Actor :=
  w.actorsWhere (·.parents.contains parent)

def siblingsOf (w : World) (actor : ActorId) : List Actor :=
  match w.actor? actor with
  | some self => w.actorsWhere self.isSiblingOf
  | none => []

def clanMembers (w : World) (clan : ClanId) : List Actor :=
  w.actorsWhere (·.clan = some clan)

def familyMembers (w : World) (family : FamilyId) : List Actor :=
  w.actorsWhere (·.family = some family)

end World

/-! ## References in variables -/

namespace Variable

/-- The actor that a variable refers to, if the world has it. -/
def resolveActor (v : Variable) (w : World) : Option Actor := v.value.actorId?.bind w.actor?

/-- The clan that a variable refers to, if the world has it. -/
def resolveClan (v : Variable) (w : World) : Option Clan := v.value.clanId?.bind w.clan?

/-- The family that a variable refers to, if the world has it. -/
def resolveFamily (v : Variable) (w : World) : Option Family := v.value.familyId?.bind w.family?

end Variable

end Stratagem
