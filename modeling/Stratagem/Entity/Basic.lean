import Stratagem.Variable.Set

/-!
# Actors and their groups

An `Actor` is a character that can conspire or be targeted. It may hold a role and belong to a
clan, a family and a culture, and it names its parents; children and siblings are derived from
these links.

* `Actor.isParentOf` and `Actor.isSiblingOf` compare records: the links of one against the
  identifier or the links of the other.
-/

namespace Stratagem

inductive Gender
  | male | female
deriving DecidableEq, Repr

/-- Whether an actor takes part in play. -/
inductive ActorState
  | active
  /-- Dead or otherwise removed: never a candidate for a match. -/
  | passive
deriving DecidableEq, Repr

/-- A character. -/
structure Actor where
  id : ActorId
  name : String
  gender : Gender
  age : UInt32
  /-- Whether the actor is driven by the game and not by a player. -/
  autonomous : Bool
  state : ActorState
  role : Option RoleId
  clan : Option ClanId
  family : Option FamilyId
  culture : Option CultureId
  parents : List ActorId
  vars : VariableSet
deriving DecidableEq, Repr

namespace Actor

/-- An autonomous adult in play without ties. -/
def create (id : ActorId) (name : String) (gender : Gender) : Actor where
  id := id
  name := name
  gender := gender
  age := 18
  autonomous := true
  state := .active
  role := none
  clan := none
  family := none
  culture := none
  parents := []
  vars := .empty

/-- Name one more parent; a repetition changes nothing. -/
def withParent (a : Actor) (parent : ActorId) : Actor :=
  if parent ∈ a.parents then a else { a with parents := a.parents ++ [parent] }

def isActive (a : Actor) : Bool := a.state = .active

/-- Whether `other` names this actor as a parent. -/
def isParentOf (a other : Actor) : Bool := other.parents.contains a.id

/-- Whether the two differ and name a parent in common. -/
def isSiblingOf (a other : Actor) : Bool :=
  a.id ≠ other.id && a.parents.any other.parents.contains

theorem isParentOf_iff (a b : Actor) : a.isParentOf b = true ↔ a.id ∈ b.parents := by
  simp [isParentOf]

theorem isSiblingOf_iff (a b : Actor) :
    a.isSiblingOf b = true ↔ a.id ≠ b.id ∧ ∃ p ∈ a.parents, p ∈ b.parents := by
  simp [isSiblingOf]

end Actor

/-- A title or office. -/
structure Role where
  id : RoleId
  name : String
  /-- The title of a woman in this role, where it differs. -/
  femaleTitle : Option String
  /-- Lower comes first in succession. -/
  priority : Int32
deriving DecidableEq, Repr

/-- A political group. -/
structure Clan where
  id : ClanId
  name : String
  description : Option String
  culture : Option CultureId
  vars : VariableSet
deriving DecidableEq, Repr

/-- A household. -/
structure Family where
  id : FamilyId
  name : String
  culture : Option CultureId
  vars : VariableSet
deriving DecidableEq, Repr

structure Culture where
  id : CultureId
  name : String
  description : Option String
deriving DecidableEq, Repr

def Role.create (id : RoleId) (name : String) : Role :=
  { id, name, femaleTitle := none, priority := 0 }

def Clan.create (id : ClanId) (name : String) : Clan :=
  { id, name, description := none, culture := none, vars := .empty }

def Family.create (id : FamilyId) (name : String) : Family :=
  { id, name, culture := none, vars := .empty }

def Culture.create (id : CultureId) (name : String) : Culture := { id, name, description := none }

/-- A copy under another identifier; its variables keep theirs. -/
def Clan.duplicate (c : Clan) (id : ClanId) : Clan :=
  { c with id, vars := c.vars.duplicate }

/-- A copy under another identifier; its variables keep theirs. -/
def Family.duplicate (f : Family) (id : FamilyId) : Family :=
  { f with id, vars := f.vars.duplicate }

end Stratagem
