import Stratagem.World.Basic

/-!
# Operations on a world

A host builds a world up and changes it by one `Operation` after the other, each of them in place:
an operation looks up what it needs, refuses to go on, or changes an entry, and whatever it has
changed before a refusal stays changed.

* `Edit` is a change in place, and `Edit.actorEntry` its access to an actor.
* `Operation.perform` is what an operation comes to and the world that it leaves.
* `Operation.perform_eq`: no operation changes anything before it is refused, so it comes to the
  same as the operation that makes a new world of an old one.
* `World.after` is the world that a run of operations leaves, and `World.after_keeps` the induction
  along a run.
-/

namespace Stratagem

/-- A change of a world in place. It may be refused; there is a world after it in either case. -/
abbrev Edit := ExceptT WorldError (StateM World)

namespace Edit

variable {α β : Type}

/-- What a change comes to, and the world after it. -/
def outcome (edit : Edit α) (w : World) : Except WorldError α × World := edit.run.run w

/-- Refuse to go on unless a condition holds. -/
def require (holds : World → Bool) (refusal : WorldError) : Edit Unit := do
  unless holds (← get) do throw refusal

/-- The actor under a key, which must be there. -/
def actorEntry (id : ActorId) : Edit Actor := do
  match (← get).actor? id with
  | some a => pure a
  | none => throw (.unknownActor id)

/-- Change the actor under a key, which must be there. -/
def updateActor (id : ActorId) (f : Actor → Actor) : Edit Unit := do
  let _ ← actorEntry id
  modify (·.modifyActor id f)

/-- Move an actor into a clan. -/
def joinClan (actor : ActorId) (clan : ClanId) : Edit Unit := do
  require (·.clans.contains clan) (.unknownClan clan)
  updateActor actor fun a => { a with clan := some clan }

/-- Move an actor into a family. -/
def joinFamily (actor : ActorId) (family : FamilyId) : Edit Unit := do
  require (·.families.contains family) (.unknownFamily family)
  updateActor actor fun a => { a with family := some family }

/-- Give an actor a role, or take its role away. -/
def assignRole (actor : ActorId) (role : Option RoleId) : Edit Unit := do
  if let some r := role then require (·.roles.contains r) (.unknownRole r)
  updateActor actor fun a => { a with role := role }

/-- Name one actor as a parent of another. -/
def addParent (child parent : ActorId) : Edit Unit := do
  require (fun _ => child ≠ parent) (.selfParent child)
  require (·.actors.contains parent) (.unknownActor parent)
  let entry ← actorEntry child
  require (fun _ => !entry.parents.contains parent) (.duplicateParent child parent)
  modify (·.modifyActor child fun a => { a with parents := a.parents ++ [parent] })

/-! ## What the steps of a change come to -/

theorem outcome_bind (edit : Edit α) (next : α → Edit β) (w : World) :
    (edit >>= next).outcome w =
      match edit.outcome w with
      | (.ok a, w') => (next a).outcome w'
      | (.error e, w') => (.error e, w') := by
  show (match edit.outcome w with | (result, w') => ExceptT.bindCont next result w') = _
  rcases edit.outcome w with ⟨_ | _, w'⟩ <;> rfl

theorem outcome_get (w : World) : (get : Edit World).outcome w = (.ok w, w) := rfl

/-- A change goes on behind a condition if it holds. -/
theorem outcome_require_bind (holds : World → Bool) (refusal : WorldError) (next : Unit → Edit α)
    (w : World) :
    (require holds refusal >>= next).outcome w =
      if holds w then (next ()).outcome w else (.error refusal, w) := by
  simp only [require, outcome_bind, outcome_get]
  cases holds w <;> rfl

/-- A change goes on with an actor if it is there. -/
theorem outcome_actorEntry_bind (id : ActorId) (next : Actor → Edit α) (w : World) :
    (actorEntry id >>= next).outcome w =
      match w.actor? id with
      | some a => (next a).outcome w
      | none => (.error (.unknownActor id), w) := by
  simp only [actorEntry, outcome_bind, outcome_get]
  cases w.actor? id <;> rfl

/-- What it comes to in place if a new world is made of a world or refused. -/
def settle (w : World) : Except WorldError World → Except WorldError Unit × World
  | .ok w' => (.ok (), w')
  | .error e => (.error e, w)

theorem settle_ite (w : World) (holds : Bool) (result : Except WorldError World)
    (refusal : WorldError) :
    settle w (if holds then result else .error refusal) =
      if holds then settle w result else (.error refusal, w) := by
  cases holds <;> rfl

theorem outcome_updateActor (id : ActorId) (f : Actor → Actor) (w : World) :
    (updateActor id f).outcome w = settle w (w.updateActor id f) := by
  have known : w.actors.contains id = (w.actor? id).isSome := rfl
  simp only [updateActor, outcome_actorEntry_bind, World.updateActor, known]
  cases w.actor? id <;> rfl

end Edit

/-- What a host can do to a world. -/
inductive Operation
  | addActor (a : Actor)
  | addClan (c : Clan)
  | addFamily (f : Family)
  | addRole (r : Role)
  | addCulture (c : Culture)
  | joinClan (actor : ActorId) (clan : ClanId)
  | joinFamily (actor : ActorId) (family : FamilyId)
  | assignRole (actor : ActorId) (role : Option RoleId)
  | addParent (child parent : ActorId)
deriving DecidableEq, Repr

namespace Operation

/-- The change in place that an operation is. -/
def edit : Operation → Edit Unit
  | .addActor a => modify (·.addActor a)
  | .addClan c => modify (·.addClan c)
  | .addFamily f => modify (·.addFamily f)
  | .addRole r => modify (·.addRole r)
  | .addCulture c => modify (·.addCulture c)
  | .joinClan actor clan => .joinClan actor clan
  | .joinFamily actor family => .joinFamily actor family
  | .assignRole actor role => .assignRole actor role
  | .addParent child parent => .addParent child parent

/-- What an operation comes to, and the world after it. -/
def perform (op : Operation) (w : World) : Except WorldError Unit × World := op.edit.outcome w

/-- The world that an operation makes of another, unless it is refused. -/
def result (w : World) : Operation → Except WorldError World
  | .addActor a => .ok (w.addActor a)
  | .addClan c => .ok (w.addClan c)
  | .addFamily f => .ok (w.addFamily f)
  | .addRole r => .ok (w.addRole r)
  | .addCulture c => .ok (w.addCulture c)
  | .joinClan actor clan => w.joinClan actor clan
  | .joinFamily actor family => w.joinFamily actor family
  | .assignRole actor role => w.assignRole actor role
  | .addParent child parent => w.addParent child parent

/-- An operation in place leaves the world that it makes of the old one, and the old one if it is
refused. -/
theorem perform_eq (op : Operation) (w : World) : op.perform w = Edit.settle w (op.result w) := by
  cases op with
  | addActor | addClan | addFamily | addRole | addCulture => rfl
  | joinClan actor clan =>
    simp only [perform, edit, Edit.joinClan, Edit.outcome_require_bind, Edit.outcome_updateActor,
      result, World.joinClan]
    exact (Edit.settle_ite ..).symm
  | joinFamily actor family =>
    simp only [perform, edit, Edit.joinFamily, Edit.outcome_require_bind,
      Edit.outcome_updateActor, result, World.joinFamily]
    exact (Edit.settle_ite ..).symm
  | assignRole actor role =>
    cases role with
    | none => exact Edit.outcome_updateActor ..
    | some r =>
      simp only [perform, edit, Edit.assignRole, Edit.outcome_require_bind,
        Edit.outcome_updateActor, result, World.assignRole]
      exact (Edit.settle_ite ..).symm
  | addParent child parent =>
    simp only [perform, edit, Edit.addParent, Edit.outcome_require_bind,
      Edit.outcome_actorEntry_bind, result, World.addParent]
    by_cases own : child = parent
    · simp [own, Edit.settle]
    cases w.actors.contains parent with
    | false => simp [own, Edit.settle]
    | true =>
      cases w.actor? child with
      | none => simp [own, Edit.settle]
      | some c =>
        cases named : c.parents.contains parent <;>
          simp only [own, named, ne_eq, not_false_eq_true, decide_true, if_true, if_false,
            Bool.not_true, Bool.not_false, Bool.false_eq_true] <;> rfl

end Operation

/-! ## Runs -/

namespace World

/-- The world after one operation behind the other. -/
def after (w : World) (ops : List Operation) : World :=
  ops.foldl (fun w op => (op.perform w).2) w

theorem after_concat (w : World) (ops : List Operation) (op : Operation) :
    w.after (ops ++ [op]) = (op.perform (w.after ops)).2 := by
  rw [after, List.foldl_append]
  rfl

/-- What holds of a world, and is kept by every operation of a run, holds after the run. -/
theorem after_keeps {P : World → Prop} {w : World} {ops : List Operation} (start : P w)
    (step : ∀ w, ∀ op ∈ ops, P w → P (op.perform w).2) : P (w.after ops) := by
  induction ops generalizing w with
  | nil => exact start
  | cons op ops ih =>
    exact ih (step w op List.mem_cons_self start)
      fun w later met => step w later (List.mem_cons_of_mem _ met)

end World

end Stratagem
