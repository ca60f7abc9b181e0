import Stratagem.World.Operation

/-!
# Worlds that operations build

An operation demands something of the world. It is refused for the first demand that the world does
not meet, and a refused operation changes nothing; one that is not refused changes one field of one
actor or enters one entity. So a world that is built by operations keeps its references in order.

* `Operation.demands` lists what an operation demands, in the order in which it is checked, and
  `Operation.perform_eq_of_demands` is what the operation comes to.
* `World.ActorChanged`: nothing but one actor differs.
* `World.Sound`: everything stands under its own id, and the references of actors resolve.
* `Operation.sound_perform` is the step and `World.Reached.sound` the run.
-/

namespace Stratagem

variable {w w' : World} {op : Operation} {a : Actor} {id : ActorId}

/-! ## What an operation demands -/

/-- Something that an operation demands of a world. -/
inductive Demand
  | actor (id : ActorId)
  | clan (id : ClanId)
  | family (id : FamilyId)
  | role (id : RoleId)
  | differ (child parent : ActorId)
  /-- The child does not name the parent yet. -/
  | unnamed (child parent : ActorId)
deriving DecidableEq, Repr

namespace Demand

def met (w : World) : Demand → Bool
  | .actor id => (w.actor? id).isSome
  | .clan id => (w.clan? id).isSome
  | .family id => (w.family? id).isSome
  | .role id => (w.role? id).isSome
  | .differ child parent => child ≠ parent
  | .unnamed child parent => (w.actor? child).all fun c => !c.parents.contains parent

/-- What is reported if a demand is not met. -/
def refusal : Demand → WorldError
  | .actor id => .unknownActor id
  | .clan id => .unknownClan id
  | .family id => .unknownFamily id
  | .role id => .unknownRole id
  | .differ child _ => .selfParent child
  | .unnamed child parent => .duplicateParent child parent

end Demand

namespace Operation

/-- What an operation demands, in the order in which it is checked. -/
def demands : Operation → List Demand
  | .addActor _ | .addClan _ | .addFamily _ | .addRole _ | .addCulture _ => []
  | .joinClan actor clan => [.clan clan, .actor actor]
  | .joinFamily actor family => [.family family, .actor actor]
  | .assignRole actor (some role) => [.role role, .actor actor]
  | .assignRole actor none => [.actor actor]
  | .addParent child parent =>
    [.differ child parent, .actor parent, .actor child, .unnamed child parent]

/-- The first demand of an operation that a world does not meet. -/
def unmet? (op : Operation) (w : World) : Option Demand := op.demands.find? fun d => !d.met w

/-- What an operation does to a world that meets its demands. -/
def effect (w : World) : Operation → World
  | .addActor a => w.addActor a
  | .addClan c => w.addClan c
  | .addFamily f => w.addFamily f
  | .addRole r => w.addRole r
  | .addCulture c => w.addCulture c
  | .joinClan actor clan => w.modifyActor actor fun a => { a with clan := some clan }
  | .joinFamily actor family => w.modifyActor actor fun a => { a with family := some family }
  | .assignRole actor role => w.modifyActor actor fun a => { a with role := role }
  | .addParent child parent =>
    w.modifyActor child fun a => { a with parents := a.parents ++ [parent] }

end Operation

/-- What comes of demands on a world: the refusal of the first that it does not meet, or else what
is made of it. -/
def World.comply (w : World) (demands : List Demand) (made : World) :
    Except WorldError Unit × World :=
  match demands.find? fun d => !d.met w with
  | some d => (.error d.refusal, w)
  | none => (.ok (), made)

theorem World.comply_cons (w : World) (d : Demand) (demands : List Demand) (made : World) :
    w.comply (d :: demands) made =
      if d.met w then w.comply demands made else (.error d.refusal, w) := by
  unfold comply
  rw [List.find?_cons]
  cases d.met w <;> rfl

theorem Edit.outcome_updateActor_eq_comply (id : ActorId) (f : Actor → Actor) (w : World) :
    (updateActor id f).outcome w = w.comply [.actor id] (w.modifyActor id f) := by
  rw [World.comply_cons, updateActor, outcome_actorEntry_bind]
  cases found : w.actor? id with
  | none =>
    have missing : (Demand.actor id).met w = false := congrArg Option.isSome found
    rw [missing]
    rfl
  | some a =>
    have known : (Demand.actor id).met w = true := congrArg Option.isSome found
    rw [known]
    rfl

/-- What an operation comes to is decided by its demands. -/
theorem Operation.perform_eq_comply (op : Operation) (w : World) :
    op.perform w = w.comply op.demands (op.effect w) := by
  cases op with
  | addActor | addClan | addFamily | addRole | addCulture => rfl
  | joinClan actor clan =>
    rw [demands, World.comply_cons, effect, ← Edit.outcome_updateActor_eq_comply]
    exact Edit.outcome_require_bind ..
  | joinFamily actor family =>
    rw [demands, World.comply_cons, effect, ← Edit.outcome_updateActor_eq_comply]
    exact Edit.outcome_require_bind ..
  | assignRole actor role =>
    cases role with
    | none => exact Edit.outcome_updateActor_eq_comply ..
    | some role =>
      rw [demands, World.comply_cons, effect, ← Edit.outcome_updateActor_eq_comply]
      exact Edit.outcome_require_bind ..
  | addParent child parent =>
    rw [perform, edit, Edit.addParent, Edit.outcome_require_bind, Edit.outcome_require_bind,
      Edit.outcome_actorEntry_bind, demands, World.comply_cons, World.comply_cons,
      World.comply_cons, World.comply_cons]
    cases found : w.actor? child with
    | none =>
      have missing : (Demand.actor child).met w = false := congrArg Option.isSome found
      rw [missing]
      rfl
    | some c =>
      have known : (Demand.actor child).met w = true := congrArg Option.isSome found
      have named : (Demand.unnamed child parent).met w = !c.parents.contains parent := by
        rw [Demand.met, found, Option.all_some]
      rw [known, named]
      dsimp only
      rw [Edit.outcome_require_bind]
      rfl

namespace Operation

/-- An operation is refused for the first demand that is not met, and then it changes nothing. -/
theorem perform_of_unmet {d : Demand} (unmet : op.unmet? w = some d) :
    op.perform w = (.error d.refusal, w) := by
  rw [perform_eq_comply, World.comply, ← unmet?, unmet]

theorem perform_of_met (met : op.unmet? w = none) : op.perform w = (.ok (), op.effect w) := by
  rw [perform_eq_comply, World.comply, ← unmet?, met]

theorem perform_eq_error_iff {e : WorldError} :
    (op.perform w).1 = .error e ↔ ∃ d, op.unmet? w = some d ∧ d.refusal = e := by
  cases unmet : op.unmet? w with
  | none => simp [perform_of_met unmet]
  | some d => simp [perform_of_unmet unmet]

/-- An operation succeeds if and only if its demands are met. -/
theorem perform_eq_ok_iff : (op.perform w).1 = .ok () ↔ ∀ d ∈ op.demands, d.met w = true := by
  have met : op.unmet? w = none ↔ ∀ d ∈ op.demands, d.met w = true := by
    simp [unmet?, List.find?_eq_none]
  rw [← met]
  cases unmet : op.unmet? w with
  | none => simp [perform_of_met unmet]
  | some d => simp [perform_of_unmet unmet]

end Operation

/-! ## One actor at a time -/

/-- Two worlds that differ in one actor alone, and in it by a change. -/
structure World.ActorChanged (w : World) (id : ActorId) (change : Actor → Actor) (w' : World) :
    Prop where
  actor : ∃ a, w.actor? id = some a ∧ w'.actor? id = some (change a)
  others : ∀ other, other ≠ id → w'.actor? other = w.actor? other
  keys : w'.actors.keys = w.actors.keys
  clans : w'.clans = w.clans
  families : w'.families = w.families
  roles : w'.roles = w.roles
  cultures : w'.cultures = w.cultures
  vars : w'.vars = w.vars

theorem World.actor?_modifyActor (w : World) (id other : ActorId) (f : Actor → Actor) :
    (w.modifyActor id f).actor? other =
      if other = id then (w.actor? other).map f else w.actor? other :=
  Registry.find?_modify ..

theorem World.actorChanged_modifyActor (known : w.actor? id = some a) (f : Actor → Actor) :
    w.ActorChanged id f (w.modifyActor id f) where
  actor := ⟨a, known, by rw [actor?_modifyActor, if_pos rfl, known]; rfl⟩
  others := fun other differ => by rw [actor?_modifyActor, if_neg differ]
  keys := Registry.keys_modify ..
  clans := rfl
  families := rfl
  roles := rfl
  cultures := rfl
  vars := rfl

/-! ## References in order -/

/-- Everything in a registry stands under its own key. -/
def Registry.Keyed {κ α : Type} [DecidableEq κ] (r : Registry κ α) (own : α → κ) : Prop :=
  ∀ key value, r.find? key = some value → own value = key

theorem Registry.Keyed.insert {κ α : Type} [DecidableEq κ] {r : Registry κ α} {own : α → κ}
    (keyed : r.Keyed own) (value : α) : (r.insert (own value) value).Keyed own := by
  intro key other found
  rw [find?_insert] at found
  split at found
  · next same => exact (Option.some.inj found) ▸ same.symm
  · exact keyed key other found

/-- Entering a value makes no key unknown. -/
theorem Registry.isSome_find?_insert {κ α : Type} [DecidableEq κ] (r : Registry κ α) {key other : κ}
    (value : α) (known : (r.find? other).isSome = true) :
    ((r.insert key value).find? other).isSome = true := by
  rw [find?_insert]
  split
  · rfl
  · exact known

/-- The references of an actor resolve, and it names its parents once each and not itself. -/
structure Actor.SettledIn (a : Actor) (w : World) : Prop where
  clan : ∀ id, a.clan = some id → (w.clan? id).isSome = true
  family : ∀ id, a.family = some id → (w.family? id).isSome = true
  role : ∀ id, a.role = some id → (w.role? id).isSome = true
  parents : ∀ parent ∈ a.parents, (w.actor? parent).isSome = true
  notOwn : a.id ∉ a.parents
  once : a.parents.Nodup

/-- Everything in a world stands under its own id, and every actor is settled. -/
structure World.Sound (w : World) : Prop where
  actors : w.actors.Keyed Actor.id
  clans : w.clans.Keyed Clan.id
  families : w.families.Keyed Family.id
  roles : w.roles.Keyed Role.id
  cultures : w.cultures.Keyed Culture.id
  settled : ∀ id a, w.actor? id = some a → a.SettledIn w

/-- Whatever one world has, the other has under the same key. -/
structure World.Covers (w' w : World) : Prop where
  actors : ∀ id, (w.actor? id).isSome = true → (w'.actor? id).isSome = true
  clans : ∀ id, (w.clan? id).isSome = true → (w'.clan? id).isSome = true
  families : ∀ id, (w.family? id).isSome = true → (w'.family? id).isSome = true
  roles : ∀ id, (w.role? id).isSome = true → (w'.role? id).isSome = true

/-- An actor that is settled in a world is settled in one that has more. -/
theorem Actor.SettledIn.mono (settled : a.SettledIn w) (covers : w'.Covers w) : a.SettledIn w' where
  clan := fun id own => covers.clans id (settled.clan id own)
  family := fun id own => covers.families id (settled.family id own)
  role := fun id own => covers.roles id (settled.role id own)
  parents := fun parent named => covers.actors parent (settled.parents parent named)
  notOwn := settled.notOwn
  once := settled.once

namespace World

theorem sound_empty : empty.Sound where
  actors := nofun
  clans := nofun
  families := nofun
  roles := nofun
  cultures := nofun
  settled := nofun

theorem Covers.refl (w : World) : w.Covers w where
  actors := fun _ known => known
  clans := fun _ known => known
  families := fun _ known => known
  roles := fun _ known => known

theorem covers_addActor (w : World) (a : Actor) : (w.addActor a).Covers w :=
  { Covers.refl w with actors := fun _ => Registry.isSome_find?_insert _ a }

theorem covers_modifyActor (w : World) (id : ActorId) (f : Actor → Actor) :
    (w.modifyActor id f).Covers w := by
  refine { Covers.refl w with actors := fun other known => ?_ }
  rw [actor?_modifyActor]
  split
  · rwa [Option.isSome_map]
  · exact known

/-- Entering a settled actor keeps a world sound, also in place of one that others name. -/
theorem Sound.addActor (sound : w.Sound) (settled : a.SettledIn w) : (w.addActor a).Sound where
  actors := sound.actors.insert a
  clans := sound.clans
  families := sound.families
  roles := sound.roles
  cultures := sound.cultures
  settled := by
    intro id other found
    -- whoever named an actor that is replaced finds the new one under the same key
    refine Actor.SettledIn.mono ?_ (w.covers_addActor a)
    rw [actor?, World.addActor, Registry.find?_insert] at found
    split at found
    · exact Option.some.inj found ▸ settled
    · exact sound.settled id other found

/-- Changing an actor keeps a world sound if it leaves the actor its id and keeps it settled. -/
theorem Sound.modifyActor (sound : w.Sound) (id : ActorId) {f : Actor → Actor}
    (named : ∀ a, (f a).id = a.id)
    (settled : ∀ a, w.actor? id = some a → (f a).SettledIn w) : (w.modifyActor id f).Sound where
  actors := by
    intro key other found
    change (w.modifyActor id f).actor? key = some other at found
    rw [actor?_modifyActor] at found
    split at found
    · obtain ⟨a, before, rfl⟩ := Option.map_eq_some_iff.1 found
      exact (named a).trans (sound.actors key a before)
    · exact sound.actors key other found
  clans := sound.clans
  families := sound.families
  roles := sound.roles
  cultures := sound.cultures
  settled := by
    intro key other found
    refine Actor.SettledIn.mono ?_ (w.covers_modifyActor id f)
    rw [actor?_modifyActor] at found
    split at found
    · next same =>
      obtain ⟨a, before, rfl⟩ := Option.map_eq_some_iff.1 found
      exact settled a (same ▸ before)
    · exact sound.settled key other found

end World

namespace Operation

/-- What a host may do: an actor that it enters has to be settled, and anything else it may try. -/
def Permitted (w : World) : Operation → Prop
  | .addActor a => a.SettledIn w
  | .addClan _ | .addFamily _ | .addRole _ | .addCulture _ | .joinClan .. | .joinFamily ..
  | .assignRole .. | .addParent .. => True

/-- No operation makes anything unknown. -/
theorem covers_effect (op : Operation) (w : World) : (op.effect w).Covers w := by
  cases op with
  | addActor a => exact w.covers_addActor a
  | addClan c =>
    exact { World.Covers.refl w with clans := fun _ => Registry.isSome_find?_insert _ c }
  | addFamily f =>
    exact { World.Covers.refl w with families := fun _ => Registry.isSome_find?_insert _ f }
  | addRole r =>
    exact { World.Covers.refl w with roles := fun _ => Registry.isSome_find?_insert _ r }
  | addCulture c => exact { World.Covers.refl w with }
  | joinClan | joinFamily | assignRole | addParent => exact w.covers_modifyActor ..

/-- What an operation makes of a sound world that meets its demands is sound. -/
theorem sound_effect (sound : w.Sound) (permitted : op.Permitted w)
    (met : ∀ d ∈ op.demands, d.met w = true) : (op.effect w).Sound := by
  have kept : ∀ id a, w.actor? id = some a → a.SettledIn (op.effect w) := fun id a found =>
    (sound.settled id a found).mono (op.covers_effect w)
  cases op with
  | addActor a => exact sound.addActor permitted
  | addClan c => exact { sound with clans := sound.clans.insert c, settled := kept }
  | addFamily f => exact { sound with families := sound.families.insert f, settled := kept }
  | addRole r => exact { sound with roles := sound.roles.insert r, settled := kept }
  | addCulture c => exact { sound with cultures := sound.cultures.insert c, settled := kept }
  | joinClan actor clan =>
    refine sound.modifyActor actor (fun _ => rfl) fun a found => ?_
    have known : (w.clan? clan).isSome = true := met (.clan clan) (by simp [demands])
    exact { sound.settled actor a found with
      clan := fun id joined => Option.some.inj joined ▸ known }
  | joinFamily actor family =>
    refine sound.modifyActor actor (fun _ => rfl) fun a found => ?_
    have known : (w.family? family).isSome = true := met (.family family) (by simp [demands])
    exact { sound.settled actor a found with
      family := fun id joined => Option.some.inj joined ▸ known }
  | assignRole actor role =>
    refine sound.modifyActor actor (fun _ => rfl) fun a found => ?_
    refine { sound.settled actor a found with role := fun id given => ?_ }
    obtain rfl : role = some id := given
    exact met (.role id) (by simp [demands])
  | addParent child parent =>
    refine sound.modifyActor child (fun _ => rfl) fun a found => ?_
    have settled := sound.settled child a found
    have differ : child ≠ parent :=
      of_decide_eq_true (met (.differ child parent) (by simp [demands]))
    have known : (w.actor? parent).isSome = true := met (.actor parent) (by simp [demands])
    have unnamed : parent ∉ a.parents := by
      simpa [Demand.met, found] using met (.unnamed child parent) (by simp [demands])
    -- the demand compares keys; the child is its own key because the world is sound
    have own : a.id = child := sound.actors child a found
    refine { settled with parents := ?_, notOwn := ?_, once := ?_ }
    · intro other named
      rcases List.mem_append.1 named with named | named
      · exact settled.parents other named
      · exact List.mem_singleton.1 named ▸ known
    · intro named
      rcases List.mem_append.1 named with named | named
      · exact settled.notOwn named
      · exact differ (own.symm.trans (List.mem_singleton.1 named))
    · refine List.nodup_append.2 ⟨settled.once, List.pairwise_singleton _ parent, ?_⟩
      rintro other named _ new rfl
      exact unnamed (List.mem_singleton.1 new ▸ named)

/-- One operation keeps a world sound. -/
theorem sound_perform (sound : w.Sound) (permitted : op.Permitted w) : (op.perform w).2.Sound := by
  cases unmet : op.unmet? w with
  | some d =>
    rw [perform_of_unmet unmet]
    exact sound
  | none =>
    have done := perform_of_met unmet
    have met := perform_eq_ok_iff.1 (congrArg Prod.fst done)
    rw [done]
    exact sound_effect sound permitted met

end Operation

/-- A world that operations build, one after the other, out of the empty one. -/
inductive World.Reached : World → Prop
  | empty : Reached .empty
  | step {w : World} (op : Operation) : Reached w → op.Permitted w → Reached (op.perform w).2

/-- Every world that operations build is sound. -/
theorem World.Reached.sound (reached : w.Reached) : w.Sound := by
  induction reached with
  | empty => exact sound_empty
  | step op _ permitted sound => exact Operation.sound_perform sound permitted

namespace Operation

/-- An operation that changes an actor in place, and demands it, changes that actor alone. -/
theorem actorChanged_of_ok {f : Actor → Actor} (changes : ∀ w, op.effect w = w.modifyActor id f)
    (demanded : .actor id ∈ op.demands) (done : op.perform w = (.ok (), w')) :
    w.ActorChanged id f w' := by
  have met := perform_eq_ok_iff.1 (congrArg Prod.fst done)
  obtain ⟨a, known⟩ := Option.isSome_iff_exists.1 (met _ demanded)
  have all : op.unmet? w = none := by
    simpa [unmet?, List.find?_eq_none] using met
  obtain rfl : op.effect w = w' := congrArg Prod.snd ((perform_of_met all).symm.trans done)
  exact changes w ▸ World.actorChanged_modifyActor known f

/-- In a world that operations build, everything stands under its own id, the clan, family and role
of every actor resolve, and so do its parents, which are named once each and are not the actor
itself. An operation in place comes to the same as the one that makes a new world. It is refused
exactly if the world fails a demand of it, for the first that it fails, and leaves the world as it
was. A success with a clan, a family, a role or a parent changes that field of the actor named, and
nothing else. -/
theorem keeps_references :
    (∀ w : World, w.Reached → w.Sound) ∧
    (∀ (w : World) (op : Operation), op.perform w = Edit.settle w (op.result w)) ∧
    (∀ (w : World) (op : Operation) (e : WorldError),
      ((op.perform w).1 = .error e ↔ ∃ d, op.unmet? w = some d ∧ d.refusal = e) ∧
      ((op.perform w).1 = .error e → (op.perform w).2 = w)) ∧
    ∀ w w' : World,
      (∀ actor clan, (joinClan actor clan).perform w = (.ok (), w') →
        w.ActorChanged actor (fun a => { a with clan := some clan }) w') ∧
      (∀ actor family, (joinFamily actor family).perform w = (.ok (), w') →
        w.ActorChanged actor (fun a => { a with family := some family }) w') ∧
      (∀ actor role, (assignRole actor role).perform w = (.ok (), w') →
        w.ActorChanged actor (fun a => { a with role := role }) w') ∧
      ∀ child parent, (addParent child parent).perform w = (.ok (), w') →
        w.ActorChanged child (fun a => { a with parents := a.parents ++ [parent] }) w' := by
  refine ⟨fun w reached => reached.sound, fun w op => op.perform_eq w,
    fun w op e => ⟨perform_eq_error_iff, fun refused => ?_⟩,
    fun w w' => ⟨fun actor clan => ?_, fun actor family => ?_, fun actor role => ?_,
      fun child parent => ?_⟩⟩
  · obtain ⟨d, unmet, -⟩ := perform_eq_error_iff.1 refused
    rw [perform_of_unmet unmet]
  · exact actorChanged_of_ok (fun _ => rfl) (by simp [demands])
  · exact actorChanged_of_ok (fun _ => rfl) (by simp [demands])
  · exact actorChanged_of_ok (fun _ => rfl) (by cases role <;> simp [demands])
  · exact actorChanged_of_ok (fun _ => rfl) (by simp [demands])

/-- Bob becomes a parent of Ada once; he is refused when he is named again, and Ada when she is
named as her own. -/
theorem keeps_references_twice :
    let ada := Actor.create .nil "Ada" .female
    let bob := Actor.create ⟨⟨1⟩⟩ "Bob" .male
    let w := (World.empty.addActor ada).addActor bob
    let named := (addParent ada.id bob.id).perform w
    named.1 = .ok () ∧ named.2.Sound ∧
      (∃ a, named.2.actor? ada.id = some a ∧ a = { ada with parents := [bob.id] }) ∧
      (addParent ada.id bob.id).perform named.2 =
        (.error (.duplicateParent ada.id bob.id), named.2) ∧
      (addParent ada.id ada.id).perform named.2 = (.error (.selfParent ada.id), named.2) := by
  intro ada bob w named
  obtain ⟨sound, -, refused, changed⟩ := keeps_references
  have free : ∀ (w : World) (id : ActorId) (name : String) (gender : Gender),
      (Actor.create id name gender).SettledIn w := fun _ _ _ _ =>
    ⟨nofun, nofun, nofun, nofun, nofun, .nil⟩
  have built : World.Reached w :=
    .step (.addActor bob) (.step (.addActor ada) .empty (free ..)) (free ..)
  have done : named.1 = .ok () := rfl
  obtain ⟨a, before, after⟩ := ((changed w named.2).2.2.2 ada.id bob.id rfl).actor
  obtain rfl : ada = a := Option.some.inj before
  have again := (refused named.2 (addParent ada.id bob.id) (.duplicateParent ada.id bob.id)).1.2
    ⟨.unnamed ada.id bob.id, rfl, rfl⟩
  have own := (refused named.2 (addParent ada.id ada.id) (.selfParent ada.id)).1.2
    ⟨.differ ada.id ada.id, rfl, rfl⟩
  exact ⟨done, sound _ (.step _ built trivial), ⟨_, after, rfl⟩,
    Prod.ext again ((refused _ _ _).2 again), Prod.ext own ((refused _ _ _).2 own)⟩

end Operation

end Stratagem
