import Mathlib.Data.List.Sort
import Stratagem.Proofs.World.Kinship
import Stratagem.Proofs.World.Operation

/-!
# Members of clans and families

Who belongs to a clan or to a family is not stored with the group. The list of its members is made of
the actors, each of whom says where it belongs, in the order of their identifiers.

* `World.membersOf` is the list of the members of a group of any sort.
* `Rolls.Exact`: every list is in order, and every actor is on the list of its own group and on no
  other.
* `Rolls.Joined` is what becomes of the lists of one sort of groups if an actor joins a group, and
  `Rolls.Kept` if it stays where it is.
* `World.ActorChanged.joined` and `World.ActorChanged.kept`: what a change of one actor does to them.
* `World.memberships_exact` is the result for runs of operations.
-/

namespace Stratagem

/-! ## Lists in the order of identifiers -/

section Lists

variable {items items' : List Actor} {a x : Actor}

/-- Lists in strict order are the same if they have the same actors. -/
theorem eq_of_mem_iff_of_pairwise (sorted : items.Pairwise fun x y => x.id < y.id)
    (sorted' : items'.Pairwise fun x y => x.id < y.id) (same : ∀ x, x ∈ items ↔ x ∈ items') :
    items = items' := by
  have irrefl : Std.Irrefl fun x y : Actor => x.id < y.id := ⟨fun _ => Nat.lt_irrefl _⟩
  have antisymm : Std.Antisymm fun x y : Actor => x.id < y.id :=
    ⟨fun _ _ lt gt => absurd lt (Nat.lt_asymm gt)⟩
  exact sorted.eq_of_mem_iff sorted' same

/-- A list with one more actor, who stands in front of the first with a higher identifier. -/
def enlist (a : Actor) (items : List Actor) : List Actor :=
  items.orderedInsert (fun x y => x.id ≤ y.id) a

theorem mem_enlist : x ∈ enlist a items ↔ x = a ∨ x ∈ items := List.mem_orderedInsert _

theorem pairwise_enlist (sorted : items.Pairwise fun x y => x.id < y.id)
    (fresh : ∀ x ∈ items, x.id ≠ a.id) : (enlist a items).Pairwise fun x y => x.id < y.id := by
  induction items with
  | nil => exact List.pairwise_singleton _ a
  | cons b items ih =>
    obtain ⟨behind, sorted⟩ := List.pairwise_cons.1 sorted
    obtain ⟨differ, fresh⟩ := List.forall_mem_cons.1 fresh
    rw [enlist, List.orderedInsert_cons]
    split
    · next le =>
      have first : a.id < b.id := Id.lt_of_le_of_ne le differ.symm
      refine List.pairwise_cons.2 ⟨?_, List.pairwise_cons.2 ⟨behind, sorted⟩⟩
      exact List.forall_mem_cons.2 ⟨first, fun x met => Nat.lt_trans first (behind x met)⟩
    · next gt =>
      refine List.pairwise_cons.2 ⟨fun x met => ?_, ih sorted fresh⟩
      rcases mem_enlist.1 met with rfl | met
      · exact Nat.lt_of_not_le gt
      · exact behind x met

theorem nodup_of_pairwise_lt (sorted : items.Pairwise fun x y => x.id < y.id) : items.Nodup :=
  List.Pairwise.imp (fun lt same => absurd (congrArg Actor.id same ▸ lt) (Nat.lt_irrefl _)) sorted

end Lists

/-! ## Lists of members

The lists of one sort of groups are a function `rolls` from the groups, and the group that an actor
says it is in is `group`. -/

namespace Rolls

variable {γ : Type}

/-- Every list is in order and has actors of the world, and every actor is on the list of its own
group and on no other. -/
structure Exact (w : World) (group : Actor → Option γ) (rolls : γ → List Actor) : Prop where
  sorted : ∀ g, (rolls g).Pairwise fun x y => x.id < y.id
  known : ∀ g, ∀ x ∈ rolls g, w.actor? x.id = some x
  own : ∀ id a, w.actor? id = some a → ∀ g, a ∈ rolls g ↔ group a = some g

/-- What becomes of the lists if an actor joins the group `g`: the list of that group is the old one,
with the actor in its place unless it was there, the actor is gone from the list of its former group,
and every other list is the old one. -/
structure Joined (rolls rolls' : γ → List Actor) (former : Option γ) (g : γ) (a a' : Actor) :
    Prop where
  again : a ∈ rolls g → rolls' g = rolls g
  entered : a ∉ rolls g → rolls' g = enlist a' (rolls g)
  left : ∀ other, former = some other → other ≠ g → rolls' other = (rolls other).erase a
  others : ∀ other, former ≠ some other → other ≠ g → rolls' other = rolls other

/-- What becomes of the lists if an actor changes, but stays in its group: every list names the same
actors, and has the changed one in the same place. -/
structure Kept (rolls rolls' : γ → List Actor) (a a' : Actor) : Prop where
  same : ∀ g, (rolls' g).map Actor.id = (rolls g).map Actor.id
  records : ∀ g, rolls' g = (rolls g).map fun x => if x = a then a' else x

end Rolls

/-! ## Groups of any sort -/

namespace World

variable {γ : Type} [DecidableEq γ] {group : Actor → Option γ} {w w' : World} {p : Actor → Bool}
variable {id : ActorId} {a x : Actor} {f : Actor → Actor}

/-- The members of a group, by what the actors say of themselves. For clans it is `clanMembers` and
for families `familyMembers`. -/
def membersOf (w : World) (group : Actor → Option γ) (g : γ) : List Actor :=
  w.actorsWhere fun a => group a = some g

theorem OwnKeys.mem_actorsWhere_iff (own : w.OwnKeys) :
    x ∈ w.actorsWhere p ↔ w.actor? x.id = some x ∧ p x = true := by
  rw [mem_actorsWhere]
  exact and_congr_left fun _ => ⟨own.actor?_id, Registry.mem_values_of_find?⟩

/-- A list is the one of all actors that a condition holds of if it is in order and has them. -/
theorem OwnKeys.actorsWhere_eq (own : w.OwnKeys) {items : List Actor}
    (sorted : items.Pairwise fun x y => x.id < y.id)
    (members : ∀ x, x ∈ items ↔ w.actor? x.id = some x ∧ p x = true) : w.actorsWhere p = items :=
  eq_of_mem_iff_of_pairwise (own.pairwise_actorsWhere p) sorted fun x =>
    own.mem_actorsWhere_iff.trans (members x).symm

theorem OwnKeys.actorsWhere_eq_of_perm (own : w.OwnKeys) {items : List Actor}
    (sorted : items.Pairwise fun x y => x.id < y.id)
    (members : items.Perm (w.actors.values.filter p)) : w.actorsWhere p = items :=
  eq_of_mem_iff_of_pairwise (own.pairwise_actorsWhere p) sorted fun _ =>
    List.mem_mergeSort.trans members.mem_iff.symm

theorem OwnKeys.exact (own : w.OwnKeys) (group : Actor → Option γ) :
    Rolls.Exact w group (w.membersOf group) where
  sorted := fun _ => own.pairwise_actorsWhere _
  known := fun _ _ met => (own.mem_actorsWhere_iff.1 met).1
  own := by
    intro id a found g
    rw [membersOf, mem_actorsWhere, decide_eq_true_iff]
    exact and_iff_right (Registry.mem_values_of_find? found)

/-! ## A change of one actor -/

/-- The actors after a change of one of them: the changed one, and the others. -/
theorem ActorChanged.actor?_id_iff (changed : w.ActorChanged id f w') (own : w.OwnKeys)
    (named : ∀ a, (f a).id = a.id) (before : w.actor? id = some a) (x : Actor) :
    w'.actor? x.id = some x ↔ x = f a ∨ x ≠ a ∧ w.actor? x.id = some x := by
  obtain ⟨a', before', after⟩ := changed.actor
  obtain rfl : a' = a := Option.some.inj (before'.symm.trans before)
  have key : a'.id = id := own.id_eq before
  by_cases same : x.id = id
  · rw [same, after, before]
    constructor
    · exact fun found => .inl (Option.some.inj found).symm
    · rintro (rfl | ⟨differ, found⟩)
      · rfl
      · exact absurd (Option.some.inj found).symm differ
  · rw [changed.others x.id same]
    constructor
    · exact fun found => .inr ⟨fun eq => same (eq ▸ key), found⟩
    · rintro (rfl | ⟨-, found⟩)
      · exact absurd ((named a').trans key) same
      · exact found

section Lists

variable (changed : w.ActorChanged id f w') (own : w.OwnKeys) (own' : w'.OwnKeys)
  (named : ∀ a, (f a).id = a.id) (before : w.actor? id = some a)

include changed own own' named before

/-- A list that a changed actor comes to has it in its place. -/
theorem ActorChanged.actorsWhere_of_enters (out : p a = false) (into : p (f a) = true) :
    w'.actorsWhere p = enlist (f a) (w.actorsWhere p) := by
  have key : (f a).id = a.id := named a
  refine own'.actorsWhere_eq ?_ fun x => ?_
  · refine pairwise_enlist (own.pairwise_actorsWhere p) fun x met same => ?_
    obtain ⟨found, holds⟩ := own.mem_actorsWhere_iff.1 met
    rw [same, key, own.id_eq before, before] at found
    rw [← Option.some.inj found, out] at holds
    cases holds
  · rw [mem_enlist, changed.actor?_id_iff own named before, own.mem_actorsWhere_iff]
    constructor
    · rintro (rfl | ⟨found, holds⟩)
      · exact ⟨.inl rfl, into⟩
      · exact ⟨.inr ⟨fun same => by simp [← same, holds] at out, found⟩, holds⟩
    · rintro ⟨rfl | ⟨-, found⟩, holds⟩
      · exact .inl rfl
      · exact .inr ⟨found, holds⟩

/-- A list that a changed actor goes from loses it. -/
theorem ActorChanged.actorsWhere_of_leaves (out : p (f a) = false) :
    w'.actorsWhere p = (w.actorsWhere p).erase a := by
  have sorted := own.pairwise_actorsWhere p
  refine own'.actorsWhere_eq (sorted.sublist List.erase_sublist) ?_
  intro x
  rw [(nodup_of_pairwise_lt sorted).mem_erase_iff, changed.actor?_id_iff own named before,
    own.mem_actorsWhere_iff]
  constructor
  · exact fun ⟨differ, found, holds⟩ => ⟨.inr ⟨differ, found⟩, holds⟩
  · rintro ⟨rfl | ⟨differ, found⟩, holds⟩
    · rw [out] at holds
      cases holds
    · exact ⟨differ, found, holds⟩

/-- A list that a changed actor neither comes to nor goes from is the old one, with the actor
changed if it is on it. -/
theorem ActorChanged.actorsWhere_of_stays (same : p (f a) = p a) :
    w'.actorsWhere p = (w.actorsWhere p).map fun x => if x = a then f a else x := by
  have key : ∀ x, (if x = a then f a else x).id = x.id := by
    intro x
    split
    · next eq => rw [eq, named a]
    · rfl
  refine own'.actorsWhere_eq ?_ fun x => ?_
  · refine List.pairwise_map.2 ((own.pairwise_actorsWhere p).imp fun {x y} lt => ?_)
    rwa [key x, key y]
  · rw [List.mem_map, changed.actor?_id_iff own named before]
    simp only [own.mem_actorsWhere_iff]
    constructor
    · rintro ⟨y, ⟨found, holds⟩, rfl⟩
      split
      · next eq => exact ⟨.inl rfl, by rw [same, ← eq, holds]⟩
      · next differ => exact ⟨.inr ⟨differ, found⟩, holds⟩
    · rintro ⟨rfl | ⟨differ, found⟩, holds⟩
      · exact ⟨a, ⟨by rw [own.id_eq before, before], same.symm.trans holds⟩, if_pos rfl⟩
      · exact ⟨x, ⟨found, holds⟩, if_neg differ⟩

end Lists

end World

/-! ## Joining a group and staying in it -/

namespace World

variable {γ : Type} [DecidableEq γ] {group : Actor → Option γ} {w w' : World}
variable {id : ActorId} {a : Actor} {f : Actor → Actor} {g : γ}

theorem ActorChanged.joined (changed : w.ActorChanged id f w') (own : w.OwnKeys) (own' : w'.OwnKeys)
    (named : ∀ a, (f a).id = a.id) (before : w.actor? id = some a) (into : group (f a) = some g)
    (again : group a = some g → f a = a) :
    Rolls.Joined (w.membersOf group) (w'.membersOf group) (group a) g a (f a) := by
  have member := (own.exact group).own id a before
  -- a list that the actor is not on before or after the change is the old one
  have old : ∀ other, (∀ x ∈ w.membersOf group other, (if x = a then f a else x) = x) →
      (group (f a) = some other ↔ group a = some other) →
      w'.membersOf group other = w.membersOf group other := by
    intro other fixed same
    refine (changed.actorsWhere_of_stays own own' named before (decide_eq_decide.2 same)).trans ?_
    exact (List.map_congr_left fixed).trans (List.map_id _)
  refine ⟨fun met => ?_, fun fresh => ?_, fun other was differ => ?_, fun other was differ => ?_⟩
  · have was := (member g).1 met
    refine old g (fun x _ => ?_) (iff_of_true into was)
    rw [again was]
    split
    · next eq => exact eq.symm
    · rfl
  · have out : group a ≠ some g := fun was => fresh ((member g).2 was)
    exact changed.actorsWhere_of_enters own own' named before (decide_eq_false out)
      (decide_eq_true into)
  · have out : group (f a) ≠ some other := fun now =>
      differ (Option.some.inj (into.symm.trans now)).symm
    exact changed.actorsWhere_of_leaves own own' named before (decide_eq_false out)
  · have out : group (f a) ≠ some other := fun now =>
      differ (Option.some.inj (into.symm.trans now)).symm
    refine old other (fun x met => if_neg ?_) (iff_of_false out was)
    rintro rfl
    exact was ((member other).1 met)

theorem ActorChanged.kept (changed : w.ActorChanged id f w') (own : w.OwnKeys) (own' : w'.OwnKeys)
    (named : ∀ a, (f a).id = a.id) (before : w.actor? id = some a) (stays : group (f a) = group a) :
    Rolls.Kept (w.membersOf group) (w'.membersOf group) a (f a) := by
  have records : ∀ g, w'.membersOf group g =
      (w.membersOf group g).map fun x => if x = a then f a else x := fun g =>
    changed.actorsWhere_of_stays own own' named before (by rw [stays])
  refine ⟨fun g => ?_, records⟩
  rw [records, List.map_map]
  refine List.map_congr_left fun x _ => ?_
  show (if x = a then f a else x).id = x.id
  split
  · next eq => rw [eq, named a]
  · rfl

/-! ## Runs -/

theorem OwnKeys.modifyActor (own : w.OwnKeys) (named : ∀ a, (f a).id = a.id) (id : ActorId) :
    (w.modifyActor id f).OwnKeys := by
  intro entry met
  obtain ⟨old, there, rfl⟩ := List.mem_map.1 met
  unfold Registry.modifyEntry
  split
  · exact (named old.2).trans (own old there)
  · exact own old there

theorem OwnKeys.perform (own : w.OwnKeys) (op : Operation) : (op.perform w).2.OwnKeys := by
  cases unmet : op.unmet? w with
  | some d =>
    rw [Operation.perform_of_unmet unmet]
    exact own
  | none =>
    rw [Operation.perform_of_met unmet]
    cases op with
    | addActor a => exact own.addActor a
    | addClan | addFamily | addRole | addCulture => exact own
    | joinClan | joinFamily | assignRole | addParent =>
      exact own.modifyActor (by exact fun _ => rfl) _

theorem OwnKeys.of_perform {op : Operation} {outcome : Except WorldError Unit} (own : w.OwnKeys)
    (done : op.perform w = (outcome, w')) : w'.OwnKeys := by
  obtain rfl : (op.perform w).2 = w' := congrArg Prod.snd done
  exact own.perform op

/-- Whatever operations build a world, every actor stands under its own identifier. -/
theorem ownKeys_after (ops : List Operation) : (empty.after ops).OwnKeys :=
  after_keeps (ownKeys_of_empty rfl) fun _ op _ own => own.perform op

/-- An operation that moves an actor into a group of one sort leaves it where it is among the groups
of another. -/
theorem OwnKeys.joins {δ : Type} [DecidableEq δ] {group' : Actor → Option δ} {op : Operation}
    (own : w.OwnKeys) (changes : ∀ w, op.effect w = w.modifyActor id f)
    (demanded : .actor id ∈ op.demands) (named : ∀ a, (f a).id = a.id)
    (into : ∀ a, group (f a) = some g) (again : ∀ a, group a = some g → f a = a)
    (stays : ∀ a, group' (f a) = group' a) (done : op.perform w = (.ok (), w')) :
    ∃ a, w.actor? id = some a ∧
      Rolls.Joined (w.membersOf group) (w'.membersOf group) (group a) g a (f a) ∧
      Rolls.Kept (w.membersOf group') (w'.membersOf group') a (f a) := by
  have changed := Operation.actorChanged_of_ok changes demanded done
  have own' : w'.OwnKeys := own.of_perform done
  obtain ⟨a, before, -⟩ := changed.actor
  exact ⟨a, before, changed.joined own own' named before (into a) (again a),
    changed.kept own own' named before (stays a)⟩

/-- In a world that operations build, in whatever order and with whatever outcomes, every list of the
members of a clan or of a family is in strict order of identifiers, and every actor is on the list of
its own clan and of its own family and on no other. Joining succeeds if the group and the actor are
there. An actor that joins a clan is on the list of the clan in its place, and unless it was there
the list is the old one otherwise; it is gone from the list of its former clan, every other list of a
clan is the old one, and the lists of the families name the same actors. Joining a family is the same
with clans and families exchanged. An actor that is given a role or loses it stays where it is. An
operation that is refused changes no list. -/
theorem memberships_exact (ops : List Operation) :
    let w := empty.after ops
    (Rolls.Exact w Actor.clan w.clanMembers ∧ Rolls.Exact w Actor.family w.familyMembers) ∧
    (∀ actor clan,
      (((Operation.joinClan actor clan).perform w).1 = .ok () ↔
        (w.clan? clan).isSome = true ∧ (w.actor? actor).isSome = true) ∧
      ∀ w', (Operation.joinClan actor clan).perform w = (.ok (), w') →
        ∃ a, w.actor? actor = some a ∧
          Rolls.Joined w.clanMembers w'.clanMembers a.clan clan a { a with clan := some clan } ∧
          Rolls.Kept w.familyMembers w'.familyMembers a { a with clan := some clan }) ∧
    (∀ actor family,
      (((Operation.joinFamily actor family).perform w).1 = .ok () ↔
        (w.family? family).isSome = true ∧ (w.actor? actor).isSome = true) ∧
      ∀ w', (Operation.joinFamily actor family).perform w = (.ok (), w') →
        ∃ a, w.actor? actor = some a ∧
          Rolls.Joined w.familyMembers w'.familyMembers a.family family a
            { a with family := some family } ∧
          Rolls.Kept w.clanMembers w'.clanMembers a { a with family := some family }) ∧
    (∀ actor role w', (Operation.assignRole actor role).perform w = (.ok (), w') →
      ∃ a, w.actor? actor = some a ∧
        Rolls.Kept w.clanMembers w'.clanMembers a { a with role := role } ∧
        Rolls.Kept w.familyMembers w'.familyMembers a { a with role := role }) ∧
    ∀ (op : Operation) e w', op.perform w = (.error e, w') →
      w'.clanMembers = w.clanMembers ∧ w'.familyMembers = w.familyMembers := by
  intro w
  have own : w.OwnKeys := ownKeys_after ops
  refine ⟨⟨own.exact Actor.clan, own.exact Actor.family⟩, fun actor clan => ⟨?_, fun w' done => ?_⟩,
    fun actor family => ⟨?_, fun w' done => ?_⟩, fun actor role w' done => ?_,
    fun op e w' refused => ?_⟩
  · rw [Operation.perform_eq_ok_iff]
    simp [Operation.demands, Demand.met]
  · exact own.joins (f := fun a => { a with clan := some clan }) (fun _ => rfl)
      (by simp [Operation.demands]) (fun _ => rfl) (fun _ => rfl) (fun a was => by rw [← was])
      (fun _ => rfl) done
  · rw [Operation.perform_eq_ok_iff]
    simp [Operation.demands, Demand.met]
  · exact own.joins (f := fun a => { a with family := some family }) (fun _ => rfl)
      (by simp [Operation.demands]) (fun _ => rfl) (fun _ => rfl) (fun a was => by rw [← was])
      (fun _ => rfl) done
  · have changed := Operation.actorChanged_of_ok (fun _ => rfl)
      (by cases role <;> simp [Operation.demands]) done
    have own' : w'.OwnKeys := own.of_perform done
    obtain ⟨a, before, -⟩ := changed.actor
    exact ⟨a, before, changed.kept own own' (fun _ => rfl) before rfl,
      changed.kept own own' (fun _ => rfl) before rfl⟩
  · obtain ⟨d, unmet, -⟩ := Operation.perform_eq_error_iff.1 (congrArg Prod.fst refused)
    have same : w = w' := congrArg Prod.snd ((Operation.perform_of_unmet unmet).symm.trans refused)
    rw [same]
    exact ⟨rfl, rfl⟩

/-- Bob moves from the clan Ost, where Eve stays behind, to the clan Vey, in between Ada and Cid. -/
theorem memberships_exact_moving :
    let vey := Clan.create ⟨⟨7⟩⟩ "Vey"
    let ost := Clan.create ⟨⟨8⟩⟩ "Ost"
    let ada := { Actor.create ⟨⟨1⟩⟩ "Ada" .female with clan := some vey.id }
    let bob := { Actor.create ⟨⟨2⟩⟩ "Bob" .male with clan := some ost.id }
    let cid := { Actor.create ⟨⟨3⟩⟩ "Cid" .male with clan := some vey.id }
    let eve := { Actor.create ⟨⟨4⟩⟩ "Eve" .female with clan := some ost.id }
    let w := empty.after [.addClan vey, .addClan ost, .addActor eve, .addActor cid, .addActor bob,
      .addActor ada]
    let moved := (Operation.joinClan bob.id vey.id).perform w
    moved.1 = .ok () ∧
      w.clanMembers vey.id = [ada, cid] ∧ w.clanMembers ost.id = [bob, eve] ∧
      moved.2.clanMembers vey.id = [ada, { bob with clan := some vey.id }, cid] ∧
      moved.2.clanMembers ost.id = [eve] := by
  intro vey ost ada bob cid eve w moved
  have own : w.OwnKeys := ownKeys_after _
  have atVey : w.clanMembers vey.id = [ada, cid] :=
    own.actorsWhere_eq_of_perm (by decide) (by decide +kernel)
  have atOst : w.clanMembers ost.id = [bob, eve] :=
    own.actorsWhere_eq_of_perm (by decide) (by decide +kernel)
  have joining := (memberships_exact [.addClan vey, .addClan ost, .addActor eve, .addActor cid,
    .addActor bob, .addActor ada]).2.1 bob.id vey.id
  have done : moved.1 = .ok () := joining.1.2 (by decide +kernel)
  have accepted : ∀ r : Except WorldError Unit × World, r.1 = .ok () → r = (.ok (), r.2) :=
    fun _ ok => Prod.ext ok rfl
  obtain ⟨a, before, joined, -⟩ := joining.2 moved.2 (accepted moved done)
  have found : w.actor? bob.id = some bob := by decide +kernel
  obtain rfl : bob = a := Option.some.inj (found.symm.trans before)
  have fresh : bob ∉ w.clanMembers vey.id := by
    rw [atVey]
    decide +kernel
  have nowAtVey : moved.2.clanMembers vey.id = [ada, { bob with clan := some vey.id }, cid] := by
    rw [joined.entered fresh, atVey]
    decide +kernel
  have nowAtOst : moved.2.clanMembers ost.id = [eve] := by
    rw [joined.left ost.id rfl (by decide), atOst]
    decide +kernel
  exact ⟨done, atVey, atOst, nowAtVey, nowAtOst⟩

end World

end Stratagem
