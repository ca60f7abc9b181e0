import Mathlib.Data.Nat.Basic
import Stratagem.Proofs.Sorting
import Stratagem.Proofs.Walk.Bindings

/-!
# Parents, children and siblings

Parents and siblings are computed in four ways: by looking two keys up, by going through all actors,
by comparing two records, and at the nodes of a rule. Actors name their parents by identifiers, the
world has actors by keys, and the ways agree where every actor stands under its own identifier.

* `World.OwnKeys.id_eq` and `World.OwnKeys.actor?_id`: the actors of such a world and their
  identifiers.
* `World.isParent_iff` and `World.isSibling_iff`: the relations of keys by the records under them.
* `World.exists_mem_actorsWhere_iff`, `World.sorted_actorsWhere` and
  `World.OwnKeys.pairwise_actorsWhere`: what the lists of actors hold, and in what order.
* `Visit.judgePair_of_parties`: what the nodes ask about two parties.
* `World.kinship_exact` is the result.
-/

namespace Stratagem

namespace World

variable {w : World} {id parent child a b : ActorId} {x y : Actor} {p : Actor → Bool}

/-! ## Keys and identifiers -/

theorem OwnKeys.id_eq (own : w.OwnKeys) (found : w.actor? id = some x) : x.id = id :=
  own (id, x) (Registry.mem_of_find? found)

/-- An actor of the world is the one under its own identifier. -/
theorem OwnKeys.actor?_id (own : w.OwnKeys) (known : x ∈ w.actors.values) :
    w.actor? x.id = some x := by
  obtain ⟨key, found⟩ := Registry.exists_find?_of_mem_values known
  rw [own.id_eq found]
  exact found

theorem OwnKeys.nodup_ids (own : w.OwnKeys) : (w.actors.values.map Actor.id).Nodup := by
  have keys : w.actors.values.map Actor.id = w.actors.keys := by
    rw [Registry.values, Registry.keys, List.map_map]
    exact List.map_congr_left own
  rw [keys]
  exact w.actors.nodup_keys

/-! ## Relations of keys -/

theorem isParent_iff :
    w.isParent parent child = true ↔ ∃ x, w.actor? child = some x ∧ parent ∈ x.parents := by
  unfold isParent
  cases w.actor? child <;> simp

theorem isSibling_iff :
    w.isSibling a b = true ↔
      ∃ x y, w.actor? a = some x ∧ w.actor? b = some y ∧ x.isSiblingOf y = true := by
  unfold isSibling
  cases w.actor? a <;> cases w.actor? b <;> simp

/-- Of two actors that the world has under their own identifiers, the keys are related as the records
are. -/
theorem OwnKeys.isParent_id (own : w.OwnKeys) (known : y ∈ w.actors.values) :
    w.isParent x.id y.id = x.isParentOf y := by
  rw [isParent, own.actor?_id known]
  rfl

theorem OwnKeys.isSibling_id (own : w.OwnKeys) (known : x ∈ w.actors.values)
    (known' : y ∈ w.actors.values) : w.isSibling x.id y.id = x.isSiblingOf y := by
  rw [isSibling, own.actor?_id known, own.actor?_id known']

/-- Siblings differ and have a parent in common. -/
theorem OwnKeys.isSibling_iff_parent (own : w.OwnKeys) :
    w.isSibling a b = true ↔
      a ≠ b ∧ ∃ parent, w.isParent parent a = true ∧ w.isParent parent b = true := by
  simp only [isSibling_iff, isParent_iff, Actor.isSiblingOf_iff]
  constructor
  · rintro ⟨x, y, found, found', differ, parent, names, names'⟩
    rw [own.id_eq found, own.id_eq found'] at differ
    exact ⟨differ, parent, ⟨x, found, names⟩, y, found', names'⟩
  · rintro ⟨differ, parent, ⟨x, found, names⟩, y, found', names'⟩
    rw [← own.id_eq found, ← own.id_eq found'] at differ
    exact ⟨x, y, found, found', differ, parent, names, names'⟩

theorem OwnKeys.isSibling_comm (own : w.OwnKeys) : w.isSibling a b = w.isSibling b a := by
  rw [Bool.eq_iff_iff, own.isSibling_iff_parent, own.isSibling_iff_parent, ne_comm]
  simp only [and_comm]

/-! ## Lists of actors -/

theorem mem_actorsWhere : x ∈ w.actorsWhere p ↔ x ∈ w.actors.values ∧ p x = true := by
  rw [actorsWhere, List.mem_mergeSort, List.mem_filter]

/-- The actor under a key is in a list exactly if the condition of the list holds of it. -/
theorem exists_mem_actorsWhere_iff :
    (∃ x, w.actor? id = some x ∧ x ∈ w.actorsWhere p) ↔ ∃ x, w.actor? id = some x ∧ p x = true := by
  simp only [mem_actorsWhere]
  constructor
  · rintro ⟨x, found, -, holds⟩
    exact ⟨x, found, holds⟩
  · rintro ⟨x, found, holds⟩
    exact ⟨x, found, Registry.mem_values_of_find? found, holds⟩

theorem sorted_actorsWhere (w : World) (p : Actor → Bool) :
    (w.actorsWhere p).Pairwise fun x y => x.id ≤ y.id :=
  pairwise_mergeSort_key (fun x : Actor => x.id.uuid.bits.toNat) _

/-- Lists of actors are in the order of their identifiers, with none twice. -/
theorem OwnKeys.pairwise_actorsWhere (own : w.OwnKeys) (p : Actor → Bool) :
    (w.actorsWhere p).Pairwise fun x y => x.id < y.id := by
  have distinct : (w.actorsWhere p).Pairwise fun x y => x.id ≠ y.id := by
    have kept : ((w.actors.values.filter p).map Actor.id).Nodup :=
      own.nodup_ids.sublist (List.filter_sublist.map _)
    have listed : ((w.actorsWhere p).map Actor.id).Nodup :=
      ((List.mergeSort_perm _ _).map _).nodup_iff.2 kept
    exact List.pairwise_map.1 listed
  exact ((w.sorted_actorsWhere p).and distinct).imp fun ⟨le, ne⟩ => Id.lt_of_le_of_ne le ne

theorem isParent_iff_childrenOf :
    w.isParent a b = true ↔ ∃ y, w.actor? b = some y ∧ y ∈ w.childrenOf a := by
  rw [childrenOf, exists_mem_actorsWhere_iff, isParent_iff]
  simp only [List.contains_iff_mem]

theorem isSibling_iff_siblingsOf :
    w.isSibling a b = true ↔ ∃ y, w.actor? b = some y ∧ y ∈ w.siblingsOf a := by
  rw [isSibling, siblingsOf]
  cases w.actor? a with
  | none => simp
  | some x =>
    simp only [exists_mem_actorsWhere_iff]
    cases w.actor? b <;> simp

theorem OwnKeys.pairwise_siblingsOf (own : w.OwnKeys) (a : ActorId) :
    (w.siblingsOf a).Pairwise fun x y => x.id < y.id := by
  unfold siblingsOf
  cases w.actor? a with
  | none => exact .nil
  | some x => exact own.pairwise_actorsWhere x.isSiblingOf

/-- Nobody is a sibling of itself. -/
theorem OwnKeys.id_ne_of_mem_siblingsOf (own : w.OwnKeys) (met : x ∈ w.siblingsOf a) :
    x.id ≠ a := by
  unfold siblingsOf at met
  cases found : w.actor? a with
  | none =>
    rw [found] at met
    exact absurd met List.not_mem_nil
  | some self =>
    rw [found] at met
    have differ := ((Actor.isSiblingOf_iff self x).1 (mem_actorsWhere.1 met).2).1
    rw [own.id_eq found] at differ
    exact differ.symm

end World

/-! ## Nodes that ask about two parties -/

namespace Visit

variable {w : World} {e : Evaluation} {v : Visit} {c t : Actor}

theorem judgePair_of_parties (parties : v.parties = ⟨c, some t⟩) (holds : Actor → Actor → Bool) :
    v.judgePair holds = v.follow (Port.ofBool (holds c t)) := by
  simp only [judgePair, parties]

/-- Between actors of the world a node finds the parent relation of their keys, in the direction of
its channel. -/
theorem decide_isParent (own : w.OwnKeys) (parties : v.parties = ⟨c, some t⟩)
    (conspirator : c ∈ w.actors.values) (target : t ∈ w.actors.values) :
    v.decide e .isParent = v.follow (Port.ofBool
      (match v.channel with
        | some .conspirator => w.isParent c.id t.id
        | some .target => w.isParent t.id c.id
        | _ => w.isParent c.id t.id || w.isParent t.id c.id)) := by
  rw [own.isParent_id conspirator, own.isParent_id target]
  refine (judgePair_of_parties parties _).trans ?_
  unfold parentHolds
  cases v.channel with
  | none => rfl
  | some channel => cases channel <;> rfl

theorem decide_isSibling (own : w.OwnKeys) (parties : v.parties = ⟨c, some t⟩)
    (conspirator : c ∈ w.actors.values) (target : t ∈ w.actors.values) :
    v.decide e .isSibling = v.follow (Port.ofBool (w.isSibling c.id t.id)) := by
  rw [own.isSibling_id conspirator target]
  exact judgePair_of_parties parties _

end Visit

namespace World

/-- In a world that has every actor under its own identifier, as every world has that actors were
entered into one by one, the parents by key are those by the list of children, and the siblings by
key are those with a parent in common and, in both directions, those by the list of siblings. The
lists are in strict order, and nobody is on the list of its own siblings. Between actors of the world
a node of a rule finds what the keys say: as a parent the conspirator, the target or either of them,
as its channel says, and the same siblings through every channel. -/
theorem kinship_exact :
    (∀ actors : List Actor, (actors.foldl addActor .empty).OwnKeys) ∧
    ∀ w : World, w.OwnKeys →
      (∀ a b, w.isParent a b = true ↔ ∃ y, w.actor? b = some y ∧ y ∈ w.childrenOf a) ∧
      (∀ a b,
        (w.isSibling a b = true ↔
          a ≠ b ∧ ∃ parent, w.isParent parent a = true ∧ w.isParent parent b = true) ∧
        (w.isSibling a b = true ↔ ∃ y, w.actor? b = some y ∧ y ∈ w.siblingsOf a) ∧
        (w.isSibling a b = true ↔ ∃ x, w.actor? a = some x ∧ x ∈ w.siblingsOf b)) ∧
      (∀ a, (w.childrenOf a).Pairwise (fun x y => x.id < y.id) ∧
        (w.siblingsOf a).Pairwise (fun x y => x.id < y.id) ∧ ∀ x ∈ w.siblingsOf a, x.id ≠ a) ∧
      ∀ (e : Evaluation) (v : Visit) (c t : Actor),
        c ∈ w.actors.values → t ∈ w.actors.values → v.parties = ⟨c, some t⟩ →
        (v.channel = some .conspirator →
          v.decide e .isParent = v.follow (Port.ofBool (w.isParent c.id t.id))) ∧
        (v.channel = some .target →
          v.decide e .isParent = v.follow (Port.ofBool (w.isParent t.id c.id))) ∧
        (v.channel = some .dual → v.decide e .isParent =
          v.follow (Port.ofBool (w.isParent c.id t.id || w.isParent t.id c.id))) ∧
        v.decide e .isSibling = v.follow (Port.ofBool (w.isSibling c.id t.id)) := by
  refine ⟨fun actors => ownKeys_foldl (ownKeys_of_empty rfl), fun w own =>
    ⟨fun a b => isParent_iff_childrenOf, fun a b => ?_, fun a => ?_, ?_⟩⟩
  · refine ⟨own.isSibling_iff_parent, isSibling_iff_siblingsOf, ?_⟩
    rw [own.isSibling_comm]
    exact isSibling_iff_siblingsOf
  · exact ⟨own.pairwise_actorsWhere _, own.pairwise_siblingsOf a,
      fun x met => own.id_ne_of_mem_siblingsOf met⟩
  · intro e v c t conspirator target parties
    have parent := Visit.decide_isParent (e := e) own parties conspirator target
    refine ⟨fun through => ?_, fun through => ?_, fun through => ?_,
      Visit.decide_isSibling own parties conspirator target⟩
    · rwa [through] at parent
    · rwa [through] at parent
    · rwa [through] at parent

/-- Ada and Bob name the same mother, Bob also somebody unknown, and Bob and Cid name each other. -/
theorem kinship_exact_mutual :
    let eve := Actor.create ⟨⟨1⟩⟩ "Eve" .female
    let ada := { Actor.create ⟨⟨2⟩⟩ "Ada" .female with parents := [eve.id] }
    let bob := { Actor.create ⟨⟨3⟩⟩ "Bob" .male with parents := [⟨⟨9⟩⟩, eve.id, ⟨⟨4⟩⟩] }
    let cid := { Actor.create ⟨⟨4⟩⟩ "Cid" .male with parents := [bob.id, bob.id] }
    let w := [cid, bob, ada, eve].foldl addActor .empty
    let v : Visit := ⟨1, some .dual, ⟨bob, some cid⟩, none⟩
    (ada ∈ w.childrenOf eve.id ∧ cid ∈ w.childrenOf bob.id ∧ bob ∈ w.childrenOf cid.id) ∧
      (bob ∈ w.siblingsOf ada.id ∧ ada ∈ w.siblingsOf bob.id ∧ w.isSibling bob.id cid.id = false) ∧
      ∀ e : Evaluation, v.decide e .isParent = v.follow .true ∧
        v.decide e .isSibling = v.follow .false := by
  intro eve ada bob cid w v
  have own : w.OwnKeys := kinship_exact.1 [cid, bob, ada, eve]
  obtain ⟨parents, siblings, -, nodes⟩ := kinship_exact.2 w own
  have known : w.actor? ada.id = some ada ∧ w.actor? bob.id = some bob ∧
      w.actor? cid.id = some cid := by decide +kernel
  have named : w.isParent eve.id ada.id = true ∧ w.isParent bob.id cid.id = true ∧
      w.isParent cid.id bob.id = true := by decide +kernel
  have related : w.isSibling ada.id bob.id = true ∧ w.isSibling bob.id ada.id = true ∧
      w.isSibling bob.id cid.id = false := by decide +kernel
  have child : ∀ {a x}, w.isParent a x.id = true → w.actor? x.id = some x →
      x ∈ w.childrenOf a := by
    intro a x parent found
    obtain ⟨y, found', listed⟩ := (parents a x.id).1 parent
    cases found.symm.trans found'
    exact listed
  have sibling : ∀ {a x}, w.isSibling a x.id = true → w.actor? x.id = some x →
      x ∈ w.siblingsOf a := by
    intro a x sibling found
    obtain ⟨y, found', listed⟩ := (siblings a x.id).2.1.1 sibling
    cases found.symm.trans found'
    exact listed
  refine ⟨⟨?_, ?_, ?_⟩, ⟨?_, ?_, related.2.2⟩, fun e => ?_⟩
  · exact child named.1 known.1
  · exact child named.2.1 known.2.2
  · exact child named.2.2 known.2.1
  · exact sibling related.1 known.2.1
  · exact sibling related.2.1 known.1
  · have bobs := Registry.mem_values_of_find? known.2.1
    have cids := Registry.mem_values_of_find? known.2.2
    obtain ⟨-, -, parent, siblings⟩ := nodes e v bob cid bobs cids rfl
    rw [parent rfl, siblings, named.2.1, related.2.2]
    exact ⟨rfl, rfl⟩

end World

end Stratagem
