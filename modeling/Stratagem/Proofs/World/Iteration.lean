import Stratagem.Proofs.World.Membership
import Stratagem.Proofs.World.Saving

/-!
# Lists of actors and the order of iteration

A world gives its actors in no particular order, and a list of them is put in the order of their own
identifiers. No two actors have one key, but two may have one identifier: a world that was read can
hold both, under different keys. Sorting leaves such two in the order in which they came.

* `Listing` is a question that is answered by a list of actors, and `World.listed` the answer.
* `World.Reordered` relates a world to itself with its actors in another order.
* `World.OrderFree` says that the order makes no difference to an answer.
* `World.listed_eq`: every answer is the list of the actors that one condition holds of.
* `World.order_free_iff` is the result.
-/

namespace Stratagem

/-- A question about kinship or membership, to be answered by a list of actors. -/
inductive Listing
  | childrenOf (parent : ActorId)
  | siblingsOf (actor : ActorId)
  | clanMembers (clan : ClanId)
  | familyMembers (family : FamilyId)
deriving DecidableEq, Repr

namespace World

/-- The answer to a question. -/
def listed (w : World) : Listing → List Actor
  | .childrenOf parent => w.childrenOf parent
  | .siblingsOf actor => w.siblingsOf actor
  | .clanMembers clan => w.clanMembers clan
  | .familyMembers family => w.familyMembers family

/-- Two worlds that differ at most in the order in which their actors come. -/
structure Reordered (w w' : World) : Prop where
  actors : w.actors.entries.Perm w'.actors.entries
  others : w' = { w with actors := w'.actors }

/-- The answer is one and the same list in every two orders of the actors. -/
def OrderFree (w : World) (l : Listing) : Prop :=
  ∀ w₁ w₂, w.Reordered w₁ → w.Reordered w₂ → w₁.listed l = w₂.listed l

variable {w w' : World} {l : Listing} {k k' : ActorId} {x y : Actor}
variable {entries rest : List (ActorId × Actor)}

/-! ## Who is on a list -/

/-- Whether an actor belongs on a list. -/
def admits (w : World) (l : Listing) (x : Actor) : Bool :=
  match l with
  | .childrenOf parent => x.parents.contains parent
  | .siblingsOf actor => (w.actor? actor).any (·.isSiblingOf x)
  | .clanMembers clan => x.clan = some clan
  | .familyMembers family => x.family = some family

theorem siblingsOf_eq (w : World) (actor : ActorId) :
    w.siblingsOf actor = w.actorsWhere fun x => (w.actor? actor).any (·.isSiblingOf x) := by
  unfold siblingsOf
  cases w.actor? actor with
  | none => simp [actorsWhere]
  | some self => rfl

theorem listed_eq (w : World) (l : Listing) : w.listed l = w.actorsWhere (w.admits l) := by
  cases l with
  | siblingsOf actor => exact w.siblingsOf_eq actor
  | childrenOf | clanMembers | familyMembers => rfl

theorem mem_listed : x ∈ w.listed l ↔ x ∈ w.actors.values ∧ w.admits l x = true := by
  rw [listed_eq, mem_actorsWhere]

/-! ## Another order -/

theorem exists_reordered (perm : w.actors.entries.Perm entries) :
    ∃ w', w.Reordered w' ∧ w'.actors.entries = entries := by
  have nodup : (entries.map Prod.fst).Nodup := (perm.map Prod.fst).nodup_iff.1 w.actors.nodup_keys
  exact ⟨{ w with actors := ⟨entries, nodup⟩ }, ⟨perm, rfl⟩, rfl⟩

/-- Who belongs on a list does not depend on the order: nothing is asked of the other actors but to
look one of them up. -/
theorem Reordered.admits_eq (h : w.Reordered w') (l : Listing) : w'.admits l = w.admits l := by
  cases l with
  | childrenOf | clanMembers | familyMembers => rfl
  | siblingsOf actor =>
    have found : w'.actor? actor = w.actor? actor := (Registry.find?_eq_of_perm h.actors actor).symm
    funext x
    show (w'.actor? actor).any _ = (w.actor? actor).any _
    rw [found]

/-- What is sorted to make a list. -/
theorem Reordered.listed_eq (h : w.Reordered w') (l : Listing) :
    w'.listed l = (w'.actors.values.filter (w.admits l)).mergeSort fun a b => a.id ≤ b.id := by
  rw [World.listed_eq, h.admits_eq]
  rfl

theorem Reordered.filter_perm (h : w.Reordered w') (p : Actor → Bool) :
    (w.actors.values.filter p).Perm (w'.actors.values.filter p) :=
  (h.actors.map Prod.snd).filter p

/-- In another order of the actors a list has the same actors. -/
theorem Reordered.listed_perm (h : w.Reordered w') (l : Listing) :
    (w'.listed l).Perm (w.listed l) := by
  rw [h.listed_eq, World.listed_eq]
  refine (List.mergeSort_perm _ _).trans ((h.filter_perm _).symm.trans ?_)
  exact (List.mergeSort_perm _ _).symm

theorem sorted_listed (w : World) (l : Listing) : (w.listed l).Pairwise fun x y => x.id ≤ y.id := by
  rw [listed_eq]
  exact w.sorted_actorsWhere _

/-- In another order of the actors a list names the same identifiers in the same places. -/
theorem Reordered.map_id_listed (h : w.Reordered w') (l : Listing) :
    (w'.listed l).map Actor.id = (w.listed l).map Actor.id :=
  List.Perm.eq_of_pairwise (fun _ _ _ _ le ge => Id.le_antisymm le ge)
    (List.pairwise_map.2 (w'.sorted_listed l)) (List.pairwise_map.2 (w.sorted_listed l))
    ((h.listed_perm l).map Actor.id)

/-! ## Two actors of one identifier -/

/-- If no two actors on a list have one identifier, the list is the same in every order. -/
theorem Reordered.listed_eq_of_distinct (h : w.Reordered w')
    (distinct : ∀ x ∈ w.listed l, ∀ y ∈ w.listed l, x.id = y.id → x = y) :
    w'.listed l = w.listed l := by
  have untied : ∀ x ∈ w.actors.values.filter (w.admits l),
      ∀ y ∈ w.actors.values.filter (w.admits l),
        x.id.uuid.bits.toNat = y.id.uuid.bits.toNat → x = y := by
    intro x met y met' tied
    refine distinct x (mem_listed.2 (List.mem_filter.1 met)) y
      (mem_listed.2 (List.mem_filter.1 met')) ?_
    exact Id.le_antisymm (Nat.le_of_eq tied) (Nat.le_of_eq tied.symm)
  rw [h.listed_eq, World.listed_eq]
  exact (mergeSort_key_eq_of_perm (h.filter_perm _) untied).symm

/-- If two actors of a list come first, the list is made of these two and of others. -/
theorem Reordered.listed_of_entries (h : w.Reordered w')
    (first : w'.actors.entries = (k, x) :: (k', y) :: rest) (met : w.admits l x = true)
    (met' : w.admits l y = true) :
    w'.listed l = (x :: y :: (rest.map Prod.snd).filter (w.admits l)).mergeSort
      fun a b => a.id ≤ b.id := by
  rw [h.listed_eq, Registry.values, first]
  simp only [List.map_cons, List.filter_cons_of_pos, met, met']

/-- If the order makes no difference to a list, no two actors on it have one identifier. Of two that
had, either could come first, and would stand before the other on the list. -/
theorem OrderFree.distinct (free : w.OrderFree l) :
    ∀ x ∈ w.listed l, ∀ y ∈ w.listed l, x.id = y.id → x = y := by
  intro x met y met' tied
  by_contra differ
  obtain ⟨known, admitted⟩ := mem_listed.1 met
  obtain ⟨known', admitted'⟩ := mem_listed.1 met'
  obtain ⟨k, found⟩ := Registry.exists_find?_of_mem_values known
  obtain ⟨k', found'⟩ := Registry.exists_find?_of_mem_values known'
  have entered : (k, x) ∈ w.actors.entries := Registry.mem_of_find? found
  have entered' : (k', y) ∈ w.actors.entries.erase (k, x) :=
    (List.mem_erase_of_ne fun same => differ (congrArg Prod.snd same).symm).2
      (Registry.mem_of_find? found')
  have perm := (List.perm_cons_erase entered).trans ((List.perm_cons_erase entered').cons _)
  obtain ⟨w₁, one, first⟩ := exists_reordered perm
  obtain ⟨w₂, two, second⟩ := exists_reordered (perm.trans (List.Perm.swap _ _ _))
  have same := free w₁ w₂ one two
  rw [one.listed_of_entries first admitted admitted',
    two.listed_of_entries second admitted' admitted] at same
  exact differ
    (eq_of_mergeSort_key_swap (fun a : Actor => a.id.uuid.bits.toNat) (by rw [tied]) same)

theorem OwnKeys.orderFree (own : w.OwnKeys) (l : Listing) : w.OrderFree l := by
  have distinct : ∀ x ∈ w.listed l, ∀ y ∈ w.listed l, x.id = y.id → x = y := by
    intro x met y met' tied
    have found := own.actor?_id (mem_listed.1 met).1
    rw [tied, own.actor?_id (mem_listed.1 met').1] at found
    exact (Option.some.inj found).symm
  intro w₁ w₂ one two
  rw [one.listed_eq_of_distinct distinct, two.listed_eq_of_distinct distinct]

/-- A list is one and the same in every two orders in which the actors of a world may come, if and
only if no two actors on it have one identifier. So it is for every question to a world that has each
actor under its own identifier, as every world has that operations build. In any world another order
changes no more of a list than the places of such actors among themselves: the list has the same
actors, and names the same identifiers in the same places. -/
theorem order_free_iff (l : Listing) :
    (∀ w : World,
      (w.OrderFree l ↔ ∀ x ∈ w.listed l, ∀ y ∈ w.listed l, x.id = y.id → x = y) ∧
      (w.OwnKeys → w.OrderFree l) ∧
      ∀ w', w.Reordered w' →
        (w'.listed l).Perm (w.listed l) ∧
        (w'.listed l).map Actor.id = (w.listed l).map Actor.id) ∧
    ∀ ops, (empty.after ops).OrderFree l := by
  refine ⟨fun w => ⟨⟨OrderFree.distinct, fun distinct w₁ w₂ one two => ?_⟩,
    fun own => own.orderFree l, fun w' h => ⟨h.listed_perm l, h.map_id_listed l⟩⟩,
    fun ops => (ownKeys_after ops).orderFree l⟩
  rw [one.listed_eq_of_distinct distinct, two.listed_eq_of_distinct distinct]

/-- Ada and Bob have one identifier and are of one clan. Their world is read, for nothing compares an
identifier with its key, and whichever of them comes first is first on the list of their clan. -/
theorem twins_in_either_order :
    let vey := Clan.create ⟨⟨9⟩⟩ "Vey"
    let ada := { Actor.create ⟨⟨1⟩⟩ "Ada" .female with clan := some vey.id }
    let bob := { Actor.create ⟨⟨1⟩⟩ "Bob" .male with clan := some vey.id }
    let clans := Registry.ofList [(vey.id, vey)]
    let w : World :=
      { empty with actors := Registry.ofList [(⟨⟨1⟩⟩, ada), (⟨⟨2⟩⟩, bob)], clans := clans }
    let w' : World :=
      { empty with actors := Registry.ofList [(⟨⟨2⟩⟩, bob), (⟨⟨1⟩⟩, ada)], clans := clans }
    ofSnapshot w.snapshot = .ok w ∧ w.Reordered w' ∧
      w.clanMembers vey.id = [ada, bob] ∧ w'.clanMembers vey.id = [bob, ada] ∧
      ¬ w.OrderFree (.clanMembers vey.id) := by
  intro vey ada bob clans w w'
  have read : ofSnapshot w.snapshot = .ok w := (ofSnapshot_snapshot w).trans rfl
  have again : w.Reordered w' := ⟨.swap _ _ [], rfl⟩
  have one : w.clanMembers vey.id = [ada, bob] := List.mergeSort_of_pairwise (by decide)
  have two : w'.clanMembers vey.id = [bob, ada] := List.mergeSort_of_pairwise (by decide)
  refine ⟨read, again, one, two, fun free => ?_⟩
  have same : [ada, bob] = [bob, ada] :=
    one.symm.trans ((free w w' ⟨.refl _, rfl⟩ again).trans two)
  exact absurd same (by decide)

end World

end Stratagem
