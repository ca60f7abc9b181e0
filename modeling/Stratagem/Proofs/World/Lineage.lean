import Mathlib.Data.List.Induction
import Mathlib.Data.List.Infix
import Mathlib.Data.List.Nodup
import Mathlib.Logic.Relation
import Stratagem.Proofs.World.Kinship
import Stratagem.Proofs.World.Operation

/-!
# Family trees

Actors that are entered without parents and get them one by one form a family tree as long as nobody
has more than two parents and nobody is its own ancestor. Naming a parent asks for neither: it
refuses an actor as its own parent and a parent that is named already, and nothing else about the
tree.

* `World.Ancestor` is the relation of an ancestor to a descendant, through one link or more.
* `World.FamilyTree` is what a family tree has to be, and `World.Fits` what a link has to be to keep
  it one.
* `Operation.perform_of_breeds`: what an operation of such a run can do, whatever the world is.
* `World.familyTree_addActor` and `World.familyTree_iff_of_link` are the steps.
* `World.family_tree_iff` is the result for runs: their worlds are family trees if and only if every
  link that is accepted fits.
* `World.third_parent_and_loop`: links that do not fit are accepted.
-/

namespace Stratagem

/-! ## One more link in a relation -/

section Links

open Relation

variable {α : Type} {r r' : α → α → Prop} {upper lower x y : α}

/-- A path either does without a new link, or the old links lead up to it and on from it. -/
theorem transGen_or_of_link (links : ∀ a b, r' a b → r a b ∨ a = upper ∧ b = lower)
    (path : TransGen r' x y) :
    TransGen r x y ∨ ReflTransGen r x upper ∧ ReflTransGen r lower y := by
  induction path with
  | single link =>
    rcases links _ _ link with old | ⟨rfl, rfl⟩
    · exact .inl (.single old)
    · exact .inr ⟨.refl, .refl⟩
  | tail _ link ih =>
    rcases links _ _ link with old | ⟨rfl, rfl⟩
    · rcases ih with path | ⟨up, down⟩
      · exact .inl (path.tail old)
      · exact .inr ⟨up, down.tail old⟩
    · rcases ih with path | ⟨up, -⟩
      · exact .inr ⟨path.to_reflTransGen, .refl⟩
      · exact .inr ⟨up, .refl⟩

/-- A loop that a new link closes leads back from its end to its start. -/
theorem transGen_of_loop (links : ∀ a b, r' a b → r a b ∨ a = upper ∧ b = lower)
    (differ : lower ≠ upper) (loopless : ∀ a, ¬ TransGen r a a) (loop : TransGen r' x x) :
    TransGen r lower upper := by
  rcases transGen_or_of_link links loop with old | ⟨up, down⟩
  · exact absurd old (loopless x)
  · rcases reflTransGen_iff_eq_or_transGen.1 (down.trans up) with same | path
    · exact absurd same.symm differ
    · exact path

end Links

/-! ## Family trees and the links that keep them -/

namespace World

variable {w w' : World} {id parent child : ActorId} {a c : Actor}

/-- The first of two actors is an ancestor of the second, through one parent link or more. -/
def Ancestor (w : World) : ActorId → ActorId → Prop :=
  Relation.TransGen fun parent child => w.isParent parent child = true

/-- Nobody has more than two parents, and nobody is its own ancestor. -/
structure FamilyTree (w : World) : Prop where
  atMostTwo : ∀ id a, w.actor? id = some a → a.parents.length ≤ 2
  loopless : ∀ id, ¬ w.Ancestor id id

/-- A link that keeps a family tree one: the child has fewer than two parents, and is no ancestor of
the new one. -/
structure Fits (w : World) (child parent : ActorId) : Prop where
  room : ∀ c, w.actor? child = some c → c.parents.length < 2
  noDescendant : ¬ w.Ancestor child parent

/-- Nobody names itself, and nobody names another twice. -/
def NamesOthersOnce (w : World) : Prop :=
  ∀ id a, w.actor? id = some a → id ∉ a.parents ∧ a.parents.Nodup

theorem familyTree_empty : empty.FamilyTree where
  atMostTwo := nofun
  loopless := by
    intro id loop
    obtain ⟨_, link, -⟩ := Relation.TransGen.head'_iff.1 loop
    cases link

/-- A child that is named by nobody, as a newborn is, is nobody's ancestor: all that it needs is room
for one more parent. -/
theorem fits_of_unnamed (found : w.actor? child = some c) (room : c.parents.length < 2)
    (unnamed : ∀ a ∈ w.actors.values, child ∉ a.parents) (parent : ActorId) :
    w.Fits child parent where
  room := fun _ found' => Option.some.inj (found.symm.trans found') ▸ room
  noDescendant := by
    intro ancestor
    obtain ⟨next, link, -⟩ := Relation.TransGen.head'_iff.1 ancestor
    obtain ⟨a, known, named⟩ := isParent_iff.1 link
    exact unnamed a (Registry.mem_values_of_find? known) named

/-! ## Entering an actor -/

theorem actor?_addActor (w : World) (a : Actor) (id : ActorId) :
    (w.addActor a).actor? id = if id = a.id then some a else w.actor? id :=
  Registry.find?_insert ..

/-- An actor of a world that another one was entered into is the new one or an old one. -/
theorem eq_or_actor?_of_addActor (found : (w.addActor a).actor? id = some c) :
    c = a ∨ w.actor? id = some c := by
  rw [actor?_addActor] at found
  split at found
  · exact .inl (Option.some.inj found).symm
  · exact .inr found

/-- An actor without parents can take any place in a family tree, also that of another one. -/
theorem familyTree_addActor (tree : w.FamilyTree) (orphan : a.parents = []) :
    (w.addActor a).FamilyTree where
  atMostTwo := by
    intro id c found
    rcases eq_or_actor?_of_addActor found with rfl | old
    · rw [orphan]
      exact Nat.zero_le 2
    · exact tree.atMostTwo id c old
  loopless := by
    intro id loop
    refine tree.loopless id (Relation.TransGen.mono (fun parent child link => ?_) _ _ loop)
    obtain ⟨c, found, named⟩ := isParent_iff.1 link
    rcases eq_or_actor?_of_addActor found with rfl | old
    · rw [orphan] at named
      exact absurd named List.not_mem_nil
    · exact isParent_iff.2 ⟨c, old, named⟩

/-! ## Naming a parent -/

/-- What an accepted link asks for and changes. -/
structure Link (w : World) (child parent : ActorId) (w' : World) : Prop where
  differ : child ≠ parent
  unnamed : ∀ c, w.actor? child = some c → parent ∉ c.parents
  changed : w.ActorChanged child (fun a => { a with parents := a.parents ++ [parent] }) w'

theorem link_of_accepted (done : (Operation.addParent child parent).perform w = (.ok (), w')) :
    w.Link child parent w' := by
  have met := Operation.perform_eq_ok_iff.1 (congrArg Prod.fst done)
  refine ⟨of_decide_eq_true (met (.differ child parent) (by simp [Operation.demands])),
    fun c found => ?_, ?_⟩
  · simpa [Demand.met, found] using met (.unnamed child parent) (by simp [Operation.demands])
  · exact Operation.actorChanged_of_ok (fun _ => rfl) (by simp [Operation.demands]) done

/-- An accepted link is the only new one. -/
theorem Link.isParent_iff (link : w.Link child parent w') (upper lower : ActorId) :
    w'.isParent upper lower = true ↔
      w.isParent upper lower = true ∨ upper = parent ∧ lower = child := by
  obtain ⟨c, before, after⟩ := link.changed.actor
  simp only [World.isParent_iff]
  by_cases same : lower = child
  · subst same
    simp [before, after]
  · simp [link.changed.others lower same, same]

/-- A link keeps a family tree one if and only if it fits. -/
theorem familyTree_iff_of_link (tree : w.FamilyTree) (link : w.Link child parent w') :
    w'.FamilyTree ↔ w.Fits child parent := by
  obtain ⟨c, before, after⟩ := link.changed.actor
  have links := link.isParent_iff
  constructor
  · intro tree'
    refine ⟨fun c' found => ?_, fun ancestor => ?_⟩
    · obtain rfl : c = c' := Option.some.inj (before.symm.trans found)
      have two : (c.parents ++ [parent]).length ≤ 2 := tree'.atMostTwo child _ after
      rwa [List.length_append] at two
    · -- the links down from the child to its new parent, and the new one, are a loop
      have down : w'.Ancestor child parent :=
        Relation.TransGen.mono (fun _ _ old => (links _ _).2 (.inl old)) _ _ ancestor
      exact tree'.loopless child (down.tail ((links parent child).2 (.inr ⟨rfl, rfl⟩)))
  · intro fits
    refine ⟨fun id x found => ?_, fun id loop => ?_⟩
    · by_cases same : id = child
      · subst same
        obtain rfl := Option.some.inj (after.symm.trans found)
        show (c.parents ++ [parent]).length ≤ 2
        rw [List.length_append]
        exact fits.room c before
      · rw [link.changed.others id same] at found
        exact tree.atMostTwo id x found
    · exact fits.noDescendant
        (transGen_of_loop (fun _ _ => (links _ _).1) link.differ tree.loopless loop)

/-- An accepted link names another, whom the child has not named before. -/
theorem NamesOthersOnce.of_link (once : w.NamesOthersOnce) (link : w.Link child parent w') :
    w'.NamesOthersOnce := by
  obtain ⟨c, before, after⟩ := link.changed.actor
  intro id x found
  by_cases same : id = child
  · subst same
    obtain rfl := Option.some.inj (after.symm.trans found)
    obtain ⟨notOwn, once⟩ := once id c before
    refine ⟨fun named => ?_, ?_⟩
    · rcases List.mem_append.1 named with named | named
      · exact notOwn named
      · exact link.differ (List.mem_singleton.1 named)
    · rw [← List.concat_eq_append]
      exact List.Nodup.concat (link.unnamed c before) once
  · rw [link.changed.others id same] at found
    exact once id x found

end World

/-! ## Runs -/

namespace Operation

/-- An operation that enters an actor without parents, or names one actor as a parent of another. -/
def Breeds : Operation → Prop
  | .addActor a => a.parents = []
  | .addParent .. => True
  | .addClan _ | .addFamily _ | .addRole _ | .addCulture _ | .joinClan .. | .joinFamily ..
  | .assignRole .. => False

/-- An operation that breeds enters an actor without parents, or makes a link, or changes nothing
because the link is refused. -/
theorem perform_of_breeds {op : Operation} (breeds : op.Breeds) (w : World) :
    (∃ a, a.parents = [] ∧ (op.perform w).2 = w.addActor a) ∨ (op.perform w).2 = w ∨
      ∃ child parent, op = .addParent child parent ∧ (op.perform w).1 = .ok () ∧
        w.Link child parent (op.perform w).2 := by
  cases op with
  | addActor a => exact .inl ⟨a, breeds, rfl⟩
  | addParent child parent =>
    cases unmet : (addParent child parent).unmet? w with
    | some d => exact .inr (.inl (by rw [perform_of_unmet unmet]))
    | none =>
      have accepted := congrArg Prod.fst (perform_of_met unmet)
      exact .inr (.inr ⟨child, parent, rfl, accepted,
        World.link_of_accepted (Prod.ext accepted rfl)⟩)
  | addClan | addFamily | addRole | addCulture | joinClan | joinFamily | assignRole =>
    exact absurd breeds id

end Operation

namespace World

variable {w : World} {op : Operation}

/-- An operation that breeds keeps a family tree unless it is a link that does not fit. -/
theorem FamilyTree.perform (tree : w.FamilyTree) (breeds : op.Breeds)
    (fits : ∀ child parent, op = .addParent child parent → (op.perform w).1 = .ok () →
      w.Fits child parent) : (op.perform w).2.FamilyTree := by
  rcases Operation.perform_of_breeds breeds w with
    ⟨a, orphan, done⟩ | done | ⟨child, parent, same, accepted, link⟩
  · rw [done]
    exact familyTree_addActor tree orphan
  · rwa [done]
  · exact (familyTree_iff_of_link tree link).2 (fits child parent same accepted)

theorem NamesOthersOnce.perform (once : w.NamesOthersOnce) (breeds : op.Breeds) :
    (op.perform w).2.NamesOthersOnce := by
  rcases Operation.perform_of_breeds breeds w with ⟨a, orphan, done⟩ | done | ⟨_, _, -, -, link⟩
  · rw [done]
    intro id c found
    rcases eq_or_actor?_of_addActor found with rfl | old
    · rw [orphan]
      exact ⟨List.not_mem_nil, .nil⟩
    · exact once id c old
  · rwa [done]
  · exact once.of_link link

/-- Whoever enters actors without parents, new ones or in place of others, and names parents gets
family trees all the way if and only if every link that is accepted fits the world that it is made
in: its child has fewer than two parents and is no ancestor of the new one. In any case nobody names
itself, and nobody names another twice. -/
theorem family_tree_iff (ops : List Operation) (breeds : ∀ op ∈ ops, op.Breeds) :
    ((∀ before, before <+: ops → (empty.after before).FamilyTree) ↔
      ∀ before child parent, before ++ [.addParent child parent] <+: ops →
        ((Operation.addParent child parent).perform (empty.after before)).1 = .ok () →
          (empty.after before).Fits child parent) ∧
    (empty.after ops).NamesOthersOnce := by
  refine ⟨⟨?_, ?_⟩, ?_⟩
  · intro trees before child parent within accepted
    have tree := trees before ((List.prefix_append ..).trans within)
    have tree' := trees _ within
    rw [after_concat] at tree'
    exact (familyTree_iff_of_link tree (link_of_accepted (Prod.ext accepted rfl))).1 tree'
  · intro fits before within
    induction before using List.reverseRecOn with
    | nil => exact familyTree_empty
    | append_singleton before op ih =>
      rw [after_concat]
      have breed : op.Breeds := breeds op (within.subset (by simp))
      refine (ih ((List.prefix_append ..).trans within)).perform breed ?_
      rintro child parent rfl accepted
      exact fits before child parent within accepted
  · exact after_keeps (P := NamesOthersOnce) nofun fun w op met once => once.perform (breeds op met)

/-- Ada, her son Bob and his son Cid are entered and linked in the order of their births. -/
theorem family_tree_iff_births :
    let ada := Actor.create ⟨⟨1⟩⟩ "Ada" .female
    let bob := Actor.create ⟨⟨2⟩⟩ "Bob" .male
    let cid := Actor.create ⟨⟨3⟩⟩ "Cid" .male
    let ops : List Operation := [.addActor ada, .addActor bob, .addParent bob.id ada.id,
      .addActor cid, .addParent cid.id bob.id]
    (∀ op ∈ ops, op.Breeds) ∧ (empty.after ops).isParent bob.id cid.id = true ∧
      (∀ before, before <+: ops → (empty.after before).FamilyTree) ∧
      (empty.after ops).NamesOthersOnce := by
  intro ada bob cid ops
  have breeds : ∀ op ∈ ops, op.Breeds := by
    simp [ops, Operation.Breeds, ada, bob, cid, Actor.create]
  have trees := (family_tree_iff ops breeds).1
  refine ⟨breeds, by decide +kernel, trees.2 ?_, (family_tree_iff ops breeds).2⟩
  intro before child parent ⟨later, whole⟩ _
  have front : before = ops.take before.length := by simp [← whole]
  have link : ops[before.length]? = some (.addParent child parent) := by simp [← whole]
  rw [front]
  generalize before.length = n at link
  -- only the third and the fifth operation are links, each of them to a newborn
  rcases n with _ | _ | _ | _ | _ | n <;> cases link
  · exact fits_of_unnamed (c := bob) rfl (by decide) (by decide) ada.id
  · exact fits_of_unnamed (c := cid) rfl (by decide) (by decide) bob.id

/-- Ada gets three parents, and the first of them gets her as a parent. -/
theorem third_parent_and_loop :
    let ada := Actor.create ⟨⟨1⟩⟩ "Ada" .female
    let bob := Actor.create ⟨⟨2⟩⟩ "Bob" .male
    let cid := Actor.create ⟨⟨3⟩⟩ "Cid" .male
    let dan := Actor.create ⟨⟨4⟩⟩ "Dan" .male
    let ops : List Operation := [.addActor ada, .addActor bob, .addActor cid, .addActor dan,
      .addParent ada.id bob.id, .addParent ada.id cid.id, .addParent ada.id dan.id,
      .addParent bob.id ada.id]
    let w := empty.after ops
    (∀ op ∈ ops, op.Breeds) ∧
      w.actor? ada.id = some { ada with parents := [bob.id, cid.id, dan.id] } ∧
      w.Ancestor ada.id ada.id ∧ ¬ w.FamilyTree := by
  intro ada bob cid dan ops w
  have three : w.actor? ada.id = some { ada with parents := [bob.id, cid.id, dan.id] } := by
    decide +kernel
  have down : w.isParent ada.id bob.id = true := by decide +kernel
  have up : w.isParent bob.id ada.id = true := by decide +kernel
  refine ⟨by simp [ops, Operation.Breeds, ada, bob, cid, dan, Actor.create], three,
    .tail (.single down) up, fun tree => ?_⟩
  exact absurd (tree.atMostTwo ada.id _ three) (by decide)

end World

end Stratagem
