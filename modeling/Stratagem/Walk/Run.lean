import Stratagem.Total
import Stratagem.Walk.Event
import Stratagem.Walk.Trail

/-!
# Walking a rule graph

A `Walk` visits a graph depth first: the visits still to be made wait on a stack, and the visits
that follow from one are put on top of it in wiring order. Before a visit is entered the guard
looks at its own path, which other branches do not share.

* `Walk.advance` makes the next visit, or ends the walk: when none waits, at a fault of the guard,
  or at an Error node that ends the evaluation.
* `Walk.weight_advance_lt`: every visit makes the walk lighter. A pending visit weighs
  `w + 1` to the power of `b`, where `w` is the number of wires and `b` the number of entries that
  the limit leaves to its path; the visits that follow have one entry less each, and there are at
  most `w` of them.
* `Walk.run` makes all visits and gives the record of what happened.
-/

namespace Stratagem

/-- A visit that waits to be made, and the step that led to it. -/
structure Pending where
  visit : Visit
  origin : Option Nat

/-- An evaluation between two visits. -/
structure Walk where
  trail : Trail
  /-- The visits that wait, the next one first. -/
  pending : List Pending
  events : Array Event
  /-- The paths of all visits that wait are recorded. -/
  origins_known : ∀ p ∈ pending, trail.Has p.origin

/-- A walk after its next visit. -/
inductive Progress
  | ended (events : Array Event)
  | ongoing (w : Walk)

namespace GuardFault

/-- The fault that an evaluation reports. -/
def toRuleFault (e : Evaluation) (node : NodeId) : GuardFault → RuleFault
  | .cycle => .cycle e.rule node
  | .overLimit => .visitLimit e.rule node e.settings.maxNodeVisits

end GuardFault

namespace Walk

/-- The walk before the visit of Start. -/
def start (node : NodeId) (parties : Parties) : Walk where
  trail := .empty
  pending := [⟨.first node parties, none⟩]
  events := #[]
  origins_known := by
    intro p h
    rw [List.mem_singleton.1 h]
    exact Trail.has_none _

/-- The visits that follow from the step `origin`, in front of those that wait already. -/
def continuing (origin : Nat) (next : List Visit) (rest : List Pending) : List Pending :=
  next.map (fun v => ⟨v, some origin⟩) ++ rest

/-- Enter a visit: it becomes a step, from which the visits that follow continue. -/
def enter (w : Walk) (p : Pending) (rest : List Pending) (hp : w.pending = p :: rest)
    (events : List Event) (next : List Visit) : Walk :=
  let waiting := continuing w.trail.size next rest
  { trail := w.trail.push p.visit.situation p.origin (w.origins_known p (by simp [hp]))
    pending := waiting
    events := w.events.appendList events
    origins_known := by
      intro q hq i hi
      apply Trail.lt_size_push
      rcases List.mem_append.1 hq with hq | hq
      · obtain ⟨v, _, rfl⟩ := List.mem_map.1 hq
        exact Nat.le_of_eq (Option.some.inj hi).symm
      · exact Nat.le_of_lt (w.origins_known q (by simp [hp, hq]) i hi) }

/-- Make the next visit. -/
def advance (e : Evaluation) (g : RuleGraph) (w : Walk) : Progress :=
  match hp : w.pending with
  | [] => .ended w.events
  | p :: rest =>
    match guard? e.settings.maxNodeVisits (w.trail.path p.origin) p.visit.situation with
    | some fault => .ended (w.events.push (.fault (fault.toRuleFault e p.visit.node)))
    | none =>
      match p.visit.outcome e g with
      | (events, none) => .ended (w.events.appendList events)
      | (events, some next) => .ongoing (w.enter p rest hp events next)

/-! ## The weight of a walk -/

/-- How many entries of nodes the limit leaves to a path. -/
def budget (limit nodes : Nat) (path : List Situation) : Nat :=
  total (fun n => limit - visits n path) (List.range nodes)

/-- The weight of a visit that has `entries` left, in a graph of `wires` wires: more than that of
as many visits as there are wires with one entry less. -/
def entryWeight (wires : Nat) : Nat → Nat
  | 0 => 1
  | entries + 1 => (wires + 1) * entryWeight wires entries

/-- The weight of a visit that waits at the end of a path. -/
def visitWeight (e : Evaluation) (g : RuleGraph) (path : List Situation) : Nat :=
  entryWeight g.wireCount (budget e.settings.maxNodeVisits.toNat g.nodeCount path)

/-- The weight of all visits that wait. -/
def weight (e : Evaluation) (g : RuleGraph) (w : Walk) : Nat :=
  total (fun p => visitWeight e g (w.trail.path p.origin)) w.pending

theorem entryWeight_pos (wires entries : Nat) : 0 < entryWeight wires entries := by
  induction entries with
  | zero => exact Nat.one_pos
  | succ n ih => exact Nat.mul_pos (Nat.succ_pos _) ih

theorem entryWeight_le {wires m n : Nat} (le : m ≤ n) :
    entryWeight wires m ≤ entryWeight wires n := by
  induction le with
  | refl => exact Nat.le_refl _
  | step _ ih => exact Nat.le_trans ih (Nat.le_mul_of_pos_left _ (Nat.succ_pos _))

/-- The visits that follow from one weigh less than it, if there are at most as many as wires. -/
theorem mul_entryWeight_lt {count wires m n : Nat} (few : count ≤ wires) (lt : m < n) :
    count * entryWeight wires m < entryWeight wires n :=
  calc count * entryWeight wires m
      ≤ wires * entryWeight wires m := Nat.mul_le_mul_right _ few
    _ < (wires + 1) * entryWeight wires m :=
        Nat.mul_lt_mul_of_pos_right (Nat.lt_succ_self _) (entryWeight_pos _ _)
    _ = entryWeight wires (m + 1) := rfl
    _ ≤ entryWeight wires n := entryWeight_le lt

/-- A path that enters a node of the graph below its limit has one entry less left. -/
theorem budget_cons_lt {limit nodes : Nat} {path : List Situation} {s : Situation}
    (node : s.node < nodes) (below : visits s.node path < limit) :
    budget limit nodes (s :: path) < budget limit nodes path := by
  refine total_lt (fun n _ => ?_) (List.mem_range.2 node) ?_
  · unfold visits
    rw [List.countP_cons]
    omega
  · unfold visits at below ⊢
    rw [List.countP_cons, if_pos (by simp)]
    omega

/-- The visits that follow from one weigh less than it, all together. -/
theorem total_visitWeight_lt {e : Evaluation} {g : RuleGraph} {v : Visit} {path : List Situation}
    {events : List Event} {next : List Visit}
    (entering : guard? e.settings.maxNodeVisits path v.situation = none)
    (outcome : v.outcome e g = (events, some next)) :
    total (fun _ => visitWeight e g (v.situation :: path)) next < visitWeight e g path := by
  unfold Visit.outcome at outcome
  split at outcome
  · obtain ⟨_, rfl⟩ := Prod.mk.inj outcome |>.imp_right Option.some.inj
    exact entryWeight_pos _ _
  · next kind hk =>
    have node : v.situation.node < g.nodeCount := (List.getElem?_eq_some_iff.1 hk).1
    rw [total_const]
    exact mul_entryWeight_lt (Visit.length_onward_le (Prod.mk.inj outcome).2)
      (budget_cons_lt node (guard?_eq_none_iff.1 entering).2)

theorem weight_advance_lt {e : Evaluation} {g : RuleGraph} {w w' : Walk}
    (h : w.advance e g = .ongoing w') : w'.weight e g < w.weight e g := by
  unfold advance at h
  split at h
  · cases h
  · next p rest hp =>
    split at h
    · cases h
    · next entering =>
      split at h
      · cases h
      · next events next outcome =>
        obtain rfl := Progress.ongoing.inj h
        have known : w.trail.Has p.origin := w.origins_known p (by simp [hp])
        have old : total (fun q => visitWeight e g
              ((w.trail.push p.visit.situation p.origin known).path q.origin)) rest =
            total (fun q => visitWeight e g (w.trail.path q.origin)) rest :=
          total_congr fun q hq => by
            rw [Trail.path_push _ _ _ _ (w.origins_known q (by simp [hp, hq]))]
        simp only [weight, enter, continuing, hp, total_append, total_map, Function.comp_def,
          Trail.path_push_size, old, total_cons]
        exact Nat.add_lt_add_right (total_visitWeight_lt entering outcome) _

/-! ## The whole walk -/

/-- Make all visits and give the record of what happened. -/
def run (e : Evaluation) (g : RuleGraph) (w : Walk) : Array Event :=
  match _h : w.advance e g with
  | .ended events => events
  | .ongoing w' => w'.run e g
termination_by w.weight e g
decreasing_by exact weight_advance_lt _h

end Walk

end Stratagem
