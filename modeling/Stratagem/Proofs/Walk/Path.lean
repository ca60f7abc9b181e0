import Stratagem.Walk.Run

/-!
# Walk paths

A walk path is a finite sequence of visits that begins at the first visit of an evaluation and in
which each next visit is at one of the links of the port that the visit before it decides on. It
says nothing of stacks, trails or guards: it is what the graph, the world and the host allow.

* `Visit.Leads` is the relation between a visit and those that follow from it; `Visit.next` lists
  these in wiring order, and `Visit.mem_next` ties the two together.
* `WalkPath` is a walk that arrives at a visit; `InfinitePath` is a walk that never ends.
* `Visit.fault?` is what the visit guard says of a visit at the end of a path, and
  `allowance_lt_of_leads` that a path which goes on past the guard has fewer entries left.
-/

namespace Stratagem

/-- The visit `w` follows from `v`: it is at one of the links of the port that `v` decides on,
with the parties and the subject that `v` hands on. -/
inductive Visit.Leads (e : Evaluation) (g : RuleGraph) (v : Visit) : Visit → Prop
  | link {kind : NodeKind} {port : Port} {parties : Parties} {subject : Option Actor}
      {link : Link} :
      g.kind? v.node = some kind → v.decide e kind = .follow port parties subject →
      link ∈ g.outputs v.node port →
      Leads e g v { node := link.node, channel := link.channel, parties, subject }

/-- A walk from a first visit that arrives at a visit after the visits of a path, the nearest of
them first. -/
inductive WalkPath (e : Evaluation) (g : RuleGraph) (first : Visit) : List Visit → Visit → Prop
  | start : WalkPath e g first [] first
  | onward {v w : Visit} {path : List Visit} :
      WalkPath e g first path v → v.Leads e g w → WalkPath e g first (v :: path) w

/-- A walk from a visit that never ends. -/
def InfinitePath (e : Evaluation) (g : RuleGraph) (first : Visit) : Prop :=
  ∃ f : Nat → Visit, f 0 = first ∧ ∀ n, (f n).Leads e g (f (n + 1))

variable {e : Evaluation} {g : RuleGraph} {v w : Visit} {path : List Visit}
variable {events : List Event}

namespace Visit

/-! ## The visits that follow from one -/

/-- The visits that follow from one, in wiring order. -/
def next (e : Evaluation) (g : RuleGraph) (v : Visit) : List Visit := (v.outcome e g).2.getD []

theorem next_of_outcome {next : List Visit} (outcome : v.outcome e g = (events, some next)) :
    v.next e g = next := by
  rw [Visit.next, outcome]
  rfl

/-- A visit that is followed by others goes on to them. -/
theorem outcome_of_next {rest : List Visit} (h : v.next e g = w :: rest) :
    v.outcome e g = ((v.outcome e g).1, some (w :: rest)) := by
  unfold next at h
  refine Prod.ext rfl ?_
  cases onward : (v.outcome e g).2 with
  | none =>
    rw [onward] at h
    cases h
  | some visits =>
    rw [onward] at h
    exact congrArg some h

/-- A decision to follow a port leads to its links. -/
theorem next_of_follow {kind : NodeKind} {port : Port} {parties : Parties}
    {subject : Option Actor} (known : g.kind? v.node = some kind)
    (decided : v.decide e kind = .follow port parties subject) :
    v.next e g = (g.outputs v.node port).map fun link =>
      { node := link.node, channel := link.channel, parties, subject } := by
  simp only [next, outcome, known, decided, onward, Option.getD_some]

/-- The visits listed are those that follow, and no others. -/
theorem mem_next : w ∈ v.next e g ↔ v.Leads e g w := by
  unfold Visit.next Visit.outcome
  split
  · next unknown =>
    constructor
    · exact fun h => absurd h List.not_mem_nil
    · rintro ⟨known, -, -⟩
      rw [unknown] at known
      cases known
  · next kind known =>
    constructor
    · intro h
      cases decided : v.decide e kind with
      | stop =>
        rw [decided] at h
        exact absurd h List.not_mem_nil
      | halt =>
        rw [decided] at h
        exact absurd h List.not_mem_nil
      | follow port parties subject =>
        rw [decided] at h
        obtain ⟨link, linked, rfl⟩ := List.mem_map.1 h
        exact .link known decided linked
    · rintro ⟨known', decided, linked⟩
      obtain rfl := Option.some.inj (known.symm.trans known')
      rw [decided]
      exact List.mem_map_of_mem linked

/-- The visits that an outcome leads to are those that follow. -/
theorem mem_iff_leads {next : List Visit} (outcome : v.outcome e g = (events, some next)) :
    w ∈ next ↔ v.Leads e g w := by
  rw [← mem_next, next_of_outcome outcome]

theorem Leads.node_lt (h : v.Leads e g w) : v.node < g.nodeCount := by
  obtain ⟨known, -, -⟩ := h
  exact (List.getElem?_eq_some_iff.1 known).1

/-- A visit that follows another is at a node of the graph, and its node accepts the channel. -/
theorem Leads.accepted (h : v.Leads e g w) :
    ∃ kind, g.kind? w.node = some kind ∧ kind.accepts w.channel = true := by
  obtain ⟨-, -, linked⟩ := h
  exact RuleGraph.accepts_of_mem_outputs linked

/-! ## The guard at the end of a path -/

/-- What the visit guard says of a visit at the end of a path. -/
def fault? (e : Evaluation) (path : List Visit) (v : Visit) : Option GuardFault :=
  guard? e.settings.maxNodeVisits (path.map situation) v.situation

/-- The guard lets a visit pass that repeats no situation of its path and whose node the path has
entered fewer times than it may. -/
theorem fault?_eq_none_iff :
    v.fault? e path = none ↔
      (∀ u ∈ path, u.situation ≠ v.situation) ∧
      path.countP (·.node = v.node) < e.settings.maxNodeVisits.toNat := by
  unfold fault?
  rw [guard?_eq_none_iff, visits, List.countP_map]
  simp only [List.mem_map, not_exists, not_and]
  rfl

/-- A cycle is what the guard says exactly where the path has been in the situation before. -/
theorem fault?_eq_cycle_iff :
    v.fault? e path = some .cycle ↔ ∃ u ∈ path, u.situation = v.situation := by
  unfold fault? guard?
  constructor
  · intro h
    split at h
    · next repeated => exact List.mem_map.1 repeated
    · split at h
      · cases h
      · cases h
  · intro repeated
    rw [if_pos (List.mem_map.2 repeated)]

end Visit

/-- How many entries of nodes the limit leaves to a path. -/
def allowance (e : Evaluation) (g : RuleGraph) (path : List Visit) : Nat :=
  Walk.budget e.settings.maxNodeVisits.toNat g.nodeCount (path.map Visit.situation)

theorem allowance_cons_le (e : Evaluation) (g : RuleGraph) (v : Visit) (path : List Visit) :
    allowance e g (v :: path) ≤ allowance e g path := by
  refine total_le fun n _ => ?_
  have longer : visits n (path.map Visit.situation) ≤
      visits n ((v :: path).map Visit.situation) := by
    unfold visits
    rw [List.map_cons, List.countP_cons]
    exact Nat.le_add_right _ _
  omega

/-- A path that goes on past the guard has fewer entries left. -/
theorem allowance_lt_of_leads (entering : v.fault? e path = none) (h : v.Leads e g w) :
    allowance e g (v :: path) < allowance e g path :=
  Walk.budget_cons_lt h.node_lt (guard?_eq_none_iff.1 entering).2

end Stratagem
