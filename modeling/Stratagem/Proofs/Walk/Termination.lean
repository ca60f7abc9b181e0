import Mathlib.Algebra.Group.Nat.Defs
import Stratagem.Proofs.Walk.Simulation

/-!
# Walks come to an end

A walk makes its visits one after the other, and each of them may put others on the stack. The limit
of entries bounds every path, whatever the host binds on the way, and with the number of wires it
bounds the whole walk.

* `Walk.advance_eq_ongoing_iff` says all that a visit does to a walk that goes on.
* `Walk.Advances` is a run of visits; `Advances.invariant` carries what one visit keeps along it.
* `Walk.Frugal`: no path has more entries than the limit allows it, whose total over all nodes is
  `nodeCount * limit`.
* `Advances.add_weight_le`: each visit of a run takes at least one off the weight of the walk.
* `Walk.exists_uncovered`: what waits on the stack is reached, unless the walk is abandoned above it.
* `Arbiter.judging_ends` is the result for the judging of a rule.
-/

namespace Stratagem

namespace Walk

variable {e : Evaluation} {g : RuleGraph} {w w' u : Walk} {p q : Pending} {rest : List Pending}
variable {events : List Event} {next : List Visit} {n : Nat}

/-! ## One visit -/

/-- A walk goes on exactly if the guard lets the next visit pass and the visit does not end the
evaluation. It then goes on from the walk that has entered the visit. -/
theorem advance_eq_ongoing_iff :
    w.advance e g = .ongoing w' ↔
      ∃ p rest, ∃ hp : w.pending = p :: rest, ∃ events next,
        guard? e.settings.maxNodeVisits (w.trail.path p.origin) p.visit.situation = none ∧
        p.visit.outcome e g = (events, some next) ∧ w' = w.enter p rest hp events next := by
  constructor
  · intro h
    by_cases none : w.pending = []
    · rw [advance_of_nil none] at h
      cases h
    · obtain ⟨p, rest, hp⟩ := List.exists_cons_of_ne_nil none
      rw [advance_of_cons hp] at h
      split at h
      · cases h
      · next entering =>
        split at h
        · cases h
        · next events next outcome =>
          exact ⟨p, rest, hp, events, next, entering, outcome, (Progress.ongoing.inj h).symm⟩
  · rintro ⟨p, rest, hp, events, next, entering, outcome, rfl⟩
    rw [advance_of_cons hp, entering, outcome]

/-- The next visit gives the evaluation up: the guard refuses it, or it ends everything. -/
def Abandons (e : Evaluation) (g : RuleGraph) (w : Walk) : Prop :=
  ∃ p rest, w.pending = p :: rest ∧
    ((∃ fault, guard? e.settings.maxNodeVisits (w.trail.path p.origin) p.visit.situation =
        some fault) ∨
      (p.visit.outcome e g).2 = none)

theorem ongoing_or_abandons (hp : w.pending = p :: rest) :
    (∃ events next, w.advance e g = .ongoing (w.enter p rest hp events next)) ∨
      w.Abandons e g := by
  cases guarded : guard? e.settings.maxNodeVisits (w.trail.path p.origin) p.visit.situation with
  | some fault => exact .inr ⟨p, rest, hp, .inl ⟨fault, guarded⟩⟩
  | none =>
    rcases outcome : p.visit.outcome e g with ⟨events, _ | next⟩
    · exact .inr ⟨p, rest, hp, .inr (by rw [outcome])⟩
    · refine .inl ⟨events, next, ?_⟩
      exact advance_eq_ongoing_iff.2 ⟨p, rest, hp, events, next, guarded, outcome, rfl⟩

/-- What holds of every path and of the one that a visit continues holds of every path after it. -/
theorem forall_path_enter {P : List Situation → Prop} (hp : w.pending = p :: rest)
    (every : ∀ origin, P (w.trail.path origin))
    (here : P (p.visit.situation :: w.trail.path p.origin)) :
    ∀ origin, P ((w.enter p rest hp events next).trail.path origin) := by
  intro origin
  have known : w.trail.Has p.origin := w.origins_known p (by simp [hp])
  show P ((w.trail.push p.visit.situation p.origin known).path origin)
  by_cases old : w.trail.Has origin
  · rw [Trail.path_push _ _ _ _ old]
    exact every origin
  · -- the only origin that the trail did not have before is the new step
    cases origin with
    | none => exact absurd (Trail.has_none _) old
    | some i =>
      have above : w.trail.size ≤ i := by
        apply Nat.le_of_not_lt
        intro below
        exact old fun j hj => Option.some.inj hj ▸ below
      rcases Nat.eq_or_lt_of_le above with rfl | beyond
      · rw [Trail.path_push_size]
        exact here
      · have missing : (w.trail.push p.visit.situation p.origin known).size ≤ i := by
          rw [Trail.size_push]
          omega
        rw [Trail.path_of_size_le _ missing]
        exact every none

/-! ## Runs -/

/-- So many visits lead from one walk to another. -/
inductive Advances (e : Evaluation) (g : RuleGraph) : Nat → Walk → Walk → Prop
  | none {w : Walk} : Advances e g 0 w w
  | visit {n : Nat} {w w' u : Walk} :
      w.advance e g = .ongoing w' → Advances e g n w' u → Advances e g (n + 1) w u

theorem Advances.invariant {P : Walk → Prop}
    (preserved : ∀ w w', w.advance e g = .ongoing w' → P w → P w')
    (run : Advances e g n w u) (initial : P w) : P u := by
  induction run with
  | none => exact initial
  | visit step _ ih => exact ih (preserved _ _ step initial)

theorem Advances.add_weight_le (run : Advances e g n w u) : n + u.weight e g ≤ w.weight e g := by
  induction run with
  | none => omega
  | visit step _ ih =>
    have lighter := weight_advance_lt step
    omega

/-- Every visit of a run records one step. -/
theorem Advances.size_eq (run : Advances e g n w u) : u.trail.size = w.trail.size + n := by
  induction run with
  | none => rfl
  | @visit n w w' u step _ ih =>
    obtain ⟨p, rest, hp, events, next, -, -, rfl⟩ := advance_eq_ongoing_iff.1 step
    have one : (w.enter p rest hp events next).trail.size = w.trail.size + 1 :=
      Trail.size_push _ _ _ (w.origins_known p (by simp [hp]))
    omega

/-- With a limit of zero the guard refuses every visit, that of Start included. -/
theorem Advances.eq_of_limit_zero (zero : e.settings.maxNodeVisits = 0)
    (run : Advances e g n w u) : u = w := by
  cases run with
  | none => rfl
  | visit step _ =>
    obtain ⟨p, rest, hp, events, next, entering, -⟩ := advance_eq_ongoing_iff.1 step
    have below := (guard?_eq_none_iff.1 entering).2
    rw [zero] at below
    exact absurd below (Nat.not_lt_zero _)

/-- Every walk ends, with the record of its whole run. -/
theorem exists_end (e : Evaluation) (g : RuleGraph) (w : Walk) :
    ∃ n last, Advances e g n w last ∧ last.advance e g = .ended (w.run e g) := by
  induction h : w.weight e g using Nat.strongRecOn generalizing w with
  | ind weight ih =>
    cases step : w.advance e g with
    | ended record =>
      refine ⟨0, w, .none, ?_⟩
      rw [run_eq, step]
    | ongoing w' =>
      obtain ⟨n, last, run, ended⟩ := ih _ (h ▸ weight_advance_lt step) w' rfl
      refine ⟨n + 1, last, .visit step run, ?_⟩
      rw [ended, run_eq w, step]

/-- What waits on the stack comes to be its top, unless the evaluation is given up before. -/
theorem exists_uncovered (above below : List Pending) (hw : w.pending = above ++ q :: below) :
    ∃ n u atop, Advances e g n w u ∧ u.pending = atop ++ q :: below ∧
      (atop = [] ∨ u.Abandons e g) := by
  induction h : w.weight e g using Nat.strongRecOn generalizing w above with
  | ind weight ih =>
    cases above with
    | nil => exact ⟨0, w, [], .none, hw, .inl rfl⟩
    | cons p above =>
      rcases ongoing_or_abandons (e := e) (g := g) hw with ⟨events, next, step⟩ | abandoned
      · -- those that follow from the top come in its place, all of them above `q`
        have covered : (w.enter p (above ++ q :: below) hw events next).pending =
            (next.map (fun v => ⟨v, some w.trail.size⟩) ++ above) ++ q :: below := by
          show continuing _ _ _ = _
          rw [continuing, List.append_assoc]
        obtain ⟨n, u, atop, run, reached⟩ := ih _ (h ▸ weight_advance_lt step) _ covered rfl
        exact ⟨n + 1, u, atop, .visit step run, reached⟩
      · exact ⟨0, w, p :: above, .none, hw, .inr abandoned⟩

/-! ## Paths within the limit -/

theorem budget_nil (limit nodes : Nat) : budget limit nodes [] = nodes * limit := by
  have all : budget limit nodes [] = total (fun _ => limit) (List.range nodes) :=
    total_congr fun n _ => Nat.sub_zero limit
  rw [all, total_const, List.length_range]

theorem entryWeight_eq_pow (wires entries : Nat) :
    entryWeight wires entries = (wires + 1) ^ entries := by
  induction entries with
  | zero => rfl
  | succ n ih => rw [entryWeight, ih, Nat.pow_succ, Nat.mul_comm]

/-- Every visit that waits is at a node of the graph, and every path has no more entries behind it
than the limit allows, counting those that it leaves. -/
structure Frugal (e : Evaluation) (g : RuleGraph) (w : Walk) : Prop where
  nodes : ∀ q ∈ w.pending, q.visit.node < g.nodeCount
  entries : ∀ origin, (w.trail.path origin).length +
    budget e.settings.maxNodeVisits.toNat g.nodeCount (w.trail.path origin) ≤
      g.nodeCount * e.settings.maxNodeVisits.toNat

theorem frugal_start {node : NodeId} (known : node < g.nodeCount) (parties : Parties) :
    (start node parties).Frugal e g where
  nodes := by
    intro q hq
    rw [List.mem_singleton.1 hq]
    exact known
  entries := by
    intro origin
    have empty : (start node parties).trail.path origin = [] := by
      cases origin with
      | none => rfl
      | some i => exact Trail.path_of_size_le _ (Nat.zero_le i)
    apply Nat.le_of_eq
    rw [empty, budget_nil, List.length_nil, Nat.zero_add]

theorem Frugal.advance (frugal : w.Frugal e g) (step : w.advance e g = .ongoing w') :
    w'.Frugal e g := by
  obtain ⟨p, rest, hp, events, next, entering, outcome, rfl⟩ := advance_eq_ongoing_iff.1 step
  have top : p ∈ w.pending := by simp [hp]
  constructor
  · intro q hq
    rcases List.mem_append.1 hq with hq | hq
    · obtain ⟨v, hv, rfl⟩ := List.mem_map.1 hq
      obtain ⟨kind, known, -⟩ := ((Visit.mem_iff_leads outcome).1 hv).accepted
      exact RuleGraph.lt_nodeCount known
    · exact frugal.nodes q (by simp [hp, hq])
  · -- the entry that the path gains comes out of those that it had left
    refine forall_path_enter (P := fun path => path.length + budget _ _ path ≤ _) hp
      frugal.entries ?_
    have before := frugal.entries p.origin
    have spent := budget_cons_lt (frugal.nodes p top) (guard?_eq_none_iff.1 entering).2
    rw [List.length_cons]
    omega

theorem Frugal.length_path_le (frugal : w.Frugal e g) (origin : Option Nat) :
    (w.trail.path origin).length ≤ g.nodeCount * e.settings.maxNodeVisits.toNat :=
  Nat.le_trans (Nat.le_add_right _ _) (frugal.entries origin)

theorem weight_start (node : NodeId) (parties : Parties) :
    (start node parties).weight e g =
      (g.wireCount + 1) ^ (g.nodeCount * e.settings.maxNodeVisits.toNat) := by
  show visitWeight e g [] + 0 = _
  rw [visitWeight, budget_nil, entryWeight_eq_pow, Nat.add_zero]

end Walk

/-! ## Judging a rule -/

/-- The judging of a rule ends, however its graph turns back on itself and whatever the host binds
on the way. No path ever has more entries than nodes times the limit, so there are at most
`(wires + 1) ^ (nodes * limit)` steps; and every visit that waits is made in the end, unless a fault
of the guard or an Error node ends the evaluation above it. -/
theorem Arbiter.judging_ends (a : Arbiter) (world : World) (rule : String) (scheme : Option Scheme)
    (p : Parties) (g : RuleGraph) (start : NodeId) (entry : a.entry rule = .ok (g, start)) :
    let e := a.evaluation world rule scheme
    let first := Walk.start start p
    let entries := g.nodeCount * a.settings.maxNodeVisits.toNat
    (∃ n last record, Walk.Advances e g n first last ∧ last.advance e g = .ended record ∧
      record.toList = a.events world rule scheme p) ∧
    ∀ n w, Walk.Advances e g n first w →
      n ≤ (g.wireCount + 1) ^ entries ∧ w.trail.size = n ∧
      (∀ origin, (w.trail.path origin).length ≤ entries) ∧
      ∀ above q below, w.pending = above ++ q :: below →
        ∃ m u atop, Walk.Advances e g m w u ∧ u.pending = atop ++ q :: below ∧
          (atop = [] ∨ u.Abandons e g) := by
  intro e first entries
  constructor
  · obtain ⟨n, last, run, ended⟩ := Walk.exists_end e g first
    refine ⟨n, last, _, run, ended, ?_⟩
    rw [events_eq_entry, entry]
  · intro n w run
    have known : start < g.nodeCount :=
      RuleGraph.lt_nodeCount (RuleGraph.kind?_of_start? (entry_eq_ok_iff.1 entry).2)
    have frugal : w.Frugal e g :=
      run.invariant (fun _ _ step kept => kept.advance step) (Walk.frugal_start known p)
    have few := run.add_weight_le
    have recorded := run.size_eq
    rw [Walk.weight_start] at few
    refine ⟨Nat.le_trans (Nat.le_add_right _ _) few, ?_, frugal.length_path_le, ?_⟩
    · rw [recorded]
      exact Nat.zero_add n
    · exact fun above q below hw => Walk.exists_uncovered above below hw

/-- A method of the host that swaps the parties. -/
def Registration.swapping : Registration where
  signature := { name := "swap", owner := "Host", call := .actorPair, returns := .actorPair }
  provider := some fun (c, t, _) => some (t.id, c.id)

/-- A graph that has the parties swapped again and again, each time on two wires. -/
def RuleGraph.swapping : RuleGraph where
  document :=
    { id := "swapping"
      nodes := [.start, .invoke "swap"]
      wires := [⟨0, .run, 1, some .dual⟩, ⟨1, .true, 1, some .dual⟩, ⟨1, .true, 1, some .dual⟩] }
  wellFormed := (GraphDocument.violation?_eq_none_iff _).1 rfl

/-- With one entry of each node a walk that binds other parties on every pass makes at most sixteen
steps, on paths of at most two, before the limit ends it. -/
theorem Arbiter.judging_ends_swapping :
    let ada := Actor.create .nil "Ada" .female
    let bob := Actor.create ⟨⟨1⟩⟩ "Bob" .male
    let world := (World.empty.addActor ada).addActor bob
    let settings : WalkSettings := { maxNodeVisits := 1 }
    let a : Arbiter :=
      { rules := fun _ => some .swapping, bridge := ⟨[.swapping]⟩, settings }
    let p : Parties := ⟨ada, some bob⟩
    let e := a.evaluation world "swapping" none
    a.entry "swapping" = .ok (.swapping, 0) ∧
      Event.fault (.visitLimit "swapping" 1 1) ∈ a.events world "swapping" none p ∧
      ∀ n w, Walk.Advances e .swapping n (.start 0 p) w →
        n ≤ 16 ∧ ∀ origin, (w.trail.path origin).length ≤ 2 := by
  intro ada bob world settings a p e
  have entry : a.entry "swapping" = .ok (.swapping, 0) := rfl
  obtain ⟨-, bounded⟩ := judging_ends a world "swapping" none p .swapping 0 entry
  let once : Visit := ⟨1, some .dual, p, some bob⟩
  let twice : Visit := ⟨1, some .dual, ⟨bob, some ada⟩, some ada⟩
  have walk : ForemostPath e .swapping (.first 0 p) [once, .first 0 p] twice :=
    .onward (.onward .start rfl rfl) rfl rfl
  have refused : twice.fault? e [once, .first 0 p] = some .overLimit := rfl
  refine ⟨entry, ?_, ?_⟩
  · rw [events_of_entry entry]
    exact walk.fault_mem_events refused
  · intro n w run
    obtain ⟨steps, -, paths, -⟩ := bounded n w run
    exact ⟨steps, paths⟩

end Stratagem
