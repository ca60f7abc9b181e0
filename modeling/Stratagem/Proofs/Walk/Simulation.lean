import Stratagem.Proofs.Walk.Coverage

/-!
# The stack explores recursively

A walk keeps the visits of all branches on one stack and the steps of all branches in one trail.
Here that machinery is shown to do what plain recursion over paths does: it makes the same visits
in the same order, each with the same situations before it on its path, and leaves the same record.

* `Walk.arrivals` is what the stack pops, each visit with the situations of its path as the trail
  gives them back.
* `owed` is what the visits that wait still come to; `Walk.Stands` relates a stack and its trail to
  visits at the ends of paths.
* `Walk.run_of_stands`: a walk records what it has recorded already and what it owes.
* `Arbiter.judging_explores` is the result for the judging of a rule.
-/

namespace Stratagem

/-- What a trail can tell of an arrival: the visit, and the situations before it on its path. -/
def Arrival.outline (x : Arrival) : List Situation × Visit :=
  (x.path.map Visit.situation, x.visit)

/-! ## One step of a walk -/

namespace Walk

variable {e : Evaluation} {g : RuleGraph} {w : Walk} {p : Pending} {rest : List Pending}
variable {events : List Event} {next : List Visit}

theorem advance_of_nil (hp : w.pending = []) : w.advance e g = .ended w.events := by
  unfold advance
  split
  · rfl
  · next hp' =>
    rw [hp] at hp'
    cases hp'

/-- Everything that the next visit can do to a walk. -/
theorem advance_of_cons (hp : w.pending = p :: rest) :
    w.advance e g =
      match guard? e.settings.maxNodeVisits (w.trail.path p.origin) p.visit.situation with
      | some fault => .ended (w.events.push (.fault (fault.toRuleFault e p.visit.node)))
      | none =>
        match p.visit.outcome e g with
        | (events, none) => .ended (w.events.appendList events)
        | (events, some next) => .ongoing (w.enter p rest hp events next) := by
  unfold advance
  split
  · next hp' =>
    rw [hp] at hp'
    cases hp'
  · next hp' =>
    obtain ⟨rfl, rfl⟩ := List.cons.inj (hp.symm.trans hp')
    rfl

theorem run_eq (w : Walk) :
    w.run e g =
      match w.advance e g with
      | .ended record => record
      | .ongoing w' => w'.run e g := by
  rw [run]
  split
  · next h => rw [h]
  · next h => rw [h]

/-! ## What a walk pops -/

/-- The visit that a walk takes from its stack next, with the situations that lead to it back
along the trail. -/
def nextArrival? (w : Walk) : Option (List Situation × Visit) :=
  w.pending.head?.map fun p => (w.trail.path p.origin, p.visit)

/-- All visits that a walk takes from its stack, in order. -/
def arrivals (e : Evaluation) (g : RuleGraph) (w : Walk) : List (List Situation × Visit) :=
  w.nextArrival?.toList ++
    match _h : w.advance e g with
    | .ended _ => []
    | .ongoing w' => w'.arrivals e g
termination_by w.weight e g
decreasing_by exact weight_advance_lt _h

theorem arrivals_eq (w : Walk) :
    w.arrivals e g = w.nextArrival?.toList ++
      match w.advance e g with
      | .ended _ => []
      | .ongoing w' => w'.arrivals e g := by
  rw [arrivals]
  split
  · next h => rw [h]
  · next h => rw [h]

end Walk

/-! ## What a stack owes -/

/-- What visits that wait come to, one after the other. -/
def owed (e : Evaluation) (g : RuleGraph) : List Arrival → Report
  | [] => .nothing
  | x :: rest => (x.visit.explore e g x.path).andThen (owed e g rest)

/-- Visits that wait at the end of one path. -/
def following (path : List Visit) (next : List Visit) : List Arrival :=
  next.map fun v => ⟨v, path⟩

theorem owed_following_append (e : Evaluation) (g : RuleGraph) (path next : List Visit)
    (rest : List Arrival) :
    owed e g (following path next ++ rest) =
      (Visit.exploreAll e g path next).andThen (owed e g rest) := by
  induction next with
  | nil =>
    rw [Visit.exploreAll_nil, Report.nothing_andThen]
    rfl
  | cons v next ih =>
    rw [Visit.exploreAll_cons, Report.andThen_assoc, ← ih]
    rfl

/-! ## The simulation -/

namespace Walk

/-- A stack with its trail stands for visits at the ends of paths: the same visits, with the
situations of their paths. -/
def Stands (w : Walk) (waiting : List Arrival) : Prop :=
  w.pending.map (fun p => (w.trail.path p.origin, p.visit)) = waiting.map Arrival.outline

variable {e : Evaluation} {g : RuleGraph} {w : Walk} {p : Pending} {rest : List Pending}
variable {events : List Event} {next : List Visit} {x : Arrival} {waiting : List Arrival}

theorem stands_start (node : NodeId) (parties : Parties) :
    (start node parties).Stands [⟨.first node parties, []⟩] := rfl

theorem Stands.pending_nil (stands : w.Stands []) : w.pending = [] :=
  List.map_eq_nil_iff.1 stands

/-- The visit on top of the stack is the first that waits, and the trail has its path. -/
theorem Stands.pending_cons (stands : w.Stands (x :: waiting)) :
    ∃ p rest, w.pending = p :: rest ∧ p.visit = x.visit ∧
      w.trail.path p.origin = x.path.map Visit.situation ∧
      rest.map (fun q => (w.trail.path q.origin, q.visit)) = waiting.map Arrival.outline := by
  obtain ⟨p, rest, hp, top, below⟩ := List.map_eq_cons_iff.1 stands
  obtain ⟨path, visit⟩ := Prod.mk.inj top
  exact ⟨p, rest, hp, visit, path, below⟩

/-- Entering a visit: those that follow wait at the end of its path made longer by it, in front of
the others, whose paths the trail still has as they were. -/
theorem Stands.enter (hp : w.pending = p :: rest) (visit : p.visit = x.visit)
    (path : w.trail.path p.origin = x.path.map Visit.situation)
    (below : rest.map (fun q => (w.trail.path q.origin, q.visit)) =
      waiting.map Arrival.outline) :
    (w.enter p rest hp events next).Stands (following x.walk next ++ waiting) := by
  have known : w.trail.Has p.origin := w.origins_known p (by simp [hp])
  -- a new step leaves the paths of the others alone, for their steps are in the trail already
  have old : rest.map (fun q =>
        ((w.trail.push p.visit.situation p.origin known).path q.origin, q.visit)) =
      rest.map fun q => (w.trail.path q.origin, q.visit) := by
    refine List.map_congr_left fun q hq => ?_
    rw [Trail.path_push _ _ _ _ (w.origins_known q (by simp [hp, hq]))]
  have new : (w.trail.push p.visit.situation p.origin known).path (some w.trail.size) =
      x.walk.map Visit.situation := by
    rw [Trail.path_push_size, path, visit]
    rfl
  have top : (next.map fun v => (⟨v, some w.trail.size⟩ : Pending)).map (fun q =>
        ((w.trail.push p.visit.situation p.origin known).path q.origin, q.visit)) =
      (following x.walk next).map Arrival.outline := by
    rw [following, List.map_map, List.map_map]
    exact List.map_congr_left fun v _ => congrArg (·, v) new
  show (continuing w.trail.size next rest).map _ = _
  rw [continuing, List.map_append, List.map_append, ← below, ← old, ← top]
  rfl

/-- A walk records what it has recorded already and then what it owes, and it takes from its stack
the arrivals of what it owes. -/
theorem run_of_stands (stands : w.Stands waiting) :
    (w.run e g).toList = w.events.toList ++ (owed e g waiting).events ∧
      w.arrivals e g = (owed e g waiting).arrivals.map Arrival.outline := by
  -- on the weight of the stack: a step that enters a visit makes it lighter
  induction h : w.weight e g using Nat.strongRecOn generalizing w waiting with
  | ind n ih =>
    cases waiting with
    | nil =>
      have hp : w.pending = [] := stands.pending_nil
      rw [run_eq, arrivals_eq, advance_of_nil hp, nextArrival?, hp]
      simp [owed, Report.nothing]
    | cons x waiting =>
      obtain ⟨p, rest, hp, visit, path, below⟩ := stands.pending_cons
      have guard : guard? e.settings.maxNodeVisits (w.trail.path p.origin) p.visit.situation =
          x.visit.fault? e x.path := by
        rw [path, visit]
        rfl
      have top : w.nextArrival? = some x.outline := by
        rw [nextArrival?, hp, List.head?_cons, Option.map_some, path, visit]
        rfl
      rw [run_eq, arrivals_eq, top, owed]
      rcases Visit.explore_cases e g x.path x.visit with
        ⟨fault, refused⟩ | ⟨events, entering, outcome⟩ | ⟨events, next, entering, outcome⟩
      · rw [advance_of_cons hp, guard, refused, Visit.explore_of_fault refused,
          Report.andThen_of_ended rfl, visit]
        simp
      · rw [advance_of_cons hp, guard, entering, visit, outcome,
          Visit.explore_of_halt entering outcome, Report.andThen_of_ended rfl]
        simp
      · have step : w.advance e g = .ongoing (w.enter p rest hp events next) := by
          rw [advance_of_cons hp, guard, entering, visit, outcome]
        have lighter : (w.enter p rest hp events next).weight e g < n :=
          h ▸ weight_advance_lt step
        obtain ⟨record, met⟩ := ih _ lighter (Stands.enter hp visit path below) rfl
        rw [step, Visit.explore_of_onward entering outcome, Report.andThen_assoc,
          Report.andThen_of_goes_on rfl]
        rw [owed_following_append] at record met
        constructor
        · show ((w.enter p rest hp events next).run e g).toList = _
          rw [record]
          simp [Walk.enter, Arrival.walk]
        · show x.outline :: (w.enter p rest hp events next).arrivals e g = _
          rw [met]
          rfl

end Walk

/-! ## Judging a rule -/

namespace Arbiter

/-- The visits that are taken from the stack when a rule is judged, in order. -/
def arrivals (a : Arbiter) (world : World) (rule : String) (scheme : Option Scheme)
    (p : Parties) : List (List Situation × Visit) :=
  match a.entry rule with
  | .error _ => []
  | .ok (g, start) => (Walk.start start p).arrivals (a.evaluation world rule scheme) g

variable (a : Arbiter) (world : World) (rule : String) (scheme : Option Scheme) (p : Parties)

/-- What is recorded, told by where the evaluation begins. -/
theorem events_eq_entry :
    a.events world rule scheme p =
      match a.entry rule with
      | .error fault => [.fault fault]
      | .ok (g, start) =>
        ((Walk.start start p).run (a.evaluation world rule scheme) g).toList := by
  unfold events entry
  cases a.rules rule with
  | none => rfl
  | some g =>
    cases hs : g.start? with
    | none => simp only [hs]
    | some start => simp only [hs]

/-- The stack machine and the recursion leave the same record and make the same visits. -/
theorem events_and_arrivals_eq :
    a.events world rule scheme p = (a.exploration world rule scheme p).events ∧
      a.arrivals world rule scheme p =
        (a.exploration world rule scheme p).arrivals.map Arrival.outline := by
  rw [events_eq_entry, arrivals, exploration]
  cases a.entry rule with
  | error fault => exact ⟨rfl, rfl⟩
  | ok entry =>
    obtain ⟨g, start⟩ := entry
    have stands := Walk.stands_start start p
    have owes : owed (a.evaluation world rule scheme) g [⟨.first start p, []⟩] =
        (Visit.first start p).explore (a.evaluation world rule scheme) g [] :=
      Report.andThen_nothing
    obtain ⟨record, met⟩ :=
      Walk.run_of_stands (e := a.evaluation world rule scheme) (g := g) stands
    rw [owes] at record met
    exact ⟨record, met⟩

theorem events_eq_exploration :
    a.events world rule scheme p = (a.exploration world rule scheme p).events :=
  (a.events_and_arrivals_eq world rule scheme p).1

/-- Judging a rule that can be entered explores its graph from the Start node. -/
theorem events_of_entry {a : Arbiter} {rule : String} {g : RuleGraph} {start : NodeId}
    (entry : a.entry rule = .ok (g, start)) (world : World) (scheme : Option Scheme)
    (p : Parties) :
    a.events world rule scheme p =
      ((Visit.first start p).explore (a.evaluation world rule scheme) g []).events := by
  rw [events_eq_exploration, exploration, entry]

theorem arrivals_of_entry {a : Arbiter} {rule : String} {g : RuleGraph} {start : NodeId}
    (entry : a.entry rule = .ok (g, start)) (world : World) (scheme : Option Scheme)
    (p : Parties) :
    a.arrivals world rule scheme p =
      ((Visit.first start p).explore (a.evaluation world rule scheme) g []).arrivals.map
        Arrival.outline := by
  rw [(a.events_and_arrivals_eq world rule scheme p).2, exploration, entry]

/-- What is taken from the stack stands at the end of a walk of the graph, and the trail has the
situations of that walk. -/
theorem exists_walkPath_of_mem_arrivals {a : Arbiter} {rule : String} {g : RuleGraph}
    {start : NodeId} (entry : a.entry rule = .ok (g, start)) {world : World}
    {scheme : Option Scheme} {p : Parties} {chain : List Situation} {v : Visit}
    (met : (chain, v) ∈ a.arrivals world rule scheme p) :
    ∃ path, path.map Visit.situation = chain ∧
      WalkPath (a.evaluation world rule scheme) g (.first start p) path v := by
  rw [arrivals_of_entry entry] at met
  obtain ⟨x, explored, outline⟩ := List.mem_map.1 met
  obtain ⟨rfl, rfl⟩ := Prod.mk.inj outline
  exact ⟨x.path, rfl, WalkPath.of_mem_arrivals .start explored⟩

/-- A fault is the last event of the judging of a rule, and the only one. -/
theorem exploration_faultLast : (a.exploration world rule scheme p).FaultLast := by
  unfold exploration
  cases a.entry rule with
  | error fault =>
    intro other met
    obtain rfl := Event.fault.inj (List.mem_singleton.1 met)
    exact ⟨rfl, [], rfl, fun _ => List.not_mem_nil⟩
  | ok entry => exact Visit.explore_faultLast [] _

/-- Judging a rule is exploring its graph by plain recursion from the Start node: the verdict, the
whole record of events and the visits with their paths are the same, in the same order; a fault
adds one last error that holds its wording; of the links of a port that is followed none is taken
twice, and none is passed over unless the evaluation ends early; and a visit leaves at most one
message. -/
theorem judging_explores (a : Arbiter) (world : World) (p : Parties) :
    (∀ rule, a.judge world rule p = (a.exploration world rule none p).verdict) ∧
    (∀ s, a.judgeScheme world s p = (a.exploration world s.ruleId (some s) p).verdict) ∧
    ∀ rule scheme,
      a.events world rule scheme p = (a.exploration world rule scheme p).events ∧
      a.arrivals world rule scheme p =
        (a.exploration world rule scheme p).arrivals.map Arrival.outline ∧
      (∀ fault, Event.fault fault ∈ a.events world rule scheme p →
        ∃ before, a.events world rule scheme p = before ++ [.fault fault] ∧
          (∀ other, Event.fault other ∉ before) ∧
          (Verdict.ofEvents (a.events world rule scheme p)).warnings =
            (Verdict.ofEvents before).warnings ∧
          (Verdict.ofEvents (a.events world rule scheme p)).errors =
            (Verdict.ofEvents before).errors ++ [fault.message]) ∧
      ∀ g start, a.entry rule = .ok (g, start) →
        (a.exploration world rule scheme p).Thorough (a.evaluation world rule scheme) g 0 ∧
        ∀ v : Visit,
          (Verdict.ofEvents (v.outcome (a.evaluation world rule scheme) g).1).warnings.length +
            (Verdict.ofEvents (v.outcome (a.evaluation world rule scheme) g).1).errors.length
              ≤ 1 := by
  refine ⟨?_, ?_, ?_⟩
  · intro rule
    exact congrArg Verdict.ofEvents (a.events_eq_exploration world rule none p)
  · intro s
    exact congrArg Verdict.ofEvents (a.events_eq_exploration world s.ruleId (some s) p)
  · intro rule scheme
    obtain ⟨record, met⟩ := a.events_and_arrivals_eq world rule scheme p
    refine ⟨record, met, ?_, ?_⟩
    · intro fault h
      rw [record] at h ⊢
      obtain ⟨-, before, last, only⟩ := a.exploration_faultLast world rule scheme p fault h
      refine ⟨before, last, only, ?_, ?_⟩
      · rw [last, Verdict.warnings_ofEvents_append]
        exact List.append_nil _
      · rw [last, Verdict.errors_ofEvents_append]
        rfl
    · intro g start entry
      constructor
      · rw [exploration, entry]
        exact Visit.explore_thorough [] _
      · exact fun v => Visit.length_messages_le_one

end Arbiter

end Stratagem
