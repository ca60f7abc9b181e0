import Stratagem.Proofs.Walk.Acyclic
import Stratagem.Proofs.Walk.Rewiring

/-!
# The shape of a graph

Nodes are named by their places in the graph, and these places stand in visits, in situations and in
the faults of the guard. What a rule comes to depends on none of them: it depends on the shape of the
part of its graph that wires lead to from the Start node.

* `RuleGraph.Embeds`: one graph has the shape of the other, each reachable node under another name.
* `guard?_rename`: the guard says the same of renamed situations, for different nodes stay different.
* `Embeds.outcome` and `Embeds.explore`: a renamed visit does what the visit does, renamed, and so
  does a whole exploration.
* `Arbiter.renaming_keeps_verdict` is the result for the judging of a rule.
-/

namespace Stratagem

/-! ## Renamed nodes -/

def Link.rename (f : NodeId → NodeId) (l : Link) : Link := { l with node := f l.node }

def Visit.rename (f : NodeId → NodeId) (v : Visit) : Visit := { v with node := f v.node }

def Situation.rename (f : NodeId → NodeId) (s : Situation) : Situation :=
  { s with node := f s.node }

/-- Only the faults of the guard name a node. -/
def RuleFault.rename (f : NodeId → NodeId) : RuleFault → RuleFault
  | .cycle rule node => .cycle rule (f node)
  | .visitLimit rule node limit => .visitLimit rule (f node) limit
  | fault => fault

def Event.rename (f : NodeId → NodeId) : Event → Event
  | .asked method context => .asked method context
  | .warning node message => .warning (f node) message
  | .error node message => .error (f node) message
  | .fault cause => .fault (cause.rename f)

def Arrival.rename (f : NodeId → NodeId) (x : Arrival) : Arrival :=
  ⟨x.visit.rename f, x.path.map (Visit.rename f)⟩

def Report.rename (f : NodeId → NodeId) (r : Report) : Report :=
  ⟨r.arrivals.map (Arrival.rename f), r.events.map (Event.rename f), r.ended⟩

variable {f : NodeId → NodeId}

theorem Event.rename_id (x : Event) : x.rename id = x := by
  cases x with
  | fault fault => cases fault <;> rfl
  | _ => rfl

theorem GuardFault.toRuleFault_rename (fault : GuardFault) (e : Evaluation) (n : NodeId) :
    (fault.toRuleFault e n).rename f = fault.toRuleFault e (f n) := by
  cases fault <;> rfl

theorem Report.rename_andThen (a b : Report) :
    (a.andThen b).rename f = (a.rename f).andThen (b.rename f) := by
  cases h : a.ended with
  | true =>
    have h' : (a.rename f).ended = true := h
    rw [andThen_of_ended h, andThen_of_ended h']
  | false =>
    have h' : (a.rename f).ended = false := h
    rw [andThen_of_goes_on h, andThen_of_goes_on h']
    simp only [rename, List.map_append]

/-- What is left in the record besides faults names no node in its wording. -/
theorem Verdict.ofEvents_rename {events : List Event}
    (none : ∀ fault, Event.fault fault ∉ events) :
    Verdict.ofEvents (events.map (Event.rename f)) = Verdict.ofEvents events := by
  have warnings : (events.map (Event.rename f)).filterMap Event.warning? =
      events.filterMap Event.warning? := by
    rw [List.filterMap_map]
    refine List.filterMap_congr fun x _ => ?_
    cases x <;> rfl
  have errors : (events.map (Event.rename f)).filterMap Event.error? =
      events.filterMap Event.error? := by
    rw [List.filterMap_map]
    refine List.filterMap_congr fun x hx => ?_
    cases x with
    | fault fault => exact absurd hx (none fault)
    | _ => rfl
  simp only [Verdict.ofEvents, warnings, errors]

/-- The guard says the same of renamed situations, if nodes of the path stay apart from the node of
the visit. -/
theorem guard?_rename {limit : UInt32} {path : List Situation} {s : Situation}
    (apart : ∀ x ∈ path, f x.node = f s.node → x.node = s.node) :
    guard? limit (path.map (Situation.rename f)) (s.rename f) = guard? limit path s := by
  have repeated : s.rename f ∈ path.map (Situation.rename f) ↔ s ∈ path := by
    constructor
    · intro h
      obtain ⟨x, hx, same⟩ := List.mem_map.1 h
      have node : x.node = s.node := apart x hx (congrArg Situation.node same)
      obtain ⟨-, channel, conspirator, target, subject⟩ := Situation.mk.inj same
      have one : x = s := by
        cases x
        cases s
        simp_all
      exact one ▸ hx
    · exact List.mem_map_of_mem
  have entered : visits (s.rename f).node (path.map (Situation.rename f)) = visits s.node path := by
    unfold visits
    rw [List.countP_map]
    refine List.countP_congr fun x hx => ?_
    simp only [Function.comp_apply, decide_eq_true_eq]
    exact ⟨apart x hx, congrArg f⟩
  unfold guard?
  simp only [repeated, entered]

/-! ## One visit -/

namespace Visit

variable {e : Evaluation} {v : Visit} {kind : NodeKind}

theorem decide_rename : (v.rename f).decide e kind = v.decide e kind := by
  cases kind <;> rfl

theorem events_rename : (v.rename f).events e kind = (v.events e kind).map (Event.rename f) := by
  have asks : (v.rename f).asks? kind = v.asks? kind := by
    cases kind <;> rfl
  have remark : (v.rename f).remark? e kind = (v.remark? e kind).map (Event.rename f) := by
    cases kind <;> rfl
  unfold events
  rw [asks, remark]
  simp only [List.map_append, Option.toList_map, List.map_map]
  rfl

end Visit

/-! ## Graphs of one shape -/

namespace RuleGraph

/-- Wires lead to a node from the Start node. -/
def Reachable (g : RuleGraph) (n : NodeId) : Prop :=
  ∃ start, g.start? = some start ∧ Relation.ReflTransGen g.Wired start n

/-- The part of a graph that wires lead to from its Start node is found in another graph, with every
node under the name that `f` gives it: the kinds are the same, and so are the links of every port, in
the same order. -/
structure Embeds (f : NodeId → NodeId) (g h : RuleGraph) : Prop where
  start : h.start? = g.start?.map f
  injective : ∀ m n, g.Reachable m → g.Reachable n → f m = f n → m = n
  kind : ∀ n, g.Reachable n → h.kind? (f n) = g.kind? n
  outputs : ∀ n port, g.Reachable n → h.outputs (f n) port = (g.outputs n port).map (Link.rename f)

variable {g h : RuleGraph} {m n : NodeId}

theorem Reachable.wired (reachable : g.Reachable m) (wired : g.Wired m n) : g.Reachable n := by
  obtain ⟨start, found, route⟩ := reachable
  exact ⟨start, found, route.tail wired⟩

theorem Reachable.lt_nodeCount (reachable : g.Reachable n) : n < g.nodeCount := by
  obtain ⟨start, found, route⟩ := reachable
  rcases Relation.ReflTransGen.cases_tail route with rfl | ⟨m, -, w, hw, -, rfl⟩
  · exact RuleGraph.lt_nodeCount (kind?_of_start? found)
  · obtain ⟨kind, known, -⟩ := (g.wellFormed.wires_fit w hw).dest
    exact RuleGraph.lt_nodeCount known

namespace Embeds

variable {e : Evaluation} {v w : Visit} {path next : List Visit}

/-- Only the names of the nodes that can be reached matter. -/
theorem congr {f' : NodeId → NodeId} (embeds : g.Embeds f h)
    (same : ∀ n, g.Reachable n → f' n = f n) : g.Embeds f' h where
  start := by
    rw [embeds.start]
    cases found : g.start? with
    | none => rfl
    | some start => exact congrArg some (same start ⟨start, found, .refl⟩).symm
  injective := by
    intro m n hm hn equal
    rw [same m hm, same n hn] at equal
    exact embeds.injective m n hm hn equal
  kind := by
    intro n hn
    rw [same n hn]
    exact embeds.kind n hn
  outputs := by
    intro n port hn
    rw [same n hn, embeds.outputs n port hn]
    refine List.map_congr_left fun link linked => ?_
    obtain ⟨wire, hw, source, -, rfl⟩ := mem_outputs.1 linked
    have there : f' wire.dest = f wire.dest := same _ (hn.wired ⟨wire, hw, source, rfl⟩)
    simp only [Link.rename, Wire.link, there]

theorem fault? (embeds : g.Embeds f h) (here : g.Reachable v.node)
    (before : ∀ u ∈ path, g.Reachable u.node) :
    (v.rename f).fault? e (path.map (Visit.rename f)) = v.fault? e path := by
  have renamed : (path.map (Visit.rename f)).map Visit.situation =
      (path.map Visit.situation).map (Situation.rename f) := by
    rw [List.map_map, List.map_map]
    rfl
  show guard? _ _ (v.situation.rename f) = guard? _ _ v.situation
  rw [renamed]
  refine guard?_rename fun s hs same => ?_
  obtain ⟨u, hu, rfl⟩ := List.mem_map.1 hs
  exact embeds.injective _ _ (before u hu) here same

/-- A renamed visit leaves what the visit leaves and leads where it leads, renamed. -/
theorem outcome (embeds : g.Embeds f h) (here : g.Reachable v.node) :
    (v.rename f).outcome e h =
      ((v.outcome e g).1.map (Event.rename f),
        (v.outcome e g).2.map (List.map (Visit.rename f))) := by
  have kind : h.kind? (v.rename f).node = g.kind? v.node := embeds.kind v.node here
  unfold Visit.outcome
  rw [kind]
  cases g.kind? v.node with
  | none => rfl
  | some kind =>
    refine Prod.ext Visit.events_rename ?_
    show (v.rename f).onward h ((v.rename f).decide e kind) =
      (v.onward g (v.decide e kind)).map (List.map (Visit.rename f))
    rw [Visit.decide_rename]
    cases v.decide e kind with
    | stop => rfl
    | halt => rfl
    | follow port parties subject =>
      have links : h.outputs (v.rename f).node port =
          (g.outputs v.node port).map (Link.rename f) := embeds.outputs v.node port here
      simp only [Visit.onward, links, Option.map_some, List.map_map]
      rfl

/-! ## The whole exploration -/

theorem exploreAll
    (each : ∀ w ∈ next, (w.rename f).explore e h (path.map (Visit.rename f)) =
      (w.explore e g path).rename f) :
    Visit.exploreAll e h (path.map (Visit.rename f)) (next.map (Visit.rename f)) =
      (Visit.exploreAll e g path next).rename f := by
  induction next with
  | nil =>
    simp only [List.map_nil, Visit.exploreAll_nil]
    rfl
  | cons w next ih =>
    rw [List.map_cons, Visit.exploreAll_cons, Visit.exploreAll_cons, Report.rename_andThen,
      each w List.mem_cons_self, ih fun u hu => each u (List.mem_cons_of_mem _ hu)]

/-- Exploring from a renamed visit on a renamed path comes to the renamed report. -/
theorem explore (embeds : g.Embeds f h) (path : List Visit) (v : Visit)
    (reachable : ∀ u ∈ v :: path, g.Reachable u.node) :
    (v.rename f).explore e h (path.map (Visit.rename f)) = (v.explore e g path).rename f := by
  induction path, v using Visit.explore_induction (e := e) (g := g) with
  | visit path v ih =>
    have here : g.Reachable v.node := reachable v List.mem_cons_self
    have guard : (v.rename f).fault? e (path.map (Visit.rename f)) = v.fault? e path :=
      embeds.fault? here fun u hu => reachable u (List.mem_cons_of_mem _ hu)
    have step := embeds.outcome (e := e) here
    rcases Visit.explore_cases e g path v with
      ⟨fault, refused⟩ | ⟨events, entering, outcome⟩ | ⟨events, next, entering, outcome⟩
    · rw [Visit.explore_of_fault refused, Visit.explore_of_fault (guard.trans refused)]
      simp only [Report.rename, List.map_cons, List.map_nil, Event.rename,
        GuardFault.toRuleFault_rename]
      rfl
    · rw [outcome] at step
      rw [Visit.explore_of_halt entering outcome,
        Visit.explore_of_halt (guard.trans entering) step]
      rfl
    · rw [outcome] at step
      -- the visits that follow are reachable too, so the induction covers them
      have each : ∀ w ∈ next, (w.rename f).explore e h ((v :: path).map (Visit.rename f)) =
          (w.explore e g (v :: path)).rename f := by
        intro w hw
        have leads : v.Leads e g w := (Visit.mem_iff_leads outcome).1 hw
        refine ih w entering leads fun u hu => ?_
        rcases List.mem_cons.1 hu with rfl | hu
        · exact here.wired leads.wired
        · exact reachable u hu
      have below := exploreAll each
      rw [Visit.explore_of_onward entering outcome,
        Visit.explore_of_onward (guard.trans entering) step, Report.rename_andThen, ← below]
      rfl

end Embeds

end RuleGraph

/-! ## Judging a rule -/

namespace Arbiter

variable {a : Arbiter} {world : World} {rule : String} {scheme : Option Scheme} {p : Parties}
variable {rules : String → Option RuleGraph} {g h : RuleGraph} {node : NodeId}

theorem events_rename (embeds : g.Embeds f h) (known : a.rules rule = some g)
    (known' : rules rule = some h) :
    (a.withRules rules).events world rule scheme p =
      (a.events world rule scheme p).map (Event.rename f) := by
  have known' : (a.withRules rules).rules rule = some h := known'
  cases found : g.start? with
  | none =>
    have found' : h.start? = none := by rw [embeds.start, found, Option.map_none]
    simp only [events, known, known', found, found']
    rfl
  | some start =>
    have found' : h.start? = some (f start) := by rw [embeds.start, found, Option.map_some]
    rw [events_of_entry (entry_eq_ok_iff.2 ⟨known, found⟩),
      events_of_entry (entry_eq_ok_iff.2 ⟨known', found'⟩)]
    have explored := embeds.explore (e := a.evaluation world rule scheme) [] (.first start p) <| by
      intro u hu
      rw [List.mem_singleton.1 hu]
      exact ⟨start, found, .refl⟩
    exact congrArg Report.events explored

/-- A fault of the guard is reported at a node that can be reached. -/
theorem reachable_of_aborted {before : List Event} {refusal : GuardFault}
    (known : a.rules rule = some g) (last : a.events world rule scheme p =
      before ++ [.fault (refusal.toRuleFault (a.evaluation world rule scheme) node)]) :
    g.Reachable node := by
  have aborted : a.Aborted world rule scheme p refusal := ⟨before, node, last⟩
  cases found : g.start? with
  | none =>
    have entry : a.entry rule = .error (.missingStart rule) := by
      simp only [Arbiter.entry, known, found]
    exact absurd aborted (not_aborted_of_error entry)
  | some start =>
    have met : Event.fault (refusal.toRuleFault (a.evaluation world rule scheme) node) ∈
        a.events world rule scheme p := last ▸ List.mem_append_right _ List.mem_cons_self
    obtain ⟨path, v, refusal', walk, -, named, -⟩ :=
      exists_refused_of_fault (entry_eq_ok_iff.2 ⟨known, found⟩) met
    have here : node = v.node := by
      cases refusal <;> cases refusal' <;> cases named <;> rfl
    exact here ▸ ⟨start, found, walk.reaches⟩

/-- A fault that keeps a known rule from being entered names no node. -/
theorem rename_of_entry_eq_error {fault : RuleFault} (known : a.rules rule = some g)
    (entry : a.entry rule = .error fault) : fault.rename f = fault := by
  unfold Arbiter.entry at entry
  rw [known] at entry
  cases found : g.start? with
  | none =>
    simp only [found] at entry
    cases entry
    rfl
  | some start =>
    simp only [found] at entry
    cases entry

theorem verdict_rename_of_not_aborted (known : a.rules rule = some g)
    (passes : ∀ refusal, ¬ a.Aborted world rule scheme p refusal) :
    Verdict.ofEvents ((a.events world rule scheme p).map (Event.rename f)) =
      Verdict.ofEvents (a.events world rule scheme p) := by
  cases entry : a.entry rule with
  | error fault =>
    have alone : a.events world rule scheme p = [.fault fault] := by
      rw [events_eq_entry, entry]
    rw [alone, List.map_cons, Event.rename, rename_of_entry_eq_error known entry, List.map_nil]
  | ok found =>
    exact Verdict.ofEvents_rename
      (fault_not_mem_of_not_aborted entry (passes .cycle) (passes .overLimit))

/-- Only the node that the fault of the guard names is renamed. -/
theorem verdict_rename_of_aborted {refusal : GuardFault} (known : a.rules rule = some g)
    (aborted : a.Aborted world rule scheme p refusal) :
    ∃ node warnings errors, g.Reachable node ∧
      Verdict.ofEvents (a.events world rule scheme p) =
        ⟨warnings, errors ++
          [(refusal.toRuleFault (a.evaluation world rule scheme) node).message]⟩ ∧
      Verdict.ofEvents ((a.events world rule scheme p).map (Event.rename f)) =
        ⟨warnings, errors ++
          [(refusal.toRuleFault (a.evaluation world rule scheme) (f node)).message]⟩ := by
  obtain ⟨before, node, last⟩ := aborted
  have only : ∀ other, Event.fault other ∉ before := by
    have faultLast := exploration_faultLast a world rule scheme p
    unfold Report.FaultLast at faultLast
    rw [← events_eq_exploration] at faultLast
    obtain ⟨-, before', last', only⟩ :=
      faultLast _ (last ▸ List.mem_append_right _ List.mem_cons_self)
    obtain ⟨rfl, -⟩ := List.append_inj' (last.symm.trans last') rfl
    exact only
  refine ⟨node, (Verdict.ofEvents before).warnings, (Verdict.ofEvents before).errors,
    reachable_of_aborted known last, ?_, ?_⟩
  · rw [last, Verdict.ofEvents_concat_fault]
  · rw [last, List.map_append, List.map_cons, List.map_nil, Event.rename,
      GuardFault.toRuleFault_rename, Verdict.ofEvents_concat_fault, Verdict.ofEvents_rename only]

/-- What a rule comes to depends on its graph only through the shape of the part that wires lead to
from the Start node. On a graph in which that part is found under other names of the nodes, the
record is the same with the nodes renamed; the verdict is the same, the number of the node apart that
a fault of the guard names; and nothing at all changes if the reachable nodes keep their names,
whatever nodes and wires there are beside them. -/
theorem renaming_keeps_verdict (a : Arbiter) (rules : String → Option RuleGraph) (world : World)
    (rule : String) (scheme : Option Scheme) (p : Parties) (f : NodeId → NodeId) (g h : RuleGraph)
    (known : a.rules rule = some g) (known' : rules rule = some h) (embeds : g.Embeds f h) :
    let e := a.evaluation world rule scheme
    let record := a.events world rule scheme p
    let record' := (a.withRules rules).events world rule scheme p
    record' = record.map (Event.rename f) ∧
    ((∀ refusal, ¬ a.Aborted world rule scheme p refusal) →
      Verdict.ofEvents record' = Verdict.ofEvents record) ∧
    (∀ refusal, a.Aborted world rule scheme p refusal →
      ∃ node warnings errors, g.Reachable node ∧
        Verdict.ofEvents record =
          ⟨warnings, errors ++ [(refusal.toRuleFault e node).message]⟩ ∧
        Verdict.ofEvents record' =
          ⟨warnings, errors ++ [(refusal.toRuleFault e (f node)).message]⟩) ∧
    ((∀ n, g.Reachable n → f n = n) → record' = record) := by
  intro e record record'
  have renamed : record' = record.map (Event.rename f) := events_rename embeds known known'
  refine ⟨renamed, ?_, ?_, ?_⟩
  · intro passes
    rw [renamed]
    exact verdict_rename_of_not_aborted known passes
  · intro refusal aborted
    rw [renamed]
    exact verdict_rename_of_aborted known aborted
  · intro fixed
    have kept : g.Embeds id h := embeds.congr fun n hn => (fixed n hn).symm
    have same : record' = record.map (Event.rename id) := events_rename kept known known'
    rw [same, List.map_congr_left fun x _ => x.rename_id, List.map_id']

end Arbiter

/-- The graph `turning` among nodes and wires that nothing leads to. -/
def RuleGraph.crowded : RuleGraph where
  document :=
    { id := "turning"
      nodes := [.warning "idle", .start, .error "never", .warning "again"]
      wires := [⟨0, .next, 3, none⟩, ⟨1, .run, 3, none⟩, ⟨2, .next, 0, none⟩, ⟨3, .next, 3, none⟩] }
  wellFormed := (GraphDocument.violation?_eq_none_iff _).1 rfl

theorem RuleGraph.embeds_crowded : RuleGraph.turning.Embeds (fun n => 2 * n + 1) .crowded where
  start := rfl
  injective := by
    intro m n _ _ same
    exact Nat.eq_of_mul_eq_mul_left Nat.two_pos (Nat.succ.inj same)
  kind := by
    intro n reachable
    have few : n < 2 := reachable.lt_nodeCount
    match n, few with
    | 0, _ | 1, _ => rfl
  outputs := by
    intro n port reachable
    have few : n < 2 := reachable.lt_nodeCount
    match n, few with
    | 0, _ | 1, _ => cases port <;> rfl

/-- Under other names the same cycle is found, at the node that stands for the one it was found at. -/
theorem Arbiter.renaming_keeps_verdict_turning :
    let ada := Actor.create .nil "Ada" .female
    let world := World.empty.addActor ada
    let a : Arbiter := { rules := fun _ => some .turning, bridge := .empty }
    let e := a.evaluation world "turning" none
    let verdict := a.judge world "turning" ⟨ada, none⟩
    let verdict' := (a.withRules fun _ => some .crowded).judge world "turning" ⟨ada, none⟩
    RuleGraph.turning.Embeds (fun n => 2 * n + 1) .crowded ∧
      a.Aborted world "turning" none ⟨ada, none⟩ .cycle ∧
      ∃ node warnings errors, RuleGraph.turning.Reachable node ∧
        verdict = ⟨warnings, errors ++ [(GuardFault.toRuleFault e node .cycle).message]⟩ ∧
        verdict' =
          ⟨warnings, errors ++ [(GuardFault.toRuleFault e (2 * node + 1) .cycle).message]⟩ := by
  intro ada world a e verdict verdict'
  let p : Parties := ⟨ada, none⟩
  let again : Visit := ⟨1, none, p, some ada⟩
  have entry : a.entry "turning" = .ok (.turning, 0) := rfl
  have walk : ForemostPath e .turning (.first 0 p) [again, .first 0 p] again :=
    .onward (.onward .start rfl rfl) rfl rfl
  have refused : again.fault? e [again, .first 0 p] = some .cycle := rfl
  have aborted : a.Aborted world "turning" none p .cycle := by
    refine aborted_iff.2 ⟨1, ?_⟩
    rw [events_of_entry entry]
    exact walk.fault_mem_events refused
  obtain ⟨-, -, moved, -⟩ := renaming_keeps_verdict a (fun _ => some .crowded) world "turning" none p
    (fun n => 2 * n + 1) .turning .crowded rfl rfl RuleGraph.embeds_crowded
  exact ⟨RuleGraph.embeds_crowded, aborted, moved .cycle aborted⟩

end Stratagem
