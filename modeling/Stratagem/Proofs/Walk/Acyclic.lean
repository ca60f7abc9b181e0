import Mathlib.Data.List.Sigma
import Stratagem.Proofs.Walk.Guard

/-!
# Graphs without cycles

Where the wires that can be reached from the Start node form no cycle, the guard has nothing to
report, however the ways of the graph part and meet again, and every walk is walked once.

* `RuleGraph.AcyclicFrom`: no node that can be reached from one is on a cycle.
  `AcyclicFrom.fault?_eq_none`: there the guard refuses no visit.
* `Visit.along` is the visit at the end of a walk, which is given by the places of the links that it
  takes; parallel wires have different places. `Visit.exists_along_iff` ties these walks to those of
  `WalkPath`, and `Visit.Tracks` lists all of them, each once.
* `Visit.exists_tracks`: an exploration that goes on to its end leaves what the visits at the ends
  of all walks leave. `Visit.filter_flatMap_leftAlong` picks the messages out of it.
* `Arbiter.acyclic_rule_reports_walks` is the result for the judging of a rule.
-/

namespace Stratagem

/-! ## Cycles of wires -/

namespace RuleGraph

/-- Some wire leads from one node to another. -/
def Wired (g : RuleGraph) (m n : NodeId) : Prop :=
  ∃ w ∈ g.document.wires, w.source = m ∧ w.dest = n

/-- The wires form no cycle among the nodes that can be reached from one. -/
def AcyclicFrom (g : RuleGraph) (start : NodeId) : Prop :=
  ∀ n, Relation.ReflTransGen g.Wired start n → ¬ Relation.TransGen g.Wired n n

/-- A graph whose wires all lead to later nodes has no cycle. -/
theorem acyclicFrom_of_forward {g : RuleGraph}
    (forward : ∀ w ∈ g.document.wires, w.source < w.dest) (start : NodeId) :
    g.AcyclicFrom start := by
  have later : ∀ m n, Relation.TransGen g.Wired m n → m < n := by
    intro m n path
    induction path with
    | single wired =>
      obtain ⟨w, hw, rfl, rfl⟩ := wired
      exact forward w hw
    | tail _ wired ih =>
      obtain ⟨w, hw, rfl, rfl⟩ := wired
      exact Nat.lt_trans ih (forward w hw)
  intro n _ cycle
  exact Nat.lt_irrefl n (later n n cycle)

end RuleGraph

variable {e : Evaluation} {g : RuleGraph} {first u v w : Visit} {path next : List Visit}

theorem Visit.Leads.wired (leads : v.Leads e g w) : g.Wired v.node w.node := by
  obtain ⟨-, -, linked⟩ := leads
  obtain ⟨wire, hw, source, -, rfl⟩ := RuleGraph.mem_outputs.1 linked
  exact ⟨wire, hw, source, rfl⟩

theorem WalkPath.reaches (walk : WalkPath e g first path v) :
    Relation.ReflTransGen g.Wired first.node v.node := by
  induction walk with
  | start => exact .refl
  | onward _ leads ih => exact ih.tail leads.wired

theorem WalkPath.wired (walk : WalkPath e g first path v) :
    ∀ u ∈ path, Relation.TransGen g.Wired u.node v.node := by
  intro u hu
  have back : Relation.TransGen (Function.swap g.Wired) v.node u.node :=
    (walk.transGen u hu).lift Visit.node fun _ _ leads => leads.wired
  exact back.swap

theorem WalkPath.prepend (leads : u.Leads e g first) (walk : WalkPath e g first path v) :
    WalkPath e g u (path ++ [u]) v := by
  induction walk with
  | start => exact .onward .start leads
  | onward _ onward ih => exact .onward ih onward

/-- Without cycles no walk enters a node again, so the guard lets it pass. -/
theorem RuleGraph.AcyclicFrom.fault?_eq_none (acyclic : g.AcyclicFrom first.node)
    (limit : 1 ≤ e.settings.maxNodeVisits) (walk : WalkPath e g first path v) :
    v.fault? e path = none := by
  have apart : ∀ u ∈ path, u.node ≠ v.node := by
    intro u hu same
    have cycle := walk.wired u hu
    rw [same] at cycle
    exact acyclic v.node walk.reaches cycle
  rw [Visit.fault?_eq_none_iff]
  constructor
  · intro u hu same
    exact apart u hu (congrArg Situation.node same)
  · have unvisited : path.countP (·.node = v.node) = 0 := by
      simpa [List.countP_eq_zero] using apart
    rw [unvisited]
    exact Nat.lt_of_lt_of_le Nat.one_pos limit

/-! ## Walks as the places of their links -/

namespace Visit

/-- The visit at the end of the walk that takes the links at the given places, in wiring order, of
the ports that its visits follow. -/
def along (e : Evaluation) (g : RuleGraph) (v : Visit) : List Nat → Option Visit
  | [] => some v
  | i :: rest => (v.next e g)[i]?.bind fun w => w.along e g rest

/-- A list of all walks from a visit, each once. -/
structure Tracks (e : Evaluation) (g : RuleGraph) (v : Visit) (tracks : List (List Nat)) :
    Prop where
  nodup : tracks.Nodup
  mem_iff : ∀ t, t ∈ tracks ↔ ∃ w, v.along e g t = some w

/-- The walks that begin with a link to one of several visits. -/
def branches (tracks : Visit → List (List Nat)) (next : List Visit) : List (List Nat) :=
  next.zipIdx.flatMap fun (w, i) => (tracks w).map (i :: ·)

variable {tracks : Visit → List (List Nat)}

theorem mem_branches {t : List Nat} :
    t ∈ branches tracks next ↔
      ∃ i w rest, next[i]? = some w ∧ rest ∈ tracks w ∧ t = i :: rest := by
  unfold branches
  rw [List.mem_flatMap]
  constructor
  · rintro ⟨⟨w, i⟩, hw, h⟩
    obtain ⟨rest, hr, rfl⟩ := List.mem_map.1 h
    exact ⟨i, w, rest, List.mem_zipIdx_iff_getElem?.1 hw, hr, rfl⟩
  · rintro ⟨i, w, rest, hw, hr, rfl⟩
    exact ⟨(w, i), List.mem_zipIdx_iff_getElem?.2 hw, List.mem_map_of_mem hr⟩

theorem nodup_branches (each : ∀ w ∈ next, (tracks w).Nodup) :
    (branches tracks next).Nodup := by
  unfold branches
  rw [List.nodup_flatMap]
  constructor
  · rintro ⟨w, i⟩ hw
    have hw : w ∈ next := List.mem_of_getElem? (List.mem_zipIdx_iff_getElem?.1 hw)
    exact (each w hw).map (List.cons_injective)
  · -- walks that begin at different places differ in their first place
    have places : next.zipIdx.Pairwise (fun x y => x.2 ≠ y.2) :=
      List.pairwise_map.1 (List.nodup_zipIdx_map_snd next)
    refine places.imp fun differ => ?_
    intro t hx hy
    obtain ⟨rest, -, rfl⟩ := List.mem_map.1 hx
    obtain ⟨rest', -, same⟩ := List.mem_map.1 hy
    exact differ (List.cons.inj same).1.symm

theorem flatMap_branches {α : Type} {f : List Nat → List α} {below : Visit → List Nat → List α}
    (h : ∀ i w rest, next[i]? = some w → f (i :: rest) = below w rest) :
    (branches tracks next).flatMap f = next.flatMap fun w => (tracks w).flatMap (below w) := by
  have first : ∀ x ∈ next.zipIdx,
      ((tracks x.1).map (x.2 :: ·)).flatMap f = (tracks x.1).flatMap (below x.1) := by
    rintro ⟨w, i⟩ hw
    rw [List.flatMap_map]
    exact List.flatMap_congr fun rest _ => h i w rest (List.mem_zipIdx_iff_getElem?.1 hw)
  calc (branches tracks next).flatMap f
      = next.zipIdx.flatMap fun x => (tracks x.1).flatMap (below x.1) := by
        rw [branches, List.flatMap_assoc]
        exact List.flatMap_congr first
    _ = next.flatMap fun w => (tracks w).flatMap (below w) := by
        rw [← List.flatMap_map Prod.fst fun w => (tracks w).flatMap (below w),
          List.zipIdx_map_fst]

theorem along_cons {i : Nat} {t : List Nat} (h : (v.next e g)[i]? = some w) :
    v.along e g (i :: t) = w.along e g t := by
  rw [along, h, Option.bind_some]

/-- The walks from a visit are the one that stays and those that begin with one of its links. -/
theorem tracks_branches (each : ∀ w ∈ v.next e g, w.Tracks e g (tracks w)) :
    v.Tracks e g ([] :: branches tracks (v.next e g)) where
  nodup := by
    refine List.nodup_cons.2 ⟨?_, nodup_branches fun w hw => (each w hw).nodup⟩
    intro stays
    obtain ⟨i, w, rest, -, -, same⟩ := mem_branches.1 stays
    cases same
  mem_iff := by
    intro t
    cases t with
    | nil => exact ⟨fun _ => ⟨v, rfl⟩, fun _ => List.mem_cons_self⟩
    | cons i rest =>
      constructor
      · intro h
        rcases List.mem_cons.1 h with same | h
        · cases same
        · obtain ⟨i, w, rest, hw, hr, same⟩ := mem_branches.1 h
          cases same
          obtain ⟨u, hu⟩ := ((each w (List.mem_of_getElem? hw)).mem_iff rest).1 hr
          exact ⟨u, (along_cons hw).trans hu⟩
      · rintro ⟨u, hu⟩
        obtain ⟨w, hw, hu⟩ := Option.bind_eq_some_iff.1 hu
        have hr : rest ∈ tracks w :=
          ((each w (List.mem_of_getElem? hw)).mem_iff rest).2 ⟨u, hu⟩
        exact List.mem_cons_of_mem _ (mem_branches.2 ⟨i, w, rest, hw, hr, rfl⟩)

theorem along_append (s t : List Nat) :
    v.along e g (s ++ t) = (v.along e g s).bind fun w => w.along e g t := by
  induction s generalizing v with
  | nil => rfl
  | cons i s ih =>
    rw [List.cons_append, along, along, Option.bind_assoc]
    simp only [ih]

theorem exists_along_iff :
    (∃ t, v.along e g t = some w) ↔ ∃ path, WalkPath e g v path w := by
  constructor
  · rintro ⟨t, ht⟩
    induction t generalizing v with
    | nil =>
      obtain rfl := Option.some.inj ht
      exact ⟨[], .start⟩
    | cons i rest ih =>
      obtain ⟨u, hu, ht⟩ := Option.bind_eq_some_iff.1 ht
      obtain ⟨path, walk⟩ := ih ht
      exact ⟨path ++ [v], walk.prepend (mem_next.1 (List.mem_of_getElem? hu))⟩
  · rintro ⟨path, walk⟩
    induction walk with
    | start => exact ⟨[], rfl⟩
    | onward _ leads ih =>
      obtain ⟨t, ht⟩ := ih
      obtain ⟨i, hi⟩ := List.mem_iff_getElem?.1 (mem_next.2 leads)
      refine ⟨t ++ [i], ?_⟩
      rw [along_append, ht, Option.bind_some, along_cons hi]
      rfl

/-! ## What the walks leave -/

/-- What the visit at the end of a walk leaves in the record. -/
def leftAlong (e : Evaluation) (g : RuleGraph) (v : Visit) (t : List Nat) : List Event :=
  ((v.along e g t).map fun w => (w.outcome e g).1).getD []

/-- An exploration that goes on to its end leaves what the visits at the ends of all walks leave. -/
theorem exists_tracks (path : List Visit) (v : Visit)
    (goesOn : (v.explore e g path).ended = false) :
    ∃ tracks, v.Tracks e g tracks ∧
      (v.explore e g path).events = tracks.flatMap (v.leftAlong e g) := by
  induction path, v using explore_induction (e := e) (g := g) with
  | visit path v ih =>
    obtain ⟨entering, events, next, onward, each⟩ := explore_goes_on_iff.1 goesOn
    obtain rfl : v.next e g = next := next_of_outcome onward
    have below : ∀ w ∈ v.next e g, ∃ tracks, w.Tracks e g tracks ∧
        (w.explore e g (v :: path)).events = tracks.flatMap (w.leftAlong e g) := fun w hw =>
      ih w entering (mem_next.1 hw) (each w hw)
    -- one list of walks for each of the visits that follow
    choose! tracks walks left using below
    refine ⟨[] :: branches tracks (v.next e g), tracks_branches walks, ?_⟩
    have here : v.leftAlong e g [] = events := congrArg Prod.fst onward
    have there : ∀ i w rest, (v.next e g)[i]? = some w →
        v.leftAlong e g (i :: rest) = w.leftAlong e g rest := by
      intro i w rest hw
      rw [leftAlong, along_cons hw, leftAlong]
    rw [explore_events_of_goes_on entering onward each, List.flatMap_cons, here,
      flatMap_branches there, List.flatMap_congr left]

end Visit

/-! ## Messages -/

/-- An event adds to the verdict unless it only asks a method of the host. -/
def Event.isMessage (x : Event) : Bool := x.asked?.isNone

/-- The message of an Error node or a Warning node. -/
def Event.leftAt (n : NodeId) : Event → Bool
  | .warning m _ | .error m _ => m = n
  | .asked _ _ | .fault _ => false

theorem Verdict.ofEvents_filter (events : List Event) :
    Verdict.ofEvents (events.filter Event.isMessage) = Verdict.ofEvents events := by
  have warnings : ∀ x : Event, (if x.isMessage then x.warning? else none) = x.warning? := by
    intro x
    cases x <;> rfl
  have errors : ∀ x : Event, (if x.isMessage then x.error? else none) = x.error? := by
    intro x
    cases x <;> rfl
  simp only [Verdict.ofEvents, List.filterMap_filter, warnings, errors]

theorem Event.countP_leftAt_filter (n : NodeId) (events : List Event) :
    (events.filter Event.isMessage).countP (Event.leftAt n) = events.countP (Event.leftAt n) := by
  rw [List.countP_filter]
  refine List.countP_congr fun x _ => ?_
  cases x <;> simp [Event.leftAt, Event.isMessage, Event.asked?]

namespace Visit

/-- The message that a visit leaves, if it is at an Error node or at a Warning node. -/
def message? (e : Evaluation) (g : RuleGraph) (v : Visit) : Option Event :=
  (g.kind? v.node).bind (v.remark? e)

/-- The message that the visit at the end of a walk leaves. -/
def messageAlong (e : Evaluation) (g : RuleGraph) (v : Visit) (t : List Nat) : Option Event :=
  (v.along e g t).bind (message? e g)

/-- Whether a walk ends at a node. -/
def reaches (e : Evaluation) (g : RuleGraph) (v : Visit) (n : NodeId) (t : List Nat) : Bool :=
  (v.along e g t).any (·.node = n)

theorem filter_outcome : (v.outcome e g).1.filter Event.isMessage = (v.message? e g).toList := by
  unfold outcome message?
  cases g.kind? v.node with
  | none => rfl
  | some kind =>
    show (v.events e kind).filter Event.isMessage = (v.remark? e kind).toList
    unfold events
    rw [List.filter_append]
    cases v.asks? kind <;> cases kind <;> rfl

theorem filter_flatMap_leftAlong (tracks : List (List Nat)) :
    (tracks.flatMap (v.leftAlong e g)).filter Event.isMessage =
      tracks.filterMap (v.messageAlong e g) := by
  rw [List.filter_flatMap, List.filterMap_eq_flatMap_toList]
  refine List.flatMap_congr fun t _ => ?_
  unfold leftAlong messageAlong
  cases v.along e g t with
  | none => rfl
  | some w => exact filter_outcome

/-- A visit leaves a message of its own node, and none is missing at an Error node or at a Warning
node. -/
theorem leftAt_message?_iff {n : NodeId} {template : String}
    (known : g.kind? n = some (.error template) ∨ g.kind? n = some (.warning template)) :
    ((v.message? e g).map (Event.leftAt n)).getD false = true ↔ v.node = n := by
  unfold message?
  by_cases here : v.node = n
  · rcases known with known | known
    · simp [here, known, remark?, Event.leftAt]
    · simp [here, known, remark?, Event.leftAt]
  · cases g.kind? v.node with
    | none => simp [here]
    | some kind => cases kind <;> simp [here, remark?, Event.leftAt]

/-- At an Error node or at a Warning node as many messages are left as walks end there. -/
theorem countP_messages (tracks : List (List Nat)) {n : NodeId} {template : String}
    (known : g.kind? n = some (.error template) ∨ g.kind? n = some (.warning template)) :
    (tracks.filterMap (v.messageAlong e g)).countP (Event.leftAt n) =
      tracks.countP (v.reaches e g n) := by
  rw [List.countP_filterMap]
  refine List.countP_congr fun t _ => ?_
  unfold messageAlong reaches
  cases v.along e g t with
  | none => rfl
  | some w =>
    rw [Option.bind_some, leftAt_message?_iff known, Option.any_some, decide_eq_true_iff]

end Visit

/-! ## Judging a rule -/

namespace Arbiter

variable (a : Arbiter) (world : World) (rule : String) (scheme : Option Scheme) (p : Parties)

theorem not_aborted_of_acyclic (limit : 1 ≤ a.settings.maxNodeVisits)
    (acyclic : ∀ g start, a.entry rule = .ok (g, start) → g.AcyclicFrom start) :
    ∀ refusal, ¬ a.Aborted world rule scheme p refusal := by
  intro refusal aborted
  cases entry : a.entry rule with
  | error fault => exact not_aborted_of_error entry aborted
  | ok found =>
    obtain ⟨g, start⟩ := found
    obtain ⟨node, met⟩ := aborted_iff.1 aborted
    obtain ⟨path, v, refusal', walk, refused, -, -⟩ := exists_refused_of_fault entry met
    have acyclic : g.AcyclicFrom (Visit.first start p).node := acyclic g start entry
    rw [acyclic.fault?_eq_none limit walk] at refused
    cases refused

/-- Where the wires that can be reached from the Start node form no cycle, however the ways part and
meet again, no fault of the guard is reported; and if Error nodes do not end the evaluation, the
verdict has the message at the end of every walk of an Error or Warning node once, parallel wires
making walks of their own, and no other. -/
theorem acyclic_rule_reports_walks (a : Arbiter) (world : World) (rule : String)
    (scheme : Option Scheme) (p : Parties) (limit : 1 ≤ a.settings.maxNodeVisits)
    (acyclic : ∀ g start, a.entry rule = .ok (g, start) → g.AcyclicFrom start) :
    let e := a.evaluation world rule scheme
    let record := a.events world rule scheme p
    (∀ refusal, ¬ a.Aborted world rule scheme p refusal) ∧
    (a.settings.stopAtFirstError = false → ∀ g start, a.entry rule = .ok (g, start) →
      ∃ tracks, (Visit.first start p).Tracks e g tracks ∧
        Verdict.ofEvents record =
          Verdict.ofEvents (tracks.filterMap ((Visit.first start p).messageAlong e g)) ∧
        ∀ n template,
          (g.kind? n = some (.error template) ∨ g.kind? n = some (.warning template)) →
          record.countP (Event.leftAt n) =
            tracks.countP ((Visit.first start p).reaches e g n)) := by
  intro e record
  have passes := not_aborted_of_acyclic a world rule scheme p limit acyclic
  refine ⟨passes, fun goesOn g start entry => ?_⟩
  have none := fault_not_mem_of_not_aborted entry (passes .cycle) (passes .overLimit)
  rw [events_of_entry entry] at none
  obtain ⟨tracks, walks, left⟩ := Visit.exists_tracks [] _
    (explore_goes_on_of_no_fault goesOn none)
  have messages : record.filter Event.isMessage =
      tracks.filterMap ((Visit.first start p).messageAlong e g) := by
    show (a.events world rule scheme p).filter Event.isMessage = _
    rw [events_of_entry entry, left, Visit.filter_flatMap_leftAlong]
  refine ⟨tracks, walks, ?_, ?_⟩
  · rw [← messages, Verdict.ofEvents_filter]
  · intro n template known
    rw [← Visit.countP_messages tracks known, ← messages, Event.countP_leftAt_filter]

end Arbiter

/-- A graph whose Start node leads to a node by two parallel wires and to another by one, where both
ways meet again. -/
def RuleGraph.rejoining : RuleGraph where
  document :=
    { id := "rejoining"
      nodes := [.start, .warning "left", .warning "right", .error "met"]
      wires := [⟨0, .run, 1, none⟩, ⟨0, .run, 1, none⟩, ⟨0, .run, 2, none⟩, ⟨1, .next, 3, none⟩,
        ⟨2, .next, 3, none⟩] }
  wellFormed := (GraphDocument.violation?_eq_none_iff _).1 rfl

/-- With a limit of one entry the node where the ways meet is entered on each of the three walks that
end there, and leaves its message each time. -/
theorem Arbiter.acyclic_rule_reports_walks_rejoining :
    let ada := Actor.create .nil "Ada" .female
    let world := World.empty.addActor ada
    let settings : WalkSettings := { maxNodeVisits := 1 }
    let a : Arbiter := { rules := fun _ => some .rejoining, bridge := .empty, settings }
    let e := a.evaluation world "rejoining" none
    1 ≤ a.settings.maxNodeVisits ∧ RuleGraph.rejoining.AcyclicFrom 0 ∧
      (∀ refusal, ¬ a.Aborted world "rejoining" none ⟨ada, none⟩ refusal) ∧
      ∃ tracks, (Visit.first 0 ⟨ada, none⟩).Tracks e .rejoining tracks ∧
        tracks.countP ((Visit.first 0 ⟨ada, none⟩).reaches e .rejoining 3) = 3 := by
  intro ada world settings a e
  have limit : 1 ≤ a.settings.maxNodeVisits := by decide
  have forward : RuleGraph.rejoining.AcyclicFrom 0 := RuleGraph.acyclicFrom_of_forward (by decide) 0
  have entered : a.entry "rejoining" = .ok (.rejoining, 0) := rfl
  have acyclic : ∀ g start, a.entry "rejoining" = .ok (g, start) → g.AcyclicFrom start := by
    intro g start entry
    cases entered.symm.trans entry
    exact forward
  obtain ⟨passes, reports⟩ :=
    acyclic_rule_reports_walks a world "rejoining" none ⟨ada, none⟩ limit acyclic
  obtain ⟨tracks, walks, -, count⟩ := reports rfl .rejoining 0 entered
  refine ⟨limit, forward, passes, tracks, walks, ?_⟩
  rw [← count 3 "met" (.inl rfl)]
  decide +kernel

end Stratagem
