import Stratagem.Proofs.Walk.Inheritance
import Stratagem.Proofs.Walk.Termination

/-!
# Visits suit their nodes

A graph is checked once, wire by wire, for ports and channels; deciding at a node then takes the
port and the actors as they come. Here the two are shown to fit: whatever is taken from the stack
suits the node that it is at.

* `NodeKind.channel_of_readsActor`: a kind that judges a single actor is reached through the
  channels of one actor only.
* `Visit.decide_port_mem`: whatever port is followed is one of the kind; `Visit.decide_eq_stop_iff`:
  a branch ends early exactly for want of a target that its node asks for.
* `WalkPath.suits` carries this along a walk: no visit is without a subject, and a target is never
  lost.
* `Arbiter.visits_suit_nodes` is the result for the judging of a rule.
-/

namespace Stratagem

/-! ## Ports and channels of a kind -/

theorem Port.ofBool_mem (b : Bool) : ofBool b ∈ [Port.true, Port.false] := by
  cases b <;> decide

theorem Port.ofMatch_mem (b : Bool) : ofMatch b ∈ [Port.is, Port.isNot] := by
  cases b <;> decide

namespace NodeKind

variable {kind : NodeKind} {channel : Option Channel}

theorem inputs_of_readsActor (reads : kind.readsActor = Bool.true) :
    kind.inputs = [.conspirator, .target, .actor] := by
  cases kind with
  | gender | isAutonomous | getActor _ | getClan _ | getRole _ | getFamily _ => rfl
  | _ => cases reads

/-- A kind that judges a single actor is reached through the channels of one actor only. -/
theorem channel_of_readsActor (reads : kind.readsActor = Bool.true)
    (accepted : kind.accepts channel = Bool.true) :
    channel = some .conspirator ∨ channel = some .target ∨ channel = some .actor := by
  cases channel with
  | none =>
    cases kind with
    | error message | warning message => cases reads
    | _ => cases accepted
  | some channel =>
    rw [accepts, inputs_of_readsActor reads] at accepted
    cases channel with
    | dual => cases accepted
    | _ => simp

end NodeKind

namespace Visit

variable {e : Evaluation} {v : Visit} {kind : NodeKind} {port : Port} {parties : Parties}
variable {subject : Option Actor}

theorem judge_port {choose : Actor → Port} (h : v.judge choose = .follow port parties subject) :
    ∃ a, port = choose a := by
  unfold judge at h
  split at h
  · next a _ =>
    cases h
    exact ⟨a, rfl⟩
  · cases h

theorem judgePair_port {holds : Actor → Actor → Bool}
    (h : v.judgePair holds = .follow port parties subject) : ∃ b, port = Port.ofBool b := by
  unfold judgePair at h
  split at h
  · cases h
    exact ⟨_, rfl⟩
  · cases h

/-- Whatever port is followed is one of the ports of the kind. -/
theorem decide_port_mem (h : v.decide e kind = .follow port parties subject) :
    port ∈ kind.ports := by
  cases kind with
  | start | warning message =>
    cases h
    exact List.mem_singleton_self _
  | error message =>
    rw [decide] at h
    split at h
    · cases h
    · cases h
      exact List.mem_singleton_self _
  | gender =>
    obtain ⟨a, rfl⟩ := judge_port h
    cases a.gender <;> simp [NodeKind.ports]
  | getActor _ | getClan _ | getRole _ | getFamily _ =>
    obtain ⟨a, rfl⟩ := judge_port h
    exact Port.ofMatch_mem _
  | isAutonomous =>
    obtain ⟨a, rfl⟩ := judge_port h
    exact Port.ofBool_mem _
  | isParent | isSibling =>
    obtain ⟨b, rfl⟩ := judgePair_port h
    exact Port.ofBool_mem b
  | invoke method =>
    have answered : v.followAnswer e.world (e.ask v.parties method) =
      .follow port parties subject := h
    cases found : (e.ask v.parties method).bind e.world.resolve? with
    | none =>
      obtain ⟨_, known, given⟩ := followAnswer_of_unfound (v := v) method found
      rw [given] at answered
      cases answered
      exact known
    | some finding =>
      rw [followAnswer_of_found found] at answered
      cases answered
      exact List.mem_cons_self

/-! ## Branches that end early -/

theorem actor?_eq_none_iff (present : v.subject.isSome = true) :
    v.actor? = none ↔ v.channel = some .target ∧ v.parties.target = none := by
  have about : v.subject ≠ none := Option.isSome_iff_ne_none.1 present
  unfold actor?
  split
  · next through => simp [through]
  · next through => simp [through]
  · next through => simp [through, about]
  · next through => simp [through, about]
  · next through => simp [through, about]

theorem judge_eq_stop_iff {choose : Actor → Port} : v.judge choose = .stop ↔ v.actor? = none := by
  unfold judge
  split
  · next judged => simp [judged]
  · next absent => simp [absent]

theorem judgePair_eq_stop_iff {holds : Actor → Actor → Bool} :
    v.judgePair holds = .stop ↔ v.parties.target = none := by
  unfold judgePair
  split
  · next there => simp [there, follow]
  · next absent => simp [absent]

theorem followAnswer_ne_stop (world : World) (answer : Option Answer) :
    v.followAnswer world answer ≠ .stop := by
  cases found : answer.bind world.resolve? with
  | none =>
    obtain ⟨_, -, given⟩ := followAnswer_of_unfound (v := v) "" found
    rw [given]
    exact nofun
  | some finding =>
    rw [followAnswer_of_found found]
    exact nofun

/-- Whether a node of a kind reached through a channel has nobody to judge without a target. -/
def needsTarget (v : Visit) (kind : NodeKind) : Prop :=
  kind = .isParent ∨ kind = .isSibling ∨ kind.readsActor = true ∧ v.channel = some .target

/-- A branch ends early exactly where a target is needed and there is none. -/
theorem decide_eq_stop_iff (present : v.subject.isSome = true) :
    v.decide e kind = .stop ↔ v.parties.target = none ∧ v.needsTarget kind := by
  have judges : ∀ choose, v.judge choose = .stop ↔
      v.parties.target = none ∧ v.channel = some .target := by
    intro choose
    rw [judge_eq_stop_iff, actor?_eq_none_iff present, and_comm]
  unfold needsTarget
  cases kind with
  | start | warning message => simp [decide, follow, NodeKind.readsActor]
  | error message =>
    rw [decide]
    split <;> simp [follow, NodeKind.readsActor]
  | gender | isAutonomous => simp [decide, judges, NodeKind.readsActor]
  | getActor _ | getClan _ | getRole _ | getFamily _ =>
    simp [decide, judges, NodeKind.readsActor]
  | isParent | isSibling => simp [decide, judgePair_eq_stop_iff]
  | invoke method => simp [decide, followAnswer_ne_stop, NodeKind.readsActor]

end Visit

/-! ## What a walk keeps -/

/-- What the check of a graph makes sure of at every visit of a node. -/
structure Visit.Suits (e : Evaluation) (kind : NodeKind) (chain : List Situation) (v : Visit) :
    Prop where
  /-- A single actor is judged through a channel that names one. -/
  single : kind.readsActor = true →
    v.channel = some .conspirator ∨ v.channel = some .target ∨ v.channel = some .actor
  subject : v.subject.isSome = true
  /-- A target is never lost. -/
  target : ∀ s ∈ chain, s.target.isSome = true → v.parties.target.isSome = true
  port : ∀ port parties subject,
    v.decide e kind = .follow port parties subject → port ∈ kind.ports
  stop : v.decide e kind = .stop ↔ v.parties.target = none ∧ v.needsTarget kind

theorem Visit.Leads.target_isSome {e : Evaluation} {g : RuleGraph} {v w : Visit}
    (leads : v.Leads e g w) (there : v.parties.target.isSome = true) :
    w.parties.target.isSome = true := by
  obtain ⟨-, decided, -⟩ := leads
  obtain ⟨-, target, -⟩ := Visit.decide_handsOn decided
  rw [target, Option.isSome_or, there, Bool.or_true]

namespace WalkPath

variable {e : Evaluation} {g : RuleGraph} {first v : Visit} {start : NodeId} {p : Parties}
variable {path : List Visit}

theorem subject_isSome (walk : WalkPath e g (.first start p) path v) :
    v.subject.isSome = true := by
  rw [walk.eq_heir, Visit.heir, Option.isSome_or, Option.isSome_some, Bool.or_true]

/-- What a walk is about has a target if the evaluation began with one, or if any visit before it
had one. -/
theorem target_isSome (walk : WalkPath e g first path v) :
    (first.parties.target.isSome = true → v.parties.target.isSome = true) ∧
      ∀ u ∈ path, u.parties.target.isSome = true → v.parties.target.isSome = true := by
  induction walk with
  | start =>
    refine ⟨id, ?_⟩
    intro u hu
    exact absurd hu List.not_mem_nil
  | onward _ leads ih =>
    obtain ⟨initial, earlier⟩ := ih
    refine ⟨fun there => leads.target_isSome (initial there), ?_⟩
    intro u hu there
    rcases List.mem_cons.1 hu with rfl | hu
    · exact leads.target_isSome there
    · exact leads.target_isSome (earlier u hu there)

/-- A walk is at Start, without a channel, before its first step only. After that it is at nodes
that accept the channel. -/
theorem admitted (known : g.kind? start = some .start)
    (walk : WalkPath e g (.first start p) path v) :
    ∃ kind, g.kind? v.node = some kind ∧
      (kind = .start ∧ v.channel = none ↔ path = []) ∧
      (path ≠ [] → kind.accepts v.channel = true) := by
  cases walk with
  | start =>
    refine ⟨.start, known, ⟨fun _ => rfl, fun _ => ⟨rfl, rfl⟩⟩, ?_⟩
    exact fun further => absurd rfl further
  | onward _ leads =>
    obtain ⟨kind, known, accepted⟩ := leads.accepted
    refine ⟨kind, known, ⟨?_, nofun⟩, fun _ => accepted⟩
    rintro ⟨rfl, -⟩
    rw [NodeKind.not_accepts_start] at accepted
    cases accepted

theorem suits {kind : NodeKind} (walk : WalkPath e g (.first start p) path v)
    (admitted : kind = .start ∨ kind.accepts v.channel = true) :
    v.Suits e kind (path.map Visit.situation) := by
  have present := walk.subject_isSome
  refine ⟨?_, present, ?_, ?_, Visit.decide_eq_stop_iff present⟩
  · intro reads
    rcases admitted with rfl | accepted
    · cases reads
    · exact NodeKind.channel_of_readsActor reads accepted
  · intro s hs there
    obtain ⟨u, hu, rfl⟩ := List.mem_map.1 hs
    exact walk.target_isSome.2 u hu (by simpa [Visit.situation] using there)
  · intro port parties subject decided
    exact Visit.decide_port_mem decided

end WalkPath

/-! ## Judging a rule -/

namespace Arbiter

variable {a : Arbiter} {world : World} {rule : String} {scheme : Option Scheme} {p : Parties}
variable {g : RuleGraph} {start : NodeId} {chain : List Situation} {v : Visit}

/-- The first visit that is taken from the stack is that of Start. Those after it stand at the ends
of longer walks. -/
theorem exists_arrivals_eq_cons (entry : a.entry rule = .ok (g, start)) (world : World)
    (scheme : Option Scheme) (p : Parties) :
    ∃ later, a.arrivals world rule scheme p = ([], .first start p) :: later ∧
      ∀ chain v, (chain, v) ∈ later → ∃ path, path ≠ [] ∧ path.map Visit.situation = chain ∧
        WalkPath (a.evaluation world rule scheme) g (.first start p) path v := by
  obtain ⟨later, all, longer⟩ :=
    Visit.exists_arrivals_eq_cons (a.evaluation world rule scheme) g [] (.first start p)
  refine ⟨later.map Arrival.outline, ?_, ?_⟩
  · rw [arrivals_of_entry entry, all]
    rfl
  · intro chain v met
    obtain ⟨x, hx, outline⟩ := List.mem_map.1 met
    obtain ⟨rfl, rfl⟩ := Prod.mk.inj outline
    refine ⟨x.path, ?_, rfl, ?_⟩
    · exact (longer x hx).ne_nil (List.cons_ne_nil _ _)
    · apply WalkPath.of_mem_arrivals .start
      rw [all]
      exact List.mem_cons_of_mem _ hx

theorem exists_walkPath_of_arrivals_getElem? {i : Nat} (entry : a.entry rule = .ok (g, start))
    (met : (a.arrivals world rule scheme p)[i]? = some (chain, v)) :
    ∃ path, (path = [] ↔ i = 0) ∧ path.map Visit.situation = chain ∧
      WalkPath (a.evaluation world rule scheme) g (.first start p) path v := by
  obtain ⟨later, all, longer⟩ := exists_arrivals_eq_cons entry world scheme p
  rw [all] at met
  cases i with
  | zero =>
    obtain ⟨rfl, rfl⟩ := Prod.mk.inj (Option.some.inj met)
    exact ⟨[], ⟨fun _ => rfl, fun _ => rfl⟩, rfl, .start⟩
  | succ i =>
    obtain ⟨path, further, outline, walk⟩ := longer chain v (List.mem_of_getElem? met)
    exact ⟨path, ⟨fun empty => absurd empty further, nofun⟩, outline, walk⟩

/-- No walk comes back to Start, so it is met once. -/
theorem countP_start_eq_one (entry : a.entry rule = .ok (g, start)) (world : World)
    (scheme : Option Scheme) (p : Parties) :
    (a.arrivals world rule scheme p).countP (fun x => x.2.node = start) = 1 := by
  obtain ⟨later, all, longer⟩ := exists_arrivals_eq_cons entry world scheme p
  have known : g.kind? start = some .start :=
    RuleGraph.kind?_of_start? (entry_eq_ok_iff.1 entry).2
  have none : later.countP (fun x => x.2.node = start) = 0 := by
    rw [List.countP_eq_zero]
    rintro ⟨chain, v⟩ hv here
    obtain ⟨path, further, -, walk⟩ := longer chain v hv
    obtain ⟨kind, known', -, accepted⟩ := walk.admitted known
    rw [of_decide_eq_true here, known] at known'
    obtain rfl := Option.some.inj known'
    have accepted := accepted further
    rw [NodeKind.not_accepts_start] at accepted
    cases accepted
  rw [all, List.countP_cons, none]
  simp [Visit.first]

/-- Every visit that is taken from the stack suits its node. The node is one of the graph; it is Start
without a channel for the first visit and for no other, so Start is met once, where only a limit of
zero refuses it; and every later visit comes through a channel that its node accepts. With that a
branch ends early only where a node needs a target that nobody has given, and never in an evaluation
that began with one. -/
theorem visits_suit_nodes (a : Arbiter) (world : World) (rule : String) (scheme : Option Scheme)
    (p : Parties) (g : RuleGraph) (start : NodeId) (entry : a.entry rule = .ok (g, start)) :
    let e := a.evaluation world rule scheme
    let met := a.arrivals world rule scheme p
    met.head? = some ([], .first start p) ∧
    met.countP (fun x => x.2.node = start) = 1 ∧
    ((Visit.first start p).fault? e [] = none ↔ 0 < a.settings.maxNodeVisits.toNat) ∧
    ∀ i chain v, met[i]? = some (chain, v) →
      ∃ kind, g.kind? v.node = some kind ∧
        (kind = .start ∧ v.channel = none ↔ i = 0) ∧
        (i ≠ 0 → kind.accepts v.channel = true) ∧
        v.Suits e kind chain ∧
        (p.target.isSome = true → v.decide e kind ≠ .stop) := by
  intro e met
  refine ⟨?_, countP_start_eq_one entry world scheme p, ?_, ?_⟩
  · obtain ⟨later, all, -⟩ := exists_arrivals_eq_cons entry world scheme p
    exact congrArg List.head? all
  · rw [Visit.fault?_eq_none_iff]
    simp [e, evaluation]
  · intro i chain v hi
    have known : g.kind? start = some .start :=
      RuleGraph.kind?_of_start? (entry_eq_ok_iff.1 entry).2
    obtain ⟨path, first, rfl, walk⟩ := exists_walkPath_of_arrivals_getElem? entry hi
    obtain ⟨kind, there, entered, accepted⟩ := walk.admitted known
    rw [first] at entered
    have accepted : i ≠ 0 → kind.accepts v.channel = true :=
      fun further => accepted (mt first.1 further)
    have suits : v.Suits e kind (path.map Visit.situation) := by
      apply walk.suits
      by_cases h : i = 0
      · exact .inl (entered.2 h).1
      · exact .inr (accepted h)
    refine ⟨kind, there, entered, accepted, suits, ?_⟩
    intro given stopped
    have target := walk.target_isSome.1 given
    rw [(suits.stop.1 stopped).1] at target
    cases target

end Arbiter

/-- In a graph with an Invoke node and two wires to a condition Start is met once, and if the parties
have a target no branch ends early, although the host replaces it. -/
theorem Arbiter.visits_suit_nodes_retargeting :
    let ada := Actor.create .nil "Ada" .female
    let bob := Actor.create ⟨⟨1⟩⟩ "Bob" .male
    let eve := Actor.create ⟨⟨2⟩⟩ "Eve" .female
    let world := World.empty.addActor eve
    let p : Parties := ⟨ada, some bob⟩
    let a : Arbiter :=
      { rules := fun _ => some .retargeting, bridge := ⟨[.naming "find" eve.id]⟩ }
    let e := a.evaluation world "retargeting" none
    let met := a.arrivals world "retargeting" none p
    a.entry "retargeting" = .ok (.retargeting, 0) ∧
      met.countP (fun x => x.2.node = 0) = 1 ∧
      ∀ (i : Nat) (chain : List Situation) (v : Visit), met[i]? = some (chain, v) →
        ∃ kind, RuleGraph.retargeting.kind? v.node = some kind ∧ v.decide e kind ≠ .stop := by
  intro ada bob eve world p a e met
  have entry : a.entry "retargeting" = .ok (.retargeting, 0) := rfl
  obtain ⟨-, once, -, each⟩ :=
    visits_suit_nodes a world "retargeting" none p .retargeting 0 entry
  refine ⟨entry, once, ?_⟩
  intro i chain v hi
  obtain ⟨kind, there, -, -, -, goesOn⟩ := each i chain v hi
  exact ⟨kind, there, goesOn rfl⟩

/-- A graph of nothing but Start. -/
def RuleGraph.alone : RuleGraph where
  document := { id := "alone", nodes := [.start], wires := [] }
  wellFormed := (GraphDocument.violation?_eq_none_iff _).1 rfl

/-- With a limit of zero Start is taken from the stack once, and no run ever records it: it is
refused, and the judging ends with the fault. -/
theorem Arbiter.start_met_never_entered :
    let ada := Actor.create .nil "Ada" .female
    let p : Parties := ⟨ada, none⟩
    let settings : WalkSettings := { maxNodeVisits := 0 }
    let a : Arbiter := { rules := fun _ => some .alone, bridge := ⟨[]⟩, settings }
    let e := a.evaluation .empty "alone" none
    a.entry "alone" = .ok (.alone, 0) ∧
      a.arrivals .empty "alone" none p = [([], .first 0 p)] ∧
      a.events .empty "alone" none p = [.fault (.visitLimit "alone" 0 0)] ∧
      ∀ n w, Walk.Advances e .alone n (.start 0 p) w →
        w.trail.steps.countP (·.situation.node = 0) = 0 := by
  intro ada p settings a e
  have entry : a.entry "alone" = .ok (.alone, 0) := rfl
  have refused : (Visit.first 0 p).fault? e [] = some .overLimit := rfl
  refine ⟨entry, ?_, ?_, ?_⟩
  · rw [arrivals_of_entry entry, Visit.explore_of_fault refused]
    rfl
  · rw [events_of_entry entry, Visit.explore_of_fault refused]
    rfl
  · intro n w run
    rw [run.eq_of_limit_zero rfl]
    rfl

end Stratagem
