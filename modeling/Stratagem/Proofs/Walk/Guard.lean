import Mathlib.Order.WellFounded
import Stratagem.Proofs.Walk.Bindings
import Stratagem.Proofs.Walk.Passing

/-!
# The visit guard is exact

The guard cuts an evaluation short where a walk would never end, and changes nothing else.

* `FreeWalk` is a walk without the guard: the same visits and the same links, on the same stack.
* `exists_refused`: a fault of the guard is reported for a walk that the graph has.
* `infinitePath_of_repeat`: a walk that comes back to the same visit can go on for ever.
* `explore_ended_of_infinite`: where a walk never ends, the exploration is ended for it.
* `explore_free`: an exploration without a fault is what the walk without the guard does.
* `Arbiter.guard_exact` is the result for the judging of a rule.
-/

namespace Stratagem

/-- A walk without the guard, from the visits that wait to the end, with what it records. -/
inductive FreeWalk (e : Evaluation) (g : RuleGraph) : List Visit → List Event → Prop
  | done : FreeWalk e g [] []
  /-- A visit that ends the evaluation, whatever else waits. -/
  | halt {v : Visit} {rest : List Visit} {events : List Event} :
      v.outcome e g = (events, none) → FreeWalk e g (v :: rest) events
  /-- A visit after which those that follow from it come first. -/
  | visit {v : Visit} {rest next : List Visit} {events later : List Event} :
      v.outcome e g = (events, some next) → FreeWalk e g (next ++ rest) later →
      FreeWalk e g (v :: rest) (events ++ later)

variable {e : Evaluation} {g : RuleGraph} {first u v w : Visit} {path : List Visit}
variable {events : List Event} {next : List Visit}

theorem FreeWalk.unique {waiting : List Visit} {a b : List Event} (ha : FreeWalk e g waiting a)
    (hb : FreeWalk e g waiting b) : a = b := by
  induction ha generalizing b with
  | done =>
    cases hb
    rfl
  | halt outcome =>
    cases hb with
    | halt outcome' =>
      rw [outcome] at outcome'
      cases outcome'
      rfl
    | visit outcome' _ =>
      rw [outcome] at outcome'
      cases outcome'
  | visit outcome _ ih =>
    cases hb with
    | halt outcome' =>
      rw [outcome] at outcome'
      cases outcome'
    | visit outcome' walk =>
      rw [outcome] at outcome'
      cases outcome'
      rw [ih walk]

/-! ## A fault names a walk -/

/-- A fault of an exploration is one of the guard, at the end of a walk that the graph has. -/
theorem exists_refused {fault : RuleFault}
    (h : Event.fault fault ∈ (first.explore e g []).events) :
    ∃ path v refusal, WalkPath e g first path v ∧ v.fault? e path = some refusal ∧
      fault = refusal.toRuleFault e v.node := by
  obtain ⟨x, met, refusal, refused, named⟩ := Visit.exists_refused_arrival [] first fault h
  exact ⟨x.path, x.visit, refusal, .of_mem_arrivals .start met, refused, named⟩

/-! ## Walks that never end -/

/-- The visit `w` comes directly after `v`. -/
def Visit.Follows (e : Evaluation) (g : RuleGraph) (w v : Visit) : Prop := v.Leads e g w

/-- Along a walk, every visit of the path leads on to the last. -/
theorem WalkPath.transGen (walk : WalkPath e g first path v) :
    ∀ u ∈ path, Relation.TransGen (Visit.Follows e g) v u := by
  induction walk with
  | start => exact fun u hu => absurd hu List.not_mem_nil
  | onward _ leads ih =>
    intro u hu
    rcases List.mem_cons.1 hu with rfl | hu
    · exact .single leads
    · exact .head leads (ih u hu)

theorem WalkPath.eq_or_transGen (walk : WalkPath e g first path v) :
    v = first ∨ Relation.TransGen (Visit.Follows e g) v first := by
  induction walk with
  | start => exact .inl rfl
  | onward _ leads ih =>
    rcases ih with rfl | ih
    · exact .inr (.single leads)
    · exact .inr (.head leads ih)

/-- A walk that comes back to a visit of its own path can go on for ever. -/
theorem infinitePath_of_repeat (walk : WalkPath e g first path v) (hv : v ∈ path) :
    InfinitePath e g first := by
  have loop := walk.transGen v hv
  have irreflexive : ∀ x, Acc (Relation.TransGen (Visit.Follows e g)) x →
      ¬ Relation.TransGen (Visit.Follows e g) x x := by
    intro x accessible
    induction accessible with
    | intro x _ ih => exact fun h => ih x h h
  have never : ¬ Acc (Visit.Follows e g) first := by
    intro acc
    -- if every walk from the first visit ends, so does every walk from where it comes back to
    have here : Acc (Visit.Follows e g) v := by
      rcases walk.eq_or_transGen with rfl | reached
      · exact acc
      · exact acc.inv_of_transGen reached
    exact irreflexive v here.transGen loop
  exact not_acc_iff_exists_descending_chain.1 never

/-- Where a walk never ends, the exploration is ended. -/
theorem explore_ended_of_infinite (path : List Visit) (v : Visit) (h : InfinitePath e g v) :
    (v.explore e g path).ended = true := by
  induction path, v using Visit.explore_induction (e := e) (g := g) with
  | visit path v ih =>
    rcases Visit.explore_cases e g path v with
      ⟨fault, refused⟩ | ⟨events, entering, outcome⟩ | ⟨events, next, entering, outcome⟩
    · rw [Visit.explore_of_fault refused]
    · rw [Visit.explore_of_halt entering outcome]
    · -- the walk goes on past this visit, so one of the visits that follow starts such a walk
      obtain ⟨f, rfl, chain⟩ := h
      have leads := chain 0
      have rest : InfinitePath e g (f 1) := ⟨fun n => f (n + 1), rfl, fun n => chain (n + 1)⟩
      have ended := ih (f 1) entering leads rest
      rw [Visit.explore_of_onward entering outcome, Report.ended_andThen, Bool.or_eq_true]
      exact .inr (Visit.exploreAll_ended_iff.2
        ⟨f 1, (Visit.mem_iff_leads outcome).2 leads, ended⟩)

/-- Unless Error nodes end the evaluation, only the guard does. -/
theorem exists_fault_of_ended (goesOn : e.settings.stopAtFirstError = false) (path : List Visit)
    (v : Visit) (h : (v.explore e g path).ended = true) :
    ∃ fault, Event.fault fault ∈ (v.explore e g path).events := by
  revert h
  refine Visit.explore_closed
    (P := fun _ r => r.ended = true → ∃ fault, Event.fault fault ∈ r.events) ?_ ?_ ?_ ?_ ?_ path v
  · intro path ended
    cases ended
  · intro path a b ha hb ended
    cases h : a.ended with
    | true =>
      rw [Report.andThen_of_ended h]
      exact ha h
    | false =>
      rw [Report.andThen_of_goes_on h] at ended ⊢
      obtain ⟨fault, met⟩ := hb ended
      exact ⟨fault, List.mem_append_right _ met⟩
  · intro path v fault _ _
    exact ⟨_, List.mem_cons_self⟩
  · intro path v events _ outcome _
    have stops := (Visit.error_of_halt outcome).2
    rw [goesOn] at stops
    cases stops
  · intro path v events next _ _ below ended
    rw [Report.andThen_of_goes_on rfl] at ended ⊢
    obtain ⟨fault, met⟩ := below ended
    exact ⟨fault, List.mem_append_right _ met⟩

theorem explore_goes_on_of_no_fault (goesOn : e.settings.stopAtFirstError = false)
    (none : ∀ fault, Event.fault fault ∉ (v.explore e g path).events) :
    (v.explore e g path).ended = false := by
  rw [← Bool.not_eq_true]
  intro ended
  obtain ⟨fault, met⟩ := exists_fault_of_ended goesOn path v ended
  exact none fault met

/-! ## Without a fault the guard changes nothing -/

/-- A report is what the walk without the guard does with the visits that wait first, whatever
waits after them. -/
structure Report.Free (e : Evaluation) (g : RuleGraph) (waiting : List Visit) (r : Report) :
    Prop where
  ended : r.ended = true → ∀ rest, FreeWalk e g (waiting ++ rest) r.events
  goesOn : r.ended = false → ∀ rest later, FreeWalk e g rest later →
    FreeWalk e g (waiting ++ rest) (r.events ++ later)

namespace Report

variable {waiting more : List Visit} {a b : Report}

theorem free_nothing : Free e g [] nothing where
  ended := nofun
  goesOn := fun _ _ _ walk => walk

/-- What comes after a part that ends the evaluation does not matter. -/
theorem Free.andThen (ha : Free e g waiting a) (hb : a.ended = false → Free e g more b) :
    Free e g (waiting ++ more) (a.andThen b) := by
  cases h : a.ended with
  | true =>
    rw [andThen_of_ended h]
    constructor
    · intro _ rest
      rw [List.append_assoc]
      exact ha.ended h _
    · intro goesOn
      rw [h] at goesOn
      cases goesOn
  | false =>
    rw [andThen_of_goes_on h]
    constructor
    · intro ended rest
      rw [List.append_assoc]
      exact ha.goesOn h _ _ ((hb h).ended ended rest)
    · intro goesOn rest later walk
      rw [List.append_assoc]
      show FreeWalk e g _ (a.events ++ b.events ++ later)
      rw [List.append_assoc]
      exact ha.goesOn h _ _ ((hb h).goesOn goesOn rest later walk)

end Report

/-- Several explorations without a fault are what the walk without the guard does, if each of them
is. -/
theorem exploreAll_free
    (each : ∀ w ∈ next, (∀ fault, Event.fault fault ∉ (w.explore e g path).events) →
      (w.explore e g path).Free e g [w])
    (none : ∀ fault, Event.fault fault ∉ (Visit.exploreAll e g path next).events) :
    (Visit.exploreAll e g path next).Free e g next := by
  induction next with
  | nil =>
    rw [Visit.exploreAll_nil]
    exact Report.free_nothing
  | cons w next ih =>
    rw [Visit.exploreAll_cons] at none ⊢
    refine .andThen (each w List.mem_cons_self ?_) fun goesOn => ?_
    · exact fun fault met => none fault (Report.events_subset_andThen met)
    · refine ih (fun u hu => each u (List.mem_cons_of_mem _ hu)) fun fault met => none fault ?_
      rw [Report.andThen_of_goes_on goesOn]
      exact List.mem_append_right _ met

/-- An exploration without a fault is what the walk without the guard does. -/
theorem explore_free (path : List Visit) (v : Visit)
    (none : ∀ fault, Event.fault fault ∉ (v.explore e g path).events) :
    (v.explore e g path).Free e g [v] := by
  induction path, v using Visit.explore_induction (e := e) (g := g) with
  | visit path v ih =>
    rcases Visit.explore_cases e g path v with
      ⟨fault, refused⟩ | ⟨events, entering, outcome⟩ | ⟨events, next, entering, outcome⟩
    · rw [Visit.explore_of_fault refused] at none
      exact absurd List.mem_cons_self (none _)
    · rw [Visit.explore_of_halt entering outcome]
      exact ⟨fun _ _ => .halt outcome, nofun⟩
    · rw [Visit.explore_of_onward entering outcome, Report.andThen_of_goes_on rfl] at none ⊢
      have below : (Visit.exploreAll e g (v :: path) next).Free e g next := by
        refine exploreAll_free (fun w hw => ?_) fun fault met => ?_
        · exact ih w entering ((Visit.mem_iff_leads outcome).1 hw)
        · exact none fault (List.mem_append_right _ met)
      constructor
      · exact fun ended rest => .visit outcome (below.ended ended rest)
      · intro goesOn rest later walk
        show FreeWalk e g _ (events ++ _ ++ later)
        rw [List.append_assoc]
        exact .visit outcome (below.goesOn goesOn rest later walk)

/-! ## Judging a rule -/

namespace Arbiter

variable (a : Arbiter) (world : World) (rule : String) (scheme : Option Scheme) (p : Parties)

/-- The judging of a rule is given up for a fault of the guard. -/
def Aborted (fault : GuardFault) : Prop :=
  ∃ before node, a.events world rule scheme p =
    before ++ [.fault (fault.toRuleFault (a.evaluation world rule scheme) node)]

/-- Without the guard, some walk of a rule from its Start node never ends. -/
def Endless : Prop :=
  ∃ g start, a.entry rule = .ok (g, start) ∧
    InfinitePath (a.evaluation world rule scheme) g (.first start p)

/-- What the judging of a rule records without the guard. -/
def Unguarded (record : List Event) : Prop :=
  match a.entry rule with
  | .error fault => record = [.fault fault]
  | .ok (g, start) => FreeWalk (a.evaluation world rule scheme) g [.first start p] record

variable {a world rule scheme p} {g : RuleGraph} {start : NodeId}

/-- A rule that cannot be entered is judged without a look at the guard. -/
theorem not_aborted_of_error {fault : RuleFault} {refusal : GuardFault}
    (entry : a.entry rule = .error fault) : ¬ a.Aborted world rule scheme p refusal := by
  rintro ⟨before, node, last⟩
  rw [events_eq_entry, entry] at last
  have met : Event.fault (refusal.toRuleFault (a.evaluation world rule scheme) node) ∈
      [Event.fault fault] := by
    show _ ∈ [Event.fault fault]
    rw [show [Event.fault fault] = _ from last]
    exact List.mem_append_right _ List.mem_cons_self
  obtain rfl := Event.fault.inj (List.mem_singleton.1 met)
  unfold Arbiter.entry at entry
  split at entry
  · cases refusal <;> cases entry
  · split at entry
    · cases refusal <;> cases entry
    · cases entry

/-- A fault in the record of a rule that can be entered is one of the guard. -/
theorem exists_refused_of_fault {fault : RuleFault} (entry : a.entry rule = .ok (g, start))
    (h : Event.fault fault ∈ a.events world rule scheme p) :
    ∃ path v refusal, WalkPath (a.evaluation world rule scheme) g (.first start p) path v ∧
      v.fault? (a.evaluation world rule scheme) path = some refusal ∧
      fault = refusal.toRuleFault (a.evaluation world rule scheme) v.node ∧
      a.Aborted world rule scheme p refusal := by
  rw [events_eq_exploration] at h
  obtain ⟨-, before, last, -⟩ := a.exploration_faultLast world rule scheme p fault h
  rw [exploration, entry] at h
  obtain ⟨path, v, refusal, walk, refused, rfl⟩ := exists_refused h
  refine ⟨path, v, refusal, walk, refused, rfl, before, v.node, ?_⟩
  rw [events_eq_exploration, last]

theorem fault_not_mem_of_not_aborted (entry : a.entry rule = .ok (g, start))
    (noCycle : ¬ a.Aborted world rule scheme p .cycle)
    (noLimit : ¬ a.Aborted world rule scheme p .overLimit) :
    ∀ fault, Event.fault fault ∉ a.events world rule scheme p := by
  intro fault met
  obtain ⟨-, -, refusal, -, -, -, aborted⟩ := exists_refused_of_fault entry met
  cases refusal with
  | cycle => exact noCycle aborted
  | overLimit => exact noLimit aborted

/-- A fault of the guard is recorded only where the judging is given up for it. -/
theorem aborted_iff {refusal : GuardFault} :
    a.Aborted world rule scheme p refusal ↔
      ∃ node, Event.fault (refusal.toRuleFault (a.evaluation world rule scheme) node) ∈
        a.events world rule scheme p := by
  constructor
  · rintro ⟨before, node, last⟩
    exact ⟨node, last ▸ List.mem_append_right _ List.mem_cons_self⟩
  · rintro ⟨node, met⟩
    rw [events_eq_exploration] at met
    obtain ⟨-, before, last, -⟩ := a.exploration_faultLast world rule scheme p _ met
    refine ⟨before, node, ?_⟩
    rw [events_eq_exploration, last]

/-- For coherent parties a cycle is reported only where some walk never ends. -/
theorem endless_of_cycle (coherent : Coherent world p)
    (cycle : a.Aborted world rule scheme p .cycle) : a.Endless world rule scheme p := by
  cases entry : a.entry rule with
  | error fault => exact absurd cycle (not_aborted_of_error entry)
  | ok found =>
    obtain ⟨g, start⟩ := found
    obtain ⟨before, node, last⟩ := cycle
    have reported : Event.fault (.cycle rule node) ∈ a.events world rule scheme p :=
      last ▸ List.mem_append_right _ List.mem_cons_self
    obtain ⟨path, v, refusal, walk, refused, same, -⟩ := exists_refused_of_fault entry reported
    refine ⟨g, start, entry, ?_⟩
    -- the limit makes a fault of its own, so it was a repeated situation
    cases refusal with
    | overLimit => cases same
    | cycle =>
      obtain ⟨u, hu, alike⟩ := Visit.fault?_eq_cycle_iff.1 refused
      -- all that a walk binds is on the roster, so the situation of a visit is all there is to it
      have binds := walk.binds_roster
      have one : u = v := coherent.visit_eq (binds u (List.mem_cons_of_mem _ hu))
        (binds v List.mem_cons_self) alike
      exact infinitePath_of_repeat walk (one ▸ hu)

/-- Unless Error nodes end the evaluation, a walk that never ends is cut short by the guard. -/
theorem aborted_of_endless (goesOn : a.settings.stopAtFirstError = false)
    (endless : a.Endless world rule scheme p) :
    a.Aborted world rule scheme p .cycle ∨ a.Aborted world rule scheme p .overLimit := by
  obtain ⟨g, start, entry, infinite⟩ := endless
  have ended := explore_ended_of_infinite [] (.first start p) infinite
  obtain ⟨fault, met⟩ := exists_fault_of_ended goesOn [] _ ended
  have reported : Event.fault fault ∈ a.events world rule scheme p := by
    rw [events_eq_exploration, exploration, entry]
    exact met
  obtain ⟨-, -, refusal, -, -, -, aborted⟩ := exists_refused_of_fault entry reported
  cases refusal with
  | cycle => exact .inl aborted
  | overLimit => exact .inr aborted

/-- Where the guard reports nothing, judging records what it would record without the guard. -/
theorem unguarded_iff (noCycle : ¬ a.Aborted world rule scheme p .cycle)
    (noLimit : ¬ a.Aborted world rule scheme p .overLimit) (record : List Event) :
    a.Unguarded world rule scheme p record ↔ record = a.events world rule scheme p := by
  unfold Unguarded
  cases entry : a.entry rule with
  | error fault => rw [events_eq_entry, entry]
  | ok found =>
    obtain ⟨g, start⟩ := found
    have none := fault_not_mem_of_not_aborted entry noCycle noLimit
    rw [events_eq_exploration, exploration, entry] at none ⊢
    have free := explore_free [] (.first start p) none
    have walk : FreeWalk (a.evaluation world rule scheme) g [.first start p]
        ((Visit.first start p).explore (a.evaluation world rule scheme) g []).events := by
      cases h : ((Visit.first start p).explore (a.evaluation world rule scheme) g []).ended with
      | true => exact free.ended h []
      | false =>
        have := free.goesOn h [] [] .done
        rwa [List.append_nil, List.append_nil] at this
    constructor
    · exact fun other => other.unique walk
    · rintro rfl
      exact walk

/-- The guard is exact. Parties that are taken from a world to which its actors were added are
coherent; and for coherent parties a cycle is reported only where a walk without the guard never
ends, such a walk is cut short unless Error nodes end the evaluation, and where the guard reports
nothing the record is that of the walk without it. -/
theorem guard_exact (a : Arbiter) (world : World) (rule : String) (scheme : Option Scheme)
    (p : Parties) :
    (∀ (base : World) (actors : List Actor), base.actors = .empty →
      world = actors.foldl World.addActor base → p.conspirator ∈ world.actors.values →
      (∀ t, p.target = some t → t ∈ world.actors.values) → Coherent world p) ∧
    (Coherent world p →
      (a.Aborted world rule scheme p .cycle → a.Endless world rule scheme p) ∧
      (a.settings.stopAtFirstError = false → a.Endless world rule scheme p →
        a.Aborted world rule scheme p .cycle ∨ a.Aborted world rule scheme p .overLimit) ∧
      (¬ a.Aborted world rule scheme p .cycle → ¬ a.Aborted world rule scheme p .overLimit →
        ∀ record, a.Unguarded world rule scheme p record ↔
          record = a.events world rule scheme p)) := by
  constructor
  · intro base actors none added conspirator target
    have own : World.OwnKeys world := added ▸ World.ownKeys_foldl (World.ownKeys_of_empty none)
    exact own.coherent conspirator target
  · intro coherent
    exact ⟨endless_of_cycle coherent, aborted_of_endless, unguarded_iff⟩

end Arbiter

/-- A graph whose Warning node leads back to itself. -/
def RuleGraph.turning : RuleGraph where
  document :=
    { id := "turning"
      nodes := [.start, .warning "again"]
      wires := [⟨0, .run, 1, none⟩, ⟨1, .next, 1, none⟩] }
  wellFormed := (GraphDocument.violation?_eq_none_iff _).1 rfl

/-- A graph whose Warning node leads back to itself is abandoned for a cycle, and without the guard
it is walked for ever. -/
theorem Arbiter.guard_exact_turning :
    let ada := Actor.create .nil "Ada" .female
    let world := World.empty.addActor ada
    let a : Arbiter := { rules := fun _ => some .turning, bridge := .empty }
    Coherent world ⟨ada, none⟩ ∧ a.Aborted world "turning" none ⟨ada, none⟩ .cycle ∧
      a.Endless world "turning" none ⟨ada, none⟩ := by
  intro ada world a
  obtain ⟨built, exact⟩ := guard_exact a world "turning" none ⟨ada, none⟩
  have coherent : Coherent world ⟨ada, none⟩ :=
    built .empty [ada] rfl rfl List.mem_cons_self nofun
  have entry : a.entry "turning" = .ok (.turning, 0) := rfl
  let again : Visit := ⟨1, none, ⟨ada, none⟩, some ada⟩
  have walk : ForemostPath (a.evaluation world "turning" none) .turning (.first 0 ⟨ada, none⟩)
      [again, .first 0 ⟨ada, none⟩] again := .onward (.onward .start rfl rfl) rfl rfl
  have refused : again.fault? (a.evaluation world "turning" none)
      [again, .first 0 ⟨ada, none⟩] = some .cycle := rfl
  have reported :
      Event.fault (.cycle "turning" 1) ∈ a.events world "turning" none ⟨ada, none⟩ := by
    rw [events_eq_exploration, exploration, entry]
    exact walk.fault_mem_events refused
  obtain ⟨_, _, refusal, _, _, same, aborted⟩ := exists_refused_of_fault entry reported
  cases refusal with
  | overLimit => cases same
  | cycle => exact ⟨coherent, aborted, (exact coherent).1 aborted⟩

end Stratagem
