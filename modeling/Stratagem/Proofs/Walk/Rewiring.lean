import Mathlib.Data.List.Perm.Basic
import Stratagem.Proofs.Walk.Guard

/-!
# The order of wires

Two graphs with the same nodes whose ports have the same links, but not in the same order, are
walked in different orders. What a rule comes to does not depend on it.

* `RuleGraph.Rewires`: the graphs differ in the order of the links of their ports only.
* `RuleGraph.Rewires.untripped`: the walks of one are those of the other, so both pass or both fail.
* `RuleGraph.Rewires.explore`: an exploration that goes on to its end goes on to it in the other
  order too, and leaves the same events in some order.
* `Arbiter.rewiring_keeps_verdict` is the result for the judging of a rule.
-/

namespace Stratagem

/-- Two graphs with the same nodes, where each port has the same links in some order. -/
structure RuleGraph.Rewires (g h : RuleGraph) : Prop where
  nodes : h.nodes = g.nodes
  outputs : ∀ n port, (h.outputs n port).Perm (g.outputs n port)

/-- The same arbiter with other rules. -/
def Arbiter.withRules (a : Arbiter) (rules : String → Option RuleGraph) : Arbiter :=
  { a with rules := rules }

namespace RuleGraph.Rewires

variable {g h : RuleGraph} {e : Evaluation} {first v w : Visit} {path : List Visit}

theorem of_perm (nodes : h.nodes = g.nodes) (wires : h.document.wires.Perm g.document.wires) :
    g.Rewires h where
  nodes := nodes
  outputs := fun _ _ => (wires.filter _).map _

theorem symm (rewires : g.Rewires h) : h.Rewires g where
  nodes := rewires.nodes.symm
  outputs := fun n port => (rewires.outputs n port).symm

theorem kind? (rewires : g.Rewires h) (n : NodeId) : h.kind? n = g.kind? n := by
  unfold RuleGraph.kind?
  rw [rewires.nodes]

theorem start? (rewires : g.Rewires h) : h.start? = g.start? := by
  unfold RuleGraph.start?
  rw [rewires.nodes]

/-! ## The same walks -/

theorem leads (rewires : g.Rewires h) (leads : v.Leads e g w) : v.Leads e h w := by
  obtain ⟨known, decided, linked⟩ := leads
  exact .link (rewires.kind? v.node ▸ known) decided ((rewires.outputs _ _).mem_iff.2 linked)

theorem walkPath (rewires : g.Rewires h) (walk : WalkPath e g first path v) :
    WalkPath e h first path v := by
  induction walk with
  | start => exact .start
  | onward _ leads ih => exact .onward ih (rewires.leads leads)

theorem trips (rewires : g.Rewires h) (trips : Trips e g path v) : Trips e h path v := by
  cases trips with
  | error at_error => exact .error (rewires.kind? v.node ▸ at_error)
  | repeats met same => exact .repeats met same
  | exceeds many => exact .exceeds many

/-- A rule that can be walked without tripping can be walked so on the rewired graph. -/
theorem untripped (rewires : g.Rewires h) {a b : Arbiter} {world : World} {rule : String}
    {scheme : Option Scheme} {p : Parties} (known : a.rules rule = some g)
    (known' : b.rules rule = some h)
    (same : b.evaluation world rule scheme = a.evaluation world rule scheme)
    (passes : a.Untripped world rule scheme p) : b.Untripped world rule scheme p := by
  obtain ⟨g', start, knownG, found, free⟩ := passes
  obtain rfl := Option.some.inj (known.symm.trans knownG)
  refine ⟨h, start, known', rewires.start?.trans found, ?_⟩
  intro path v walk trip
  rw [same] at walk trip
  exact free path v (rewires.symm.walkPath walk) (rewires.symm.trips trip)

/-! ## The same events -/

theorem outcome (rewires : g.Rewires h) {events : List Event} {next : List Visit}
    (outcome : v.outcome e g = (events, some next)) :
    ∃ next', v.outcome e h = (events, some next') ∧ next'.Perm next := by
  unfold Visit.outcome at outcome ⊢
  rw [rewires.kind?]
  cases known : g.kind? v.node with
  | none =>
    rw [known] at outcome
    exact ⟨next, outcome, .refl _⟩
  | some kind =>
    rw [known] at outcome
    obtain ⟨rfl, onward⟩ := Prod.mk.inj outcome
    show ∃ next', (v.events e kind, v.onward h (v.decide e kind)) = (_, some next') ∧ _
    cases decided : v.decide e kind with
    | halt =>
      rw [decided] at onward
      cases onward
    | stop =>
      rw [decided] at onward
      obtain rfl := Option.some.inj onward
      exact ⟨[], rfl, .refl _⟩
    | follow port parties subject =>
      rw [decided] at onward
      obtain rfl := Option.some.inj onward
      exact ⟨_, rfl, (rewires.outputs v.node port).map _⟩

/-- An exploration that goes on to its end goes on to it on the rewired graph, and leaves the same
events in some order. -/
theorem explore (rewires : g.Rewires h) (path : List Visit) (v : Visit)
    (goesOn : (v.explore e g path).ended = false) :
    (v.explore e h path).ended = false ∧
      (v.explore e h path).events.Perm (v.explore e g path).events := by
  induction path, v using Visit.explore_induction (e := e) (g := g) with
  | visit path v ih =>
    obtain ⟨entering, events, next, onward, each⟩ := Visit.explore_goes_on_iff.1 goesOn
    obtain ⟨next', onward', reordered⟩ := rewires.outcome onward
    -- what follows are the same visits, so all of them go on and leave the same events
    have below : ∀ w ∈ next', (w.explore e h (v :: path)).ended = false ∧
        (w.explore e h (v :: path)).events.Perm (w.explore e g (v :: path)).events := by
      intro w hw
      have hw : w ∈ next := reordered.mem_iff.1 hw
      exact ih w entering ((Visit.mem_iff_leads onward).1 hw) (each w hw)
    have each' : ∀ w ∈ next', (w.explore e h (v :: path)).ended = false := fun w hw =>
      (below w hw).1
    constructor
    · exact Visit.explore_goes_on_iff.2 ⟨entering, events, next', onward', each'⟩
    · rw [Visit.explore_events_of_goes_on entering onward each,
        Visit.explore_events_of_goes_on entering onward' each']
      exact (reordered.flatMap fun w hw => (below w hw).2).append_left events

end RuleGraph.Rewires

/-! ## Judging a rule -/

namespace Arbiter

variable {a b : Arbiter} {world : World} {rule : String} {scheme : Option Scheme} {p : Parties}
variable {g h : RuleGraph}

theorem events_perm_of_rewires (rewires : g.Rewires h) (known : a.rules rule = some g)
    (known' : b.rules rule = some h)
    (same : b.evaluation world rule scheme = a.evaluation world rule scheme)
    (goesOn : a.settings.stopAtFirstError = false)
    (noCycle : ¬ a.Aborted world rule scheme p .cycle)
    (noLimit : ¬ a.Aborted world rule scheme p .overLimit) :
    (b.events world rule scheme p).Perm (a.events world rule scheme p) := by
  cases found : g.start? with
  | none =>
    -- neither graph can be entered, for one and the same fault
    have found' : h.start? = none := rewires.start?.trans found
    simp only [events, known, known', found, found']
    exact .refl _
  | some start =>
    have entry : a.entry rule = .ok (g, start) := entry_eq_ok_iff.2 ⟨known, found⟩
    have entry' : b.entry rule = .ok (h, start) :=
      entry_eq_ok_iff.2 ⟨known', rewires.start?.trans found⟩
    have none := fault_not_mem_of_not_aborted entry noCycle noLimit
    rw [events_of_entry entry] at none ⊢
    rw [events_of_entry entry', same]
    exact (rewires.explore [] _ (explore_goes_on_of_no_fault goesOn none)).2

/-- The order in which the links of a port are wired does not matter. A rule has the same outcome on
a rewired graph; and if Error nodes do not end the evaluation and the guard reports nothing, it
reports nothing there either, and the warnings and errors are the same in some order. -/
theorem rewiring_keeps_verdict (a : Arbiter) (rules : String → Option RuleGraph) (world : World)
    (rule : String) (scheme : Option Scheme) (p : Parties) (g h : RuleGraph)
    (known : a.rules rule = some g) (known' : rules rule = some h) (rewires : g.Rewires h) :
    let b := a.withRules rules
    let verdict := Verdict.ofEvents (a.events world rule scheme p)
    let verdict' := Verdict.ofEvents (b.events world rule scheme p)
    verdict'.state = verdict.state ∧
    (a.settings.stopAtFirstError = false →
      ¬ a.Aborted world rule scheme p .cycle → ¬ a.Aborted world rule scheme p .overLimit →
      ¬ b.Aborted world rule scheme p .cycle ∧ ¬ b.Aborted world rule scheme p .overLimit ∧
      verdict'.warnings.Perm verdict.warnings ∧ verdict'.errors.Perm verdict.errors) := by
  intro b verdict verdict'
  have known' : b.rules rule = some h := known'
  constructor
  · refine Verdict.state_congr ?_
    rw [errors_eq_nil_iff_untripped, errors_eq_nil_iff_untripped]
    constructor
    · exact rewires.symm.untripped known' known rfl
    · exact rewires.untripped known known' rfl
  · intro goesOn noCycle noLimit
    have reordered : (b.events world rule scheme p).Perm (a.events world rule scheme p) :=
      events_perm_of_rewires rewires known known' rfl goesOn noCycle noLimit
    -- a fault of the guard would be among the events of the first graph as well
    have aborted : ∀ refusal, b.Aborted world rule scheme p refusal →
        a.Aborted world rule scheme p refusal := by
      intro refusal
      rw [aborted_iff, aborted_iff]
      exact fun ⟨node, met⟩ => ⟨node, reordered.mem_iff.1 met⟩
    refine ⟨mt (aborted .cycle) noCycle, mt (aborted .overLimit) noLimit, ?_, ?_⟩
    · exact reordered.filterMap _
    · exact reordered.filterMap _

end Arbiter

/-- A graph whose Start node leads to a warning and to an error, in one order or the other, and
from both of them to another warning. -/
def RuleGraph.forking (swapped : Bool) : RuleGraph where
  document :=
    { id := "forking"
      nodes := [.start, .warning "left", .error "right", .warning "both"]
      wires := (if swapped then [⟨0, .run, 2, none⟩, ⟨0, .run, 1, none⟩]
          else [⟨0, .run, 1, none⟩, ⟨0, .run, 2, none⟩])
        ++ [⟨1, .next, 3, none⟩, ⟨2, .next, 3, none⟩] }
  wellFormed := by
    refine (GraphDocument.violation?_eq_none_iff _).1 ?_
    cases swapped <;> rfl

/-- Swapping the two ways keeps the outcome and the messages, but not their order. -/
theorem Arbiter.rewiring_keeps_verdict_forking :
    let ada := Actor.create .nil "Ada" .female
    let world := World.empty.addActor ada
    let a : Arbiter := { rules := fun _ => some (.forking false), bridge := .empty }
    let b := a.withRules fun _ => some (.forking true)
    let verdict := a.judge world "forking" ⟨ada, none⟩
    let verdict' := b.judge world "forking" ⟨ada, none⟩
    (RuleGraph.forking false).Rewires (.forking true) ∧
      ¬ a.Aborted world "forking" none ⟨ada, none⟩ .cycle ∧
      ¬ a.Aborted world "forking" none ⟨ada, none⟩ .overLimit ∧
      verdict'.state = verdict.state ∧ verdict'.errors.Perm verdict.errors ∧
      verdict'.warnings.Perm verdict.warnings ∧ verdict'.warnings ≠ verdict.warnings := by
  intro ada world a b verdict verdict'
  have rewires : (RuleGraph.forking false).Rewires (.forking true) :=
    .of_perm rfl ((List.Perm.swap _ _ []).append_right _)
  have quiet : (a.events world "forking" none ⟨ada, none⟩).all
      (fun x => match x with | .fault _ => false | _ => true) = true := by
    decide +kernel
  have going : ∀ refusal, ¬ a.Aborted world "forking" none ⟨ada, none⟩ refusal := by
    intro refusal aborted
    obtain ⟨node, met⟩ := aborted_iff.1 aborted
    cases List.all_eq_true.1 quiet _ met
  obtain ⟨state, kept⟩ := rewiring_keeps_verdict a (fun _ => some (.forking true)) world "forking"
    none ⟨ada, none⟩ (.forking false) (.forking true) rfl rfl rewires
  obtain ⟨-, -, warnings, errors⟩ := kept rfl (going .cycle) (going .overLimit)
  refine ⟨rewires, going .cycle, going .overLimit, state, errors, warnings, ?_⟩
  decide +kernel

end Stratagem
