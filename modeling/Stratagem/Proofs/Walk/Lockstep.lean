import Mathlib.Data.List.Forall2
import Stratagem.Proofs.Walk.Simulation

/-!
# Evaluations in lockstep

Two evaluations are compared visit by visit. If the visits go in pairs, and each visit of a pair is
refused as the other is, leaves what the other leaves and leads where the other leads, so do the
whole evaluations.

* `Lockstep` is what has to hold of the single visits, for a relation of visits and one of events.
* `Lockstep.explore`: the explorations of two visits that go in a pair have their events in pairs.
* `Visit.outcome_congr`: a visit does the same in two evaluations that ask the same of the host and
  get the same answers; `Lockstep.of_outcome_eq` is for evaluations whose visits are the same.
* `Arbiter.events_paired` and `Arbiter.events_congr` are the results for the judging of rules.
-/

namespace Stratagem

/-- What the visits of two evaluations must do to go in pairs: both visits of a pair are refused, for
the same reason, or neither is; what they leave goes in pairs, and so do the visits that follow. -/
structure Lockstep (e e' : Evaluation) (g g' : RuleGraph) (V : Visit → Visit → Prop)
    (E : Event → Event → Prop) : Prop where
  guard : ∀ {v v' path path'}, V v v' → List.Forall₂ V path path' →
    v'.fault? e' path' = v.fault? e path
  fault : ∀ {v v'} (refusal : GuardFault), V v v' →
    E (.fault (refusal.toRuleFault e v.node)) (.fault (refusal.toRuleFault e' v'.node))
  events : ∀ {v v'}, V v v' → List.Forall₂ E (v.outcome e g).1 (v'.outcome e' g').1
  onward : ∀ {v v'}, V v v' →
    Option.Rel (List.Forall₂ V) (v.outcome e g).2 (v'.outcome e' g').2

/-- Two reports whose events go in pairs and that both end the evaluation, or both do not. -/
structure Report.Pairs (E : Event → Event → Prop) (a b : Report) : Prop where
  events : List.Forall₂ E a.events b.events
  ended : b.ended = a.ended

theorem Report.Pairs.andThen {E : Event → Event → Prop} {a a' b b' : Report}
    (ha : a.Pairs E a') (hb : b.Pairs E b') : (a.andThen b).Pairs E (a'.andThen b') := by
  cases h : a.ended with
  | true =>
    rw [andThen_of_ended h, andThen_of_ended (ha.ended.trans h)]
    exact ha
  | false =>
    rw [andThen_of_goes_on h, andThen_of_goes_on (ha.ended.trans h)]
    exact ⟨List.rel_append ha.events hb.events, hb.ended⟩

namespace Lockstep

variable {e e' : Evaluation} {g g' : RuleGraph} {V : Visit → Visit → Prop}
variable {E : Event → Event → Prop} {path path' next next' : List Visit} {v v' : Visit}

theorem exploreAll (paired : List.Forall₂ V next next')
    (each : ∀ w ∈ next, ∀ w', V w w' →
      (w.explore e g path).Pairs E (w'.explore e' g' path')) :
    (Visit.exploreAll e g path next).Pairs E (Visit.exploreAll e' g' path' next') := by
  induction paired with
  | nil =>
    rw [Visit.exploreAll_nil, Visit.exploreAll_nil]
    exact ⟨.nil, rfl⟩
  | cons first _ ih =>
    rw [Visit.exploreAll_cons, Visit.exploreAll_cons]
    refine (each _ List.mem_cons_self _ first).andThen (ih fun w hw => ?_)
    exact each w (List.mem_cons_of_mem _ hw)

/-- Explorations of two visits that go in a pair, at the ends of two paths whose visits do, have
their events in pairs. -/
theorem explore (lockstep : Lockstep e e' g g' V E) (paths : List.Forall₂ V path path')
    (pair : V v v') : (v.explore e g path).Pairs E (v'.explore e' g' path') := by
  induction path, v using Visit.explore_induction (e := e) (g := g) generalizing path' v' with
  | visit path v ih =>
    have guard := lockstep.guard pair paths
    have left := lockstep.events pair
    have onward := lockstep.onward pair
    rcases Visit.explore_cases e g path v with
      ⟨refusal, refused⟩ | ⟨events, entering, outcome⟩ | ⟨events, next, entering, outcome⟩
    · rw [Visit.explore_of_fault refused, Visit.explore_of_fault (guard.trans refused)]
      exact ⟨.cons (lockstep.fault refusal pair) .nil, rfl⟩
    · rw [outcome] at left onward
      rcases outcome' : v'.outcome e' g' with ⟨events', _ | next'⟩
      · rw [outcome'] at left
        rw [Visit.explore_of_halt entering outcome,
          Visit.explore_of_halt (guard.trans entering) outcome']
        exact ⟨left, rfl⟩
      · rw [outcome'] at onward
        cases onward
    · rw [outcome] at left onward
      rcases outcome' : v'.outcome e' g' with ⟨events', _ | next'⟩
      · rw [outcome'] at onward
        cases onward
      · rw [outcome'] at left onward
        obtain ⟨paired⟩ := onward
        rw [Visit.explore_of_onward entering outcome,
          Visit.explore_of_onward (guard.trans entering) outcome']
        refine Report.Pairs.andThen ⟨left, rfl⟩ (exploreAll paired fun w hw w' follows => ?_)
        exact ih w entering ((Visit.mem_iff_leads outcome).1 hw) (.cons pair paths) follows

end Lockstep

/-! ## The same visits -/

namespace Visit

variable {e e' : Evaluation} {g : RuleGraph} {v : Visit} {kind : NodeKind}

theorem judge_congr {choose choose' : Actor → Port}
    (same : ∀ a, v.actor? = some a → choose' a = choose a) : v.judge choose' = v.judge choose := by
  unfold judge
  cases about : v.actor? with
  | none => rfl
  | some a => exact congrArg (Decision.follow · v.parties (some a)) (same a about)

/-- A selector selects the same if the method that it asks, if any, answers the same. -/
theorem wanted?_congr {α : Type} {selector : Selector α} {value? : Answer → Option α} {a : Actor}
    (about : v.actor? = some a)
    (same : ∀ method, v.selectorAsks? selector = some method →
      e'.ask v.parties method = e.ask v.parties method) :
    selector.wanted? (e'.ask v.parties) value? = selector.wanted? (e.ask v.parties) value? := by
  cases selector with
  | fixed value => rfl
  | invoked method =>
    have asked : v.selectorAsks? (.invoked method : Selector α) = some method := by
      rw [selectorAsks?, about, Option.map_some]
    simp only [Selector.wanted?, same method asked]

/-- What a visit decides depends on the evaluation only through whether errors end it and, where a
method is asked, through its answer and the world that it is looked up in. -/
theorem decide_congr (stopping : e'.settings.stopAtFirstError = e.settings.stopAtFirstError)
    (same : ∀ method, v.asks? kind = some method →
      e'.world = e.world ∧ e'.ask v.parties method = e.ask v.parties method) :
    v.decide e' kind = v.decide e kind := by
  have answers : ∀ method, v.asks? kind = some method →
      e'.ask v.parties method = e.ask v.parties method := fun method asked => (same method asked).2
  cases kind with
  | start | warning message | isParent | isSibling => rfl
  | gender | getRole role | isAutonomous => rfl
  | error message => simp only [decide, stopping]
  | getActor selector | getClan selector | getFamily selector =>
    refine judge_congr fun a about => ?_
    simp only [wanted?_congr about answers]
  | invoke method =>
    obtain ⟨world, answer⟩ := same method rfl
    simp only [decide, world, answer]

/-- A visit does the same in two evaluations of the same settings that ask the same of the host and
get the same answers. -/
theorem outcome_congr (settings : e'.settings = e.settings)
    (same : ∀ kind method, g.kind? v.node = some kind → v.asks? kind = some method →
      e'.context v.parties = e.context v.parties ∧
        e'.ask v.parties method = e.ask v.parties method) :
    v.outcome e' g = v.outcome e g := by
  unfold outcome
  cases known : g.kind? v.node with
  | none => rfl
  | some kind =>
    have same := fun method => same kind method known
    have decided : v.decide e' kind = v.decide e kind :=
      decide_congr (congrArg WalkSettings.stopAtFirstError settings) fun method asks =>
        (same method asks).imp_left (congrArg Context.world)
    have remark : v.remark? e' kind = v.remark? e kind := by
      cases kind <;> simp only [remark?, settings]
    have asked : (v.asks? kind).map (fun method => Event.asked method (e'.context v.parties)) =
        (v.asks? kind).map fun method => Event.asked method (e.context v.parties) :=
      Option.map_congr fun method asks => by rw [(same method asks).1]
    simp only [events, decided, remark, asked]

end Visit

/-- Evaluations go in lockstep, each visit with itself, if each does the same in both. This is asked
only of visits that have a property which is handed on from visit to visit. -/
theorem Lockstep.of_outcome_eq {e e' : Evaluation} {g : RuleGraph} {P : Visit → Prop}
    (rule : e'.rule = e.rule) (settings : e'.settings = e.settings)
    (closed : ∀ v w, P v → v.Leads e g w → P w)
    (same : ∀ v, P v → v.outcome e' g = v.outcome e g) :
    Lockstep e e' g g (fun v v' => v = v' ∧ P v) (· = ·) where
  guard := by
    rintro v _ path path' ⟨rfl, -⟩ paths
    have one : path = path' := by
      refine List.forall₂_eq_eq_eq ▸ paths.imp fun _ _ => And.left
    simp only [Visit.fault?, settings, one]
  fault := by
    rintro v _ refusal ⟨rfl, -⟩
    cases refusal <;> simp only [GuardFault.toRuleFault, rule, settings]
  events := by
    rintro v _ ⟨rfl, holds⟩
    rw [same v holds]
    exact List.forall₂_refl _
  onward := by
    rintro v _ ⟨rfl, holds⟩
    rw [same v holds]
    rcases outcome : v.outcome e g with ⟨events, _ | next⟩
    · exact .none
    · refine .some (List.forall₂_same.2 fun w hw => ⟨rfl, ?_⟩)
      exact closed v w holds ((Visit.mem_iff_leads outcome).1 hw)

/-! ## Judging a rule -/

namespace Arbiter

variable {a b : Arbiter} {world world' : World} {rule : String} {scheme scheme' : Option Scheme}
variable {p p' : Parties} {g g' : RuleGraph}

/-- Judging leaves events in pairs if the two graphs begin alike, the first visits go in a pair, and
the two evaluations go in lockstep. -/
theorem events_paired {V : Visit → Visit → Prop} {E : Event → Event → Prop}
    (known : a.rules rule = some g) (known' : b.rules rule = some g')
    (starts : g'.start? = g.start?)
    (missing : E (.fault (.missingStart rule)) (.fault (.missingStart rule)))
    (first : ∀ start, g.start? = some start → V (.first start p) (.first start p'))
    (lockstep : Lockstep (a.evaluation world rule scheme) (b.evaluation world' rule scheme')
      g g' V E) :
    List.Forall₂ E (a.events world rule scheme p) (b.events world' rule scheme' p') := by
  cases found : g.start? with
  | none =>
    have found' : g'.start? = none := starts.trans found
    simp only [events, known, known', found, found']
    exact .cons missing .nil
  | some start =>
    have entry : a.entry rule = .ok (g, start) := entry_eq_ok_iff.2 ⟨known, found⟩
    have entry' : b.entry rule = .ok (g', start) :=
      entry_eq_ok_iff.2 ⟨known', starts.trans found⟩
    rw [events_of_entry entry, events_of_entry entry']
    exact (lockstep.explore .nil (first start found)).events

/-- Judging a rule on one graph leaves the same events if each visit that can come about does the
same. -/
theorem events_congr {P : Visit → Prop} (known : a.rules rule = some g)
    (known' : b.rules rule = some g) (settings : b.settings = a.settings)
    (first : ∀ start, g.start? = some start → P (.first start p))
    (closed : ∀ v w, P v → v.Leads (a.evaluation world rule scheme) g w → P w)
    (same : ∀ v, P v → v.outcome (b.evaluation world' rule scheme') g =
      v.outcome (a.evaluation world rule scheme) g) :
    b.events world' rule scheme' p = a.events world rule scheme p := by
  have lockstep : Lockstep (a.evaluation world rule scheme) (b.evaluation world' rule scheme') g g
      (fun v v' => v = v' ∧ P v) (· = ·) := .of_outcome_eq rfl settings closed same
  have paired := events_paired known known' rfl rfl (fun start found => ⟨rfl, first start found⟩)
    lockstep
  rw [List.forall₂_eq_eq_eq] at paired
  exact paired.symm

end Arbiter

end Stratagem
