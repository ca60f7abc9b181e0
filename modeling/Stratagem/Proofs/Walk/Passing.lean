import Stratagem.Proofs.Walk.Simulation

/-!
# When a rule passes

A rule passes exactly if no walk of its graph trips. What trips a walk is said of the walk alone:
its last visit is at an Error node, or in a situation that the path has been in before, or at a
node that the path has entered as often as it may.

* `Trips` says when a walk trips, and `Arbiter.Untripped` that a rule can be walked without it.
* `Visit.explore_errors_eq_nil_iff`: an exploration without errors passes the guard, is at no Error
  node, and leads to explorations without errors only.
* `errors_eq_nil_iff`: it has no errors exactly if none of the walks from its visit trips.
* `Arbiter.passes_iff_untripped` is the result for the judging of a rule.
-/

namespace Stratagem

/-- A walk trips at its last visit. -/
inductive Trips (e : Evaluation) (g : RuleGraph) (path : List Visit) (v : Visit) : Prop
  /-- It is at an Error node. -/
  | error {message : String} : g.kind? v.node = some (.error message) → Trips e g path v
  /-- It is in a situation that the path has been in before. -/
  | repeats {u : Visit} : u ∈ path → u.situation = v.situation → Trips e g path v
  /-- It is at a node that the path has entered as often as it may. -/
  | exceeds : e.settings.maxNodeVisits.toNat ≤ path.countP (·.node = v.node) → Trips e g path v

variable {e : Evaluation} {g : RuleGraph} {first v w : Visit} {path : List Visit}
variable {events : List Event} {next : List Visit}

/-- What does not trip is past the guard and at no Error node. -/
theorem not_trips_iff :
    ¬ Trips e g path v ↔
      v.fault? e path = none ∧ ∀ message, g.kind? v.node ≠ some (.error message) := by
  rw [Visit.fault?_eq_none_iff]
  constructor
  · intro h
    refine ⟨⟨?_, ?_⟩, ?_⟩
    · exact fun u hu same => h (.repeats hu same)
    · exact Nat.lt_of_not_le fun many => h (.exceeds many)
    · exact fun message at_error => h (.error at_error)
  · rintro ⟨⟨fresh, below⟩, noError⟩ (at_error | ⟨hu, same⟩ | many)
    · exact noError _ at_error
    · exact fresh _ hu same
    · omega

namespace Visit

/-! ## Explorations without errors -/

/-- An exploration that ends the evaluation has an error. -/
theorem explore_errors_of_ended (path : List Visit) (v : Visit)
    (h : (v.explore e g path).ended = true) : (v.explore e g path).verdict.errors ≠ [] := by
  revert h
  refine explore_closed (P := fun _ r => r.ended = true → r.verdict.errors ≠ []) ?_ ?_ ?_ ?_ ?_
    path v
  · intro path ended
    cases ended
  · intro path a b ha hb ended
    cases h : a.ended with
    | true =>
      rw [Report.andThen_of_ended h]
      exact ha h
    | false =>
      rw [Report.andThen_of_goes_on h] at ended
      rw [Report.errors_andThen_of_goes_on h]
      exact List.append_ne_nil_of_right_ne_nil _ (hb ended)
  · intro path v fault _ _
    exact List.cons_ne_nil _ _
  · intro path v events _ outcome _ quiet
    obtain ⟨⟨message, at_error⟩, -⟩ := error_of_halt outcome
    have noError : (Verdict.ofEvents (v.outcome e g).1).errors = [] := by
      rw [outcome]
      exact quiet
    exact errors_outcome_eq_nil_iff.1 noError message at_error
  · intro path v events next _ _ below ended
    rw [Report.andThen_of_goes_on rfl] at ended
    rw [Report.errors_andThen_of_goes_on rfl]
    exact List.append_ne_nil_of_right_ne_nil _ (below ended)

theorem exploreAll_errors_eq_nil_iff :
    (exploreAll e g path next).verdict.errors = [] ↔
      ∀ w ∈ next, (w.explore e g path).verdict.errors = [] := by
  induction next with
  | nil => simp [Report.nothing, Report.verdict, Verdict.ofEvents]
  | cons w next ih =>
    rw [exploreAll_cons, List.forall_mem_cons, ← ih]
    cases h : (w.explore e g path).ended with
    | true =>
      -- what was cut off does not count: an end has an error of its own
      rw [Report.andThen_of_ended h]
      have errors := explore_errors_of_ended path w h
      exact ⟨fun quiet => absurd quiet errors, fun quiet => absurd quiet.1 errors⟩
    | false =>
      rw [Report.errors_andThen_of_goes_on h, List.append_eq_nil_iff]

/-- An exploration has no errors exactly if its visit does not trip and all that follow from it
have none. -/
theorem explore_errors_eq_nil_iff :
    (v.explore e g path).verdict.errors = [] ↔
      ¬ Trips e g path v ∧
        ∀ w, v.Leads e g w → (w.explore e g (v :: path)).verdict.errors = [] := by
  rw [not_trips_iff]
  rcases explore_cases e g path v with
    ⟨fault, refused⟩ | ⟨events, entering, outcome⟩ | ⟨events, next, entering, outcome⟩
  · rw [explore_of_fault refused, refused]
    constructor
    · exact fun quiet => absurd quiet (List.cons_ne_nil _ _)
    · rintro ⟨⟨entering, -⟩, -⟩
      cases entering
  · obtain ⟨⟨message, at_error⟩, -⟩ := error_of_halt outcome
    have ended : (v.explore e g path).ended = true := by
      rw [explore_of_halt entering outcome]
    constructor
    · exact fun quiet => absurd quiet (explore_errors_of_ended path v ended)
    · exact fun ⟨⟨_, noError⟩, _⟩ => absurd at_error (noError message)
  · have here : (Verdict.ofEvents events).errors = [] ↔
        ∀ message, g.kind? v.node ≠ some (.error message) := by
      rw [← errors_outcome_eq_nil_iff (e := e), outcome]
    rw [explore_of_onward entering outcome, Report.errors_andThen_of_goes_on rfl,
      List.append_eq_nil_iff, Report.verdict, here]
    have below : (exploreAll e g (v :: path) next).verdict.errors = [] ↔
        ∀ w ∈ next, (w.explore e g (v :: path)).verdict.errors = [] :=
      exploreAll_errors_eq_nil_iff
    simp only [← mem_iff_leads outcome, entering, true_and]
    exact and_congr_right fun _ => below

end Visit

/-! ## Walks that do not trip -/

/-- Along every walk from a visit whose exploration has no errors, no exploration has. -/
theorem WalkPath.errors_eq_nil (walk : WalkPath e g first path v)
    (h : (first.explore e g []).verdict.errors = []) :
    (v.explore e g path).verdict.errors = [] := by
  induction walk with
  | start => exact h
  | onward _ leads ih => exact (Visit.explore_errors_eq_nil_iff.1 ih).2 _ leads

/-- An exploration has no errors exactly if no walk from its visit trips. -/
theorem errors_eq_nil_iff :
    (first.explore e g []).verdict.errors = [] ↔
      ∀ path v, WalkPath e g first path v → ¬ Trips e g path v := by
  constructor
  · intro h path v walk
    exact (Visit.explore_errors_eq_nil_iff.1 (walk.errors_eq_nil h)).1
  · intro h
    -- from the ends of the walks back to the first visit
    have each : ∀ path v, WalkPath e g first path v →
        (v.explore e g path).verdict.errors = [] := by
      intro path v
      induction path, v using Visit.explore_induction (e := e) (g := g) with
      | visit path v ih =>
        intro walk
        have untripped := h path v walk
        rw [Visit.explore_errors_eq_nil_iff]
        refine ⟨untripped, ?_⟩
        intro w leads
        exact ih w (not_trips_iff.1 untripped).1 leads (.onward walk leads)
    exact each [] first .start

/-! ## Judging a rule -/

/-- A verdict is a success exactly under a condition, and a failure with errors otherwise. -/
structure Verdict.Settles (v : Verdict) (condition : Prop) : Prop where
  success : v.state = "Success" ↔ condition
  failure : ¬ condition → v.state = "Failed" ∧ v.errors ≠ []

theorem Verdict.settles_of_iff {v : Verdict} {condition : Prop}
    (h : v.errors = [] ↔ condition) : v.Settles condition := by
  have success : v.errors = [] ↔ v.state = "Success" := by
    unfold Verdict.state Verdict.passed
    cases v.errors <;> simp
  constructor
  · rw [← h, success]
  · intro fails
    have errors : v.errors ≠ [] := mt h.1 fails
    refine ⟨?_, errors⟩
    unfold Verdict.state Verdict.passed
    rw [if_neg (by simpa using errors)]

namespace Arbiter

/-- The rule is known, its graph has a Start node, and no walk from there trips. -/
def Untripped (a : Arbiter) (world : World) (rule : String) (scheme : Option Scheme)
    (p : Parties) : Prop :=
  ∃ g start, a.rules rule = some g ∧ g.start? = some start ∧
    ∀ path v, WalkPath (a.evaluation world rule scheme) g (.first start p) path v →
      ¬ Trips (a.evaluation world rule scheme) g path v

/-- Judging a rule leaves no errors exactly if it can be walked without tripping. -/
theorem errors_eq_nil_iff_untripped (a : Arbiter) (world : World) (rule : String)
    (scheme : Option Scheme) (p : Parties) :
    (Verdict.ofEvents (a.events world rule scheme p)).errors = [] ↔
      a.Untripped world rule scheme p := by
  rw [events_eq_exploration, exploration]
  have entered : a.Untripped world rule scheme p ↔ ∃ g start, a.entry rule = .ok (g, start) ∧
      ∀ path v, WalkPath (a.evaluation world rule scheme) g (.first start p) path v →
        ¬ Trips (a.evaluation world rule scheme) g path v := by
    simp only [Untripped, entry_eq_ok_iff, and_assoc]
  rw [entered]
  cases h : a.entry rule with
  | error fault =>
    constructor
    · exact fun quiet => absurd quiet (List.cons_ne_nil _ _)
    · rintro ⟨_, _, ok, _⟩
      cases ok
  | ok entry =>
    obtain ⟨g, start⟩ := entry
    rw [show (Verdict.ofEvents ((Visit.first start p).explore _ g []).events).errors = [] ↔ _ from
      errors_eq_nil_iff]
    constructor
    · exact fun untripped => ⟨g, start, rfl, untripped⟩
    · rintro ⟨g', start', ok, untripped⟩
      cases ok
      exact untripped

/-- A rule passes, judged alone or for a scheme, exactly if it is known, its graph has a Start node
and no walk from there reaches an Error node, comes back to a situation of its own path or enters
a node more often than it may. Otherwise it fails, and at least one error says so. -/
theorem passes_iff_untripped (a : Arbiter) (world : World) (p : Parties) :
    (∀ rule, (a.judge world rule p).Settles (a.Untripped world rule none p)) ∧
    (∀ s, (a.judgeScheme world s p).Settles (a.Untripped world s.ruleId (some s) p)) := by
  constructor
  · intro rule
    exact Verdict.settles_of_iff (a.errors_eq_nil_iff_untripped world rule none p)
  · intro s
    exact Verdict.settles_of_iff (a.errors_eq_nil_iff_untripped world s.ruleId (some s) p)

end Arbiter

end Stratagem
