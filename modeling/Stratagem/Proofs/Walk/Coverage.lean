import Stratagem.Proofs.Walk.Exploration

/-!
# What an exploration covers

Which visits an exploration makes, and which events it leaves behind.

* `Visit.mem_arrivals`: every arrival below a visit continues the path of that visit.
* `WalkPath.of_mem_arrivals`: what is met is met on a walk that the graph has;
  `ForemostPath.subset`: a walk along the first links that the guard lets pass is met.
* `Report.Thorough`: of the links of a port that is followed none is taken twice, and none is passed
  over unless the evaluation ends early. `Visit.explore_thorough` has it for every exploration.
* `Visit.exists_refused_arrival`: a fault is reported for a visit that was met and refused;
  `Report.FaultLast`: it is the last event of an evaluation, and the only fault.
-/

namespace Stratagem

variable {e : Evaluation} {g : RuleGraph} {v w : Visit} {path : List Visit}
variable {next : List Visit} {x : Arrival}

namespace Visit

theorem mem_arrivals_exploreAll (h : x ∈ (exploreAll e g path next).arrivals) :
    ∃ w ∈ next, x ∈ (w.explore e g path).arrivals := by
  induction next with
  | nil =>
    rw [exploreAll_nil] at h
    exact absurd h List.not_mem_nil
  | cons w rest ih =>
    rw [exploreAll_cons] at h
    rcases Report.mem_arrivals_of_andThen h with h | h
    · exact ⟨w, List.mem_cons_self, h⟩
    · obtain ⟨u, hu, h⟩ := ih h
      exact ⟨u, List.mem_cons_of_mem _ hu, h⟩

/-- An exploration meets its own visit first, and after it the visits that follow it past the
guard. -/
theorem mem_arrivals (h : x ∈ (v.explore e g path).arrivals) :
    x = ⟨v, path⟩ ∨
      ∃ w, v.fault? e path = none ∧ v.Leads e g w ∧ x ∈ (w.explore e g (v :: path)).arrivals := by
  rcases explore_cases e g path v with
    ⟨fault, refused⟩ | ⟨events, entering, outcome⟩ | ⟨events, next, entering, outcome⟩
  · rw [explore_of_fault refused] at h
    exact .inl (List.mem_singleton.1 h)
  · rw [explore_of_halt entering outcome] at h
    exact .inl (List.mem_singleton.1 h)
  · rw [explore_of_onward entering outcome] at h
    rcases Report.mem_arrivals_of_andThen h with h | h
    · exact .inl (List.mem_singleton.1 h)
    · obtain ⟨w, hw, h⟩ := mem_arrivals_exploreAll h
      exact .inr ⟨w, entering, (mem_iff_leads outcome).1 hw, h⟩

/-- What is met below a visit continues the path of that visit. -/
theorem suffix_of_mem_arrivals (h : x ∈ (v.explore e g path).arrivals) :
    x = ⟨v, path⟩ ∨ v :: path <:+ x.path := by
  induction path, v using explore_induction (e := e) (g := g) with
  | visit path v ih =>
    rcases mem_arrivals h with rfl | ⟨w, entering, leads, h⟩
    · exact .inl rfl
    · rcases ih w entering leads h with rfl | longer
      · exact .inr (List.suffix_refl _)
      · exact .inr ((List.suffix_cons _ _).trans longer)

theorem suffix_of_mem_exploreAll (h : x ∈ (exploreAll e g path next).arrivals) :
    path <:+ x.path := by
  obtain ⟨w, _, h⟩ := mem_arrivals_exploreAll h
  rcases suffix_of_mem_arrivals h with rfl | longer
  · exact List.suffix_refl _
  · exact (List.suffix_cons _ _).trans longer

/-- An exploration meets its own visit first, and then only visits that continue its path. -/
theorem exists_arrivals_eq_cons (e : Evaluation) (g : RuleGraph) (path : List Visit) (v : Visit) :
    ∃ later, (v.explore e g path).arrivals = ⟨v, path⟩ :: later ∧
      ∀ x ∈ later, v :: path <:+ x.path := by
  rcases explore_cases e g path v with
    ⟨fault, refused⟩ | ⟨events, entering, outcome⟩ | ⟨events, next, entering, outcome⟩
  · rw [explore_of_fault refused]
    exact ⟨[], rfl, fun _ h => absurd h List.not_mem_nil⟩
  · rw [explore_of_halt entering outcome]
    exact ⟨[], rfl, fun _ h => absurd h List.not_mem_nil⟩
  · rw [explore_of_onward entering outcome, Report.andThen_of_goes_on rfl]
    exact ⟨(exploreAll e g (v :: path) next).arrivals, rfl, fun _ => suffix_of_mem_exploreAll⟩

end Visit

/-! ## Walks that are met -/

/-- Whatever an exploration meets is at the end of a walk that the graph has. -/
theorem WalkPath.of_mem_arrivals {first : Visit} (walk : WalkPath e g first path v)
    (h : x ∈ (v.explore e g path).arrivals) : WalkPath e g first x.path x.visit := by
  induction path, v using Visit.explore_induction (e := e) (g := g) with
  | visit path v ih =>
    rcases Visit.mem_arrivals h with rfl | ⟨w, entering, leads, h⟩
    · exact walk
    · exact ih w entering leads (.onward walk leads) h

/-- A walk that takes the first link of every port and that the guard lets pass, its last visit
apart. -/
inductive ForemostPath (e : Evaluation) (g : RuleGraph) (first : Visit) :
    List Visit → Visit → Prop
  | start : ForemostPath e g first [] first
  | onward {v w : Visit} {path rest : List Visit} :
      ForemostPath e g first path v → v.fault? e path = none → v.next e g = w :: rest →
      ForemostPath e g first (v :: path) w

/-- No other branch keeps a foremost walk from being met. -/
theorem ForemostPath.subset {first : Visit} (walk : ForemostPath e g first path v) :
    (v.explore e g path).arrivals ⊆ (first.explore e g []).arrivals ∧
      (v.explore e g path).events ⊆ (first.explore e g []).events := by
  induction walk with
  | start => exact ⟨List.Subset.refl _, List.Subset.refl _⟩
  | onward _ entering next ih =>
    rw [Visit.explore_of_onward entering (Visit.outcome_of_next next), Visit.exploreAll_cons,
      Report.andThen_of_goes_on rfl] at ih
    obtain ⟨met, recorded⟩ := ih
    -- the first of the visits that follow is explored before anything can end the others
    constructor
    · exact fun y hy =>
        met (List.mem_append_right _ (Report.arrivals_subset_andThen hy))
    · exact fun y hy =>
        recorded (List.mem_append_right _ (Report.events_subset_andThen hy))

theorem ForemostPath.mem_arrivals {first : Visit} (walk : ForemostPath e g first path v) :
    ⟨v, path⟩ ∈ (first.explore e g []).arrivals := by
  refine walk.subset.1 ?_
  rcases Visit.explore_cases e g path v with
    ⟨fault, refused⟩ | ⟨events, entering, outcome⟩ | ⟨events, next, entering, outcome⟩
  · rw [Visit.explore_of_fault refused]
    exact List.mem_cons_self
  · rw [Visit.explore_of_halt entering outcome]
    exact List.mem_cons_self
  · rw [Visit.explore_of_onward entering outcome]
    exact Report.arrivals_subset_andThen List.mem_cons_self

/-- A refusal at the end of a foremost walk is reported. -/
theorem ForemostPath.fault_mem_events {first : Visit} {fault : GuardFault}
    (walk : ForemostPath e g first path v) (refused : v.fault? e path = some fault) :
    .fault (fault.toRuleFault e v.node) ∈ (first.explore e g []).events := by
  refine walk.subset.2 ?_
  rw [Visit.explore_of_fault refused]
  exact List.mem_cons_self

/-! ## Every link once -/

/-- Whenever a visit whose path has at least `depth` visits is met, each link of the port that it
follows is met after it as often as it is wired, or fewer times if the evaluation ends early. -/
def Report.Thorough (e : Evaluation) (g : RuleGraph) (depth : Nat) (r : Report) : Prop :=
  ∀ (u w : Visit) (path : List Visit), depth ≤ path.length →
    r.arrivals.count ⟨w, u :: path⟩ ≤ r.arrivals.count ⟨u, path⟩ * (u.next e g).count w ∧
    (r.ended = false →
      r.arrivals.count ⟨w, u :: path⟩ = r.arrivals.count ⟨u, path⟩ * (u.next e g).count w)

namespace Report

variable {depth : Nat} {a b r : Report}

theorem thorough_nothing : Thorough e g depth nothing := by
  intro u w path _
  simp [nothing]

theorem Thorough.andThen (ha : Thorough e g depth a) (hb : Thorough e g depth b) :
    Thorough e g depth (a.andThen b) := by
  cases h : a.ended with
  | true =>
    rw [andThen_of_ended h]
    exact ha
  | false =>
    rw [andThen_of_goes_on h]
    intro u w path deep
    obtain ⟨leA, eqA⟩ := ha u w path deep
    obtain ⟨leB, eqB⟩ := hb u w path deep
    simp only [List.count_append, Nat.add_mul]
    refine ⟨Nat.add_le_add leA leB, ?_⟩
    intro goesOn
    rw [eqA h, eqB goesOn]

/-- A visit that ends the evaluation leaves no link to be met. -/
theorem thorough_of_ended {events : List Event} :
    Thorough e g path.length ⟨[⟨v, path⟩], events, true⟩ := by
  intro u w path' deep
  have none : [(⟨v, path⟩ : Arrival)].count ⟨w, u :: path'⟩ = 0 := by
    refine List.count_eq_zero_of_not_mem fun h => ?_
    obtain ⟨-, rfl⟩ := Arrival.mk.inj (List.mem_singleton.1 h)
    rw [List.length_cons] at deep
    omega
  refine ⟨by simp only [none, Nat.zero_le], ?_⟩
  intro goesOn
  cases goesOn

end Report

namespace Visit

/-- Nothing below a visit ends a path as short as that visit's own. -/
theorem count_below_eq_zero {short : List Visit} (h : short.length ≤ path.length) :
    (exploreAll e g (v :: path) next).arrivals.count ⟨w, short⟩ = 0 := by
  refine List.count_eq_zero_of_not_mem fun met => ?_
  have longer : v :: path <:+ short := suffix_of_mem_exploreAll met
  have := longer.length_le
  rw [List.length_cons] at this
  omega

/-- A visit is met once at the end of its own path, and no other visit is met there. -/
theorem count_arrivals_here :
    (v.explore e g path).arrivals.count ⟨w, path⟩ = if v = w then 1 else 0 := by
  have here : [(⟨v, path⟩ : Arrival)].count ⟨w, path⟩ = if v = w then 1 else 0 := by
    rw [List.count_singleton]
    simp only [beq_iff_eq, Arrival.mk.injEq, and_true]
  rcases explore_cases e g path v with
    ⟨fault, refused⟩ | ⟨events, entering, outcome⟩ | ⟨events, next, entering, outcome⟩
  · rw [explore_of_fault refused, here]
  · rw [explore_of_halt entering outcome, here]
  · rw [explore_of_onward entering outcome, Report.andThen_of_goes_on rfl]
    simp only [List.count_append, here, count_below_eq_zero (Nat.le_refl _), Nat.add_zero]

/-- Each of several visits is met as often as it is listed, or fewer times if the evaluation ends
early. -/
theorem count_arrivals_exploreAll :
    (exploreAll e g path next).arrivals.count ⟨w, path⟩ ≤ next.count w ∧
    ((exploreAll e g path next).ended = false →
      (exploreAll e g path next).arrivals.count ⟨w, path⟩ = next.count w) := by
  induction next with
  | nil => simp [Report.nothing]
  | cons v next ih =>
    obtain ⟨le, eq⟩ := ih
    rw [exploreAll_cons, List.count_cons]
    simp only [beq_iff_eq]
    cases h : (v.explore e g path).ended with
    | true =>
      rw [Report.andThen_of_ended h, count_arrivals_here]
      refine ⟨Nat.le_add_left _ _, ?_⟩
      intro goesOn
      rw [h] at goesOn
      cases goesOn
    | false =>
      rw [Report.andThen_of_goes_on h]
      simp only [List.count_append, count_arrivals_here]
      refine ⟨by omega, ?_⟩
      intro goesOn
      rw [eq goesOn, Nat.add_comm]

/-- An exploration takes each link of a port that it follows once, and passes none over unless the
evaluation ends early. -/
theorem explore_thorough (path : List Visit) (v : Visit) :
    (v.explore e g path).Thorough e g path.length := by
  refine explore_closed (P := fun path r => r.Thorough e g path.length)
    (fun _ => Report.thorough_nothing) (fun _ _ _ => .andThen)
    (fun _ _ _ _ => Report.thorough_of_ended) (fun _ _ _ _ _ => Report.thorough_of_ended)
    ?_ path v
  intro path v events next _ outcome below
  rw [Report.andThen_of_goes_on rfl]
  intro u w short deep
  -- the visit itself is met at its own path only, where nothing is met that follows another
  have notHere : [(⟨v, path⟩ : Arrival)].count ⟨w, u :: short⟩ = 0 := by
    refine List.count_eq_zero_of_not_mem fun met => ?_
    obtain ⟨-, rfl⟩ := Arrival.mk.inj (List.mem_singleton.1 met)
    rw [List.length_cons] at deep
    omega
  simp only [List.count_append, notHere, Nat.zero_add]
  by_cases here : (⟨u, short⟩ : Arrival) = ⟨v, path⟩
  · -- the links of this very visit
    obtain ⟨rfl, rfl⟩ := Arrival.mk.inj here
    rw [List.count_singleton_self, count_below_eq_zero (Nat.le_refl _), Nat.add_zero,
      Nat.one_mul, next_of_outcome outcome]
    exact count_arrivals_exploreAll
  · have notThis : [(⟨v, path⟩ : Arrival)].count ⟨u, short⟩ = 0 :=
      List.count_eq_zero_of_not_mem fun met => here (List.mem_singleton.1 met)
    rw [notThis, Nat.zero_add]
    rcases Nat.lt_or_eq_of_le deep with deeper | same
    · exact below u w short deeper
    · -- a path of this length ends here only
      have none : (exploreAll e g (v :: path) next).arrivals.count ⟨w, u :: short⟩ = 0 := by
        refine List.count_eq_zero_of_not_mem fun met => here ?_
        have longer : v :: path <:+ u :: short := suffix_of_mem_exploreAll met
        have all : v :: path = u :: short := longer.eq_of_length (by simp [same])
        obtain ⟨rfl, rfl⟩ := List.cons.inj all
        rfl
      rw [none, count_below_eq_zero (Nat.le_of_eq same.symm), Nat.zero_mul]
      exact ⟨Nat.le_refl _, fun _ => rfl⟩

end Visit

/-! ## Faults -/

/-- Every fault of an exploration is a refusal of the guard at a visit that was met. -/
theorem Visit.exists_refused_arrival (path : List Visit) (v : Visit) :
    ∀ fault, Event.fault fault ∈ (v.explore e g path).events →
      ∃ x ∈ (v.explore e g path).arrivals, ∃ refusal, x.visit.fault? e x.path = some refusal ∧
        fault = refusal.toRuleFault e x.visit.node := by
  refine explore_closed (P := fun _ r => ∀ fault, Event.fault fault ∈ r.events →
    ∃ x ∈ r.arrivals, ∃ refusal, x.visit.fault? e x.path = some refusal ∧
      fault = refusal.toRuleFault e x.visit.node) ?_ ?_ ?_ ?_ ?_ path v
  · intro path fault h
    exact absurd h List.not_mem_nil
  · intro path a b ha hb fault h
    cases ended : a.ended with
    | true =>
      rw [Report.andThen_of_ended ended] at h ⊢
      exact ha fault h
    | false =>
      rw [Report.andThen_of_goes_on ended] at h ⊢
      rcases List.mem_append.1 h with h | h
      · obtain ⟨x, met, refused⟩ := ha fault h
        exact ⟨x, List.mem_append_left _ met, refused⟩
      · obtain ⟨x, met, refused⟩ := hb fault h
        exact ⟨x, List.mem_append_right _ met, refused⟩
  · intro path v refusal refused fault h
    have named := Event.fault.inj (List.mem_singleton.1 h)
    exact ⟨⟨v, path⟩, List.mem_cons_self, refusal, refused, named⟩
  · intro path v events _ outcome fault h
    exact absurd h (fault_not_mem_outcome outcome fault)
  · intro path v events next _ outcome below fault h
    rw [Report.andThen_of_goes_on rfl] at h ⊢
    rcases List.mem_append.1 h with h | h
    · exact absurd h (fault_not_mem_outcome outcome fault)
    · obtain ⟨x, met, refused⟩ := below fault h
      exact ⟨x, List.mem_append_right _ met, refused⟩

/-- A fault ends an evaluation: it is the last event, and no fault comes before it. -/
def Report.FaultLast (r : Report) : Prop :=
  ∀ fault, Event.fault fault ∈ r.events → r.ended = true ∧
    ∃ before, r.events = before ++ [.fault fault] ∧ ∀ other, Event.fault other ∉ before

namespace Report

variable {a b : Report}

theorem faultLast_nothing : FaultLast nothing := by
  intro fault h
  exact absurd h List.not_mem_nil

theorem FaultLast.andThen (ha : FaultLast a) (hb : FaultLast b) : FaultLast (a.andThen b) := by
  cases h : a.ended with
  | true =>
    rw [andThen_of_ended h]
    exact ha
  | false =>
    rw [andThen_of_goes_on h]
    -- a part that goes on has no fault
    have none : ∀ other, Event.fault other ∉ a.events := by
      intro other met
      have := (ha other met).1
      rw [h] at this
      cases this
    intro fault met
    have met : Event.fault fault ∈ b.events :=
      (List.mem_append.1 met).resolve_left (none fault)
    obtain ⟨ended, before, eq, only⟩ := hb fault met
    refine ⟨ended, a.events ++ before, ?_, ?_⟩
    · show a.events ++ b.events = _
      rw [eq, List.append_assoc]
    · intro other h
      exact (List.mem_append.1 h).elim (none other) (only other)

theorem faultLast_of_none {arrivals : List Arrival} {events : List Event} {ended : Bool}
    (none : ∀ fault, Event.fault fault ∉ events) : FaultLast ⟨arrivals, events, ended⟩ :=
  fun fault h => absurd h (none fault)

end Report

namespace Visit

theorem explore_faultLast (path : List Visit) (v : Visit) :
    (v.explore e g path).FaultLast := by
  refine explore_closed (P := fun _ r => r.FaultLast) (fun _ => Report.faultLast_nothing)
    (fun _ _ _ => .andThen) ?_ ?_ ?_ path v
  · intro path v fault _ other met
    obtain rfl := Event.fault.inj (List.mem_singleton.1 met)
    exact ⟨rfl, [], rfl, fun _ => List.not_mem_nil⟩
  · intro path v events _ outcome
    exact Report.faultLast_of_none (fault_not_mem_outcome outcome)
  · intro path v events next _ outcome below
    exact .andThen (Report.faultLast_of_none (fault_not_mem_outcome outcome)) below

end Visit

end Stratagem
