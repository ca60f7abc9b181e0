import Stratagem.Arbiter
import Stratagem.Proofs.Walk.Decision
import Stratagem.Proofs.Walk.Path

/-!
# Recursive exploration

The visits of an evaluation by plain recursion: a visit at the end of a path first asks the guard
about that path alone, then makes its outcome, then explores every visit that follows from it, in
wiring order, each at the end of the path made longer by this visit. The first fault and the first
Error node that ends the evaluation end everything.

* `Report` is what a part of an evaluation comes to, and `Report.andThen` puts two parts together.
* `Visit.explore` is the recursion; `explore_of_fault`, `explore_of_halt` and `explore_of_onward`
  are its three equations, and every later proof goes through them.
* `explore_induction`: what holds of a visit if it holds of all that follow it past the guard holds
  of every visit; `explore_closed` is the same for what reports keep when they are put together.
* `Arbiter.exploration` explores the graph of a rule from its Start node.
-/

namespace Stratagem

/-! ## Reports -/

/-- A visit at the end of a path. -/
structure Arrival where
  visit : Visit
  /-- The visits before it, the nearest first. -/
  path : List Visit
deriving DecidableEq, Repr

/-- The path with the visit at its end. -/
def Arrival.walk (x : Arrival) : List Visit := x.visit :: x.path

/-- What a part of an evaluation comes to. -/
structure Report where
  /-- The visits that were made or refused by the guard, in order. -/
  arrivals : List Arrival
  events : List Event
  /-- Whether the whole evaluation ends with this part. -/
  ended : Bool

namespace Report

def nothing : Report := ⟨[], [], false⟩

/-- One part of an evaluation and, unless it ends the whole, another after it. -/
def andThen (a b : Report) : Report :=
  if a.ended then a else ⟨a.arrivals ++ b.arrivals, a.events ++ b.events, b.ended⟩

variable {a b : Report}

theorem andThen_of_ended (h : a.ended = true) : a.andThen b = a := if_pos h

theorem andThen_of_goes_on (h : a.ended = false) :
    a.andThen b = ⟨a.arrivals ++ b.arrivals, a.events ++ b.events, b.ended⟩ := by
  rw [andThen, h]
  rfl

@[simp]
theorem nothing_andThen : nothing.andThen b = b := rfl

@[simp]
theorem andThen_nothing : a.andThen nothing = a := by
  cases h : a.ended with
  | true => exact andThen_of_ended h
  | false =>
    rw [andThen_of_goes_on h]
    cases a
    simp_all [nothing]

theorem andThen_assoc (a b c : Report) : (a.andThen b).andThen c = a.andThen (b.andThen c) := by
  cases ha : a.ended with
  | true => rw [andThen_of_ended ha, andThen_of_ended ha, andThen_of_ended ha]
  | false =>
    rw [andThen_of_goes_on ha, andThen_of_goes_on ha]
    cases hb : b.ended with
    | true => rw [andThen_of_ended rfl, andThen_of_ended hb, hb]
    | false =>
      rw [andThen_of_goes_on hb, andThen_of_goes_on rfl]
      simp only [List.append_assoc]

theorem ended_andThen : (a.andThen b).ended = (a.ended || b.ended) := by
  cases h : a.ended with
  | true => rw [andThen_of_ended h, h, Bool.true_or]
  | false => rw [andThen_of_goes_on h, Bool.false_or]

theorem mem_arrivals_of_andThen {x : Arrival} (h : x ∈ (a.andThen b).arrivals) :
    x ∈ a.arrivals ∨ x ∈ b.arrivals := by
  cases ha : a.ended with
  | true => exact .inl (andThen_of_ended ha ▸ h)
  | false =>
    rw [andThen_of_goes_on ha] at h
    exact List.mem_append.1 h

/-- What comes first is met, whatever comes after it. -/
theorem arrivals_subset_andThen : a.arrivals ⊆ (a.andThen b).arrivals := by
  cases ha : a.ended with
  | true => rw [andThen_of_ended ha]; exact List.Subset.refl _
  | false => rw [andThen_of_goes_on ha]; exact List.subset_append_left _ _

theorem events_subset_andThen : a.events ⊆ (a.andThen b).events := by
  cases ha : a.ended with
  | true => rw [andThen_of_ended ha]; exact List.Subset.refl _
  | false => rw [andThen_of_goes_on ha]; exact List.subset_append_left _ _

def verdict (r : Report) : Verdict := .ofEvents r.events

theorem errors_andThen_of_goes_on (h : a.ended = false) :
    (a.andThen b).verdict.errors = a.verdict.errors ++ b.verdict.errors := by
  rw [andThen_of_goes_on h]
  exact Verdict.errors_ofEvents_append a.events b.events

end Report

/-! ## The recursion -/

/-- What a visit leads to is explored within fewer entries, or there is nothing to explore. -/
theorem allowance_descends {e : Evaluation} {g : RuleGraph} {v : Visit} {path : List Visit}
    {events : List Event} {next : List Visit} (entering : v.fault? e path = none)
    (outcome : v.outcome e g = (events, some next)) :
    Prod.Lex (· < ·) (· < ·) (allowance e g (v :: path), 2 * next.length)
      (allowance e g path, 1) := by
  cases next with
  | nil =>
    -- nothing follows: the entries may stay as they are, since no visit is left to explore
    rcases Nat.lt_or_eq_of_le (allowance_cons_le e g v path) with lt | eq
    · exact .left _ _ lt
    · rw [eq]
      exact .right _ Nat.one_pos
  | cons w rest =>
    have leads : v.Leads e g w := (Visit.mem_iff_leads outcome).1 List.mem_cons_self
    exact .left _ _ (allowance_lt_of_leads entering leads)

namespace Visit

mutual

/-- The visit `v` at the end of a path, with all that follows from it. -/
def explore (e : Evaluation) (g : RuleGraph) (path : List Visit) (v : Visit) : Report :=
  match _entering : v.fault? e path with
  | some fault => ⟨[⟨v, path⟩], [.fault (fault.toRuleFault e v.node)], true⟩
  | none =>
    match _outcome : v.outcome e g with
    | (events, none) => ⟨[⟨v, path⟩], events, true⟩
    | (events, some next) =>
      Report.andThen ⟨[⟨v, path⟩], events, false⟩ (exploreAll e g (v :: path) next)
termination_by (allowance e g path, 1)
decreasing_by exact allowance_descends _entering _outcome

/-- Several visits at the end of one path, one after the other. -/
def exploreAll (e : Evaluation) (g : RuleGraph) (path : List Visit) : List Visit → Report
  | [] => .nothing
  | v :: rest => (explore e g path v).andThen (exploreAll e g path rest)
termination_by next => (allowance e g path, 2 * next.length)
decreasing_by
  · exact .right _ (by simp only [List.length_cons]; omega)
  · exact .right _ (by simp only [List.length_cons]; omega)

end

variable {e : Evaluation} {g : RuleGraph} {v w : Visit} {path : List Visit}
variable {events : List Event} {next : List Visit}

theorem explore_of_fault {fault : GuardFault} (refused : v.fault? e path = some fault) :
    v.explore e g path = ⟨[⟨v, path⟩], [.fault (fault.toRuleFault e v.node)], true⟩ := by
  rw [explore]
  split
  · next other refused' =>
    obtain rfl := Option.some.inj (refused.symm.trans refused')
    rfl
  · next entering =>
    rw [refused] at entering
    cases entering

theorem explore_of_halt (entering : v.fault? e path = none)
    (outcome : v.outcome e g = (events, none)) :
    v.explore e g path = ⟨[⟨v, path⟩], events, true⟩ := by
  rw [explore]
  split
  · next other refused =>
    rw [entering] at refused
    cases refused
  · split
    · next events' outcome' =>
      rw [outcome] at outcome'
      cases outcome'
      rfl
    · next outcome' =>
      rw [outcome] at outcome'
      cases outcome'

theorem explore_of_onward (entering : v.fault? e path = none)
    (outcome : v.outcome e g = (events, some next)) :
    v.explore e g path =
      Report.andThen ⟨[⟨v, path⟩], events, false⟩ (exploreAll e g (v :: path) next) := by
  rw [explore]
  split
  · next other refused =>
    rw [entering] at refused
    cases refused
  · split
    · next outcome' =>
      rw [outcome] at outcome'
      cases outcome'
    · next outcome' =>
      rw [outcome] at outcome'
      cases outcome'
      rfl

@[simp]
theorem exploreAll_nil : exploreAll e g path [] = .nothing := by
  rw [exploreAll]

@[simp]
theorem exploreAll_cons :
    exploreAll e g path (v :: next) = (v.explore e g path).andThen (exploreAll e g path next) := by
  rw [exploreAll]

theorem explore_cases (e : Evaluation) (g : RuleGraph) (path : List Visit) (v : Visit) :
    (∃ fault, v.fault? e path = some fault) ∨
    (∃ events, v.fault? e path = none ∧ v.outcome e g = (events, none)) ∨
    (∃ events next, v.fault? e path = none ∧ v.outcome e g = (events, some next)) := by
  cases entering : v.fault? e path with
  | some fault => exact .inl ⟨fault, rfl⟩
  | none =>
    rcases outcome : v.outcome e g with ⟨events, _ | next⟩
    · exact .inr (.inl ⟨events, rfl, rfl⟩)
    · exact .inr (.inr ⟨events, next, rfl, rfl⟩)

theorem exploreAll_ended_iff :
    (exploreAll e g path next).ended = true ↔
      ∃ w ∈ next, (w.explore e g path).ended = true := by
  induction next with
  | nil => simp [Report.nothing]
  | cons u next ih =>
    rw [exploreAll_cons, Report.ended_andThen, Bool.or_eq_true, ih]
    simp only [List.mem_cons, exists_eq_or_imp]

/-- Where no exploration ends the evaluation, what they leave stands side by side. -/
theorem exploreAll_events_of_goes_on
    (each : ∀ w ∈ next, (w.explore e g path).ended = false) :
    (exploreAll e g path next).events = next.flatMap fun w => (w.explore e g path).events := by
  induction next with
  | nil => simp [Report.nothing]
  | cons u next ih =>
    have here : (u.explore e g path).ended = false := each u List.mem_cons_self
    have there := ih fun w hw => each w (List.mem_cons_of_mem _ hw)
    rw [exploreAll_cons, Report.andThen_of_goes_on here, List.flatMap_cons, ← there]

/-- An exploration goes on to its end exactly if its visit is entered and goes on to visits whose
explorations do. -/
theorem explore_goes_on_iff :
    (v.explore e g path).ended = false ↔
      v.fault? e path = none ∧ ∃ events next, v.outcome e g = (events, some next) ∧
        ∀ w ∈ next, (w.explore e g (v :: path)).ended = false := by
  rcases explore_cases e g path v with
    ⟨fault, refused⟩ | ⟨events, entering, outcome⟩ | ⟨events, next, entering, outcome⟩
  · rw [explore_of_fault refused, refused]
    simp
  · rw [explore_of_halt entering outcome, outcome]
    simp
  · have below : (exploreAll e g (v :: path) next).ended = false ↔
        ∀ w ∈ next, (w.explore e g (v :: path)).ended = false := by
      rw [← Bool.not_eq_true, exploreAll_ended_iff]
      simp
    rw [explore_of_onward entering outcome, Report.ended_andThen, Bool.false_or, below]
    constructor
    · exact fun each => ⟨entering, events, next, outcome, each⟩
    · rintro ⟨-, events', next', outcome', each⟩
      obtain ⟨rfl, rfl⟩ := Prod.mk.inj (outcome.symm.trans outcome') |>.imp_right Option.some.inj
      exact each

theorem explore_events_of_goes_on (entering : v.fault? e path = none)
    (outcome : v.outcome e g = (events, some next))
    (each : ∀ w ∈ next, (w.explore e g (v :: path)).ended = false) :
    (v.explore e g path).events =
      events ++ next.flatMap fun w => (w.explore e g (v :: path)).events := by
  rw [explore_of_onward entering outcome, Report.andThen_of_goes_on rfl,
    exploreAll_events_of_goes_on each]

/-- Induction along the recursion: the visits that follow one past the guard come before it. -/
theorem explore_induction {motive : List Visit → Visit → Prop}
    (visit : ∀ path v, (∀ w, v.fault? e path = none → v.Leads e g w → motive (v :: path) w) →
      motive path v) (path : List Visit) (v : Visit) : motive path v := by
  induction h : allowance e g path using Nat.strongRecOn generalizing path v with
  | ind n ih =>
    refine visit path v fun w entering leads => ?_
    exact ih _ (h ▸ allowance_lt_of_leads entering leads) (v :: path) w rfl

/-- What a report keeps when parts are put together, at the end of each path. It then holds of
every exploration if it holds of a visit that is refused, of one that ends the evaluation, and of
one that goes on whenever it holds of all that follow together. -/
theorem explore_closed {P : List Visit → Report → Prop} (nothing : ∀ path, P path .nothing)
    (andThen : ∀ path a b, P path a → P path b → P path (a.andThen b))
    (refuse : ∀ path v fault, v.fault? e path = some fault →
      P path ⟨[⟨v, path⟩], [.fault (fault.toRuleFault e v.node)], true⟩)
    (halt : ∀ path v events, v.fault? e path = none → v.outcome e g = (events, none) →
      P path ⟨[⟨v, path⟩], events, true⟩)
    (onward : ∀ path v events next, v.fault? e path = none →
      v.outcome e g = (events, some next) → P (v :: path) (exploreAll e g (v :: path) next) →
      P path (Report.andThen ⟨[⟨v, path⟩], events, false⟩ (exploreAll e g (v :: path) next)))
    (path : List Visit) (v : Visit) : P path (v.explore e g path) := by
  induction path, v using explore_induction (e := e) (g := g) with
  | visit path v ih =>
    rcases explore_cases e g path v with
      ⟨fault, refused⟩ | ⟨events, entering, outcome⟩ | ⟨events, next, entering, outcome⟩
    · rw [explore_of_fault refused]
      exact refuse path v fault refused
    · rw [explore_of_halt entering outcome]
      exact halt path v events entering outcome
    · rw [explore_of_onward entering outcome]
      refine onward path v events next entering outcome ?_
      have each : ∀ w ∈ next, P (v :: path) (w.explore e g (v :: path)) := by
        intro w hw
        exact ih w entering ((mem_iff_leads outcome).1 hw)
      -- a second induction, on the visits that follow, puts their reports together
      clear outcome
      induction next with
      | nil =>
        rw [exploreAll_nil]
        exact nothing (v :: path)
      | cons w rest together =>
        rw [exploreAll_cons]
        refine andThen _ _ _ (each w List.mem_cons_self) (together fun u hu => ?_)
        exact each u (List.mem_cons_of_mem _ hu)

end Visit

/-! ## Judging by exploration -/

namespace Arbiter

/-- Where the evaluation of a rule begins, or the fault that keeps it from beginning. -/
def entry (a : Arbiter) (rule : String) : Except RuleFault (RuleGraph × NodeId) :=
  match a.rules rule with
  | none => .error (.unknownRule rule)
  | some g =>
    match g.start? with
    | none => .error (.missingStart rule)
    | some start => .ok (g, start)

/-- The report of judging a rule by plain recursion. -/
def exploration (a : Arbiter) (world : World) (rule : String) (scheme : Option Scheme)
    (p : Parties) : Report :=
  match a.entry rule with
  | .error fault => ⟨[], [.fault fault], true⟩
  | .ok (g, start) => (Visit.first start p).explore (a.evaluation world rule scheme) g []

variable {a : Arbiter} {rule : String} {g : RuleGraph} {start : NodeId}

theorem entry_eq_ok_iff :
    a.entry rule = .ok (g, start) ↔ a.rules rule = some g ∧ g.start? = some start := by
  unfold entry
  cases a.rules rule with
  | none => simp
  | some h =>
    simp only [Option.some.injEq]
    cases hs : h.start? with
    | none =>
      constructor
      · exact fun h => nomatch h
      · rintro ⟨rfl, hs'⟩
        rw [hs] at hs'
        cases hs'
    | some s =>
      simp only [Except.ok.injEq, Prod.mk.injEq]
      constructor
      · rintro ⟨rfl, rfl⟩
        exact ⟨rfl, hs⟩
      · rintro ⟨rfl, hs'⟩
        exact ⟨rfl, Option.some.inj (hs.symm.trans hs')⟩

end Arbiter

end Stratagem
