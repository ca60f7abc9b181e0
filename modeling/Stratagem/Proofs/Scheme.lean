import Stratagem.Proofs.Walk.Lockstep

/-!
# Checking a scheme

A scheme is checked by judging its rule, unless a target is missing or out of place. A method of the
host sees which scheme is being checked, and nothing else in an evaluation does: where no method
takes notice, the check is the judging of the rule on its own.

* `Bridge.IgnoresScheme`: no method answers otherwise when another scheme, or none, is being checked.
* `Event.under` and `Evaluation.under` put a scheme in place, and `Visit.outcome_under` says what that
  does to a visit. `Arbiter.events_under` carries it through whole evaluations.
* `Visit.asked_explore`: what is asked of the host in an exploration, visit by visit.
* `Scheme.check_exact` is the result.
-/

namespace Stratagem

/-! ## Methods that take no notice of schemes -/

/-- The answers are the same whatever scheme is being checked, if any. -/
def Registration.IgnoresScheme (r : Registration) : Prop :=
  ∀ (ctx : Context) (scheme : Option Scheme), r.answer { ctx with scheme } = r.answer ctx

/-- No method takes notice of the scheme that is being checked. -/
def Bridge.IgnoresScheme (b : Bridge) : Prop := ∀ r ∈ b.registrations, r.IgnoresScheme

/-- A method on a pair does not see the scheme. -/
theorem Registration.ignoresScheme_of_pair {r : Registration}
    (pair : r.signature.call = .actorPair) : r.IgnoresScheme := by
  obtain ⟨⟨name, owner, call, returns⟩, provider⟩ := r
  cases pair
  exact fun _ _ => rfl

theorem Bridge.IgnoresScheme.invoke {b : Bridge} (ignores : b.IgnoresScheme) (method : String)
    (ctx : Context) (scheme : Option Scheme) :
    b.invoke method { ctx with scheme } = b.invoke method ctx :=
  Option.bind_congr fun r bound => ignores r (mem_of_provider? bound).1 ctx scheme

/-! ## One evaluation under different schemes -/

/-- The event as it is recorded when a scheme is being checked, or none: methods are asked in the
context of that. -/
def Event.under (scheme : Option Scheme) : Event → Event
  | .asked method context => .asked method { context with scheme }
  | .warning node message => .warning node message
  | .error node message => .error node message
  | .fault f => .fault f

/-- Schemes are no part of messages and faults. -/
theorem Verdict.ofEvents_under (scheme : Option Scheme) (events : List Event) :
    Verdict.ofEvents (events.map (Event.under scheme)) = Verdict.ofEvents events := by
  have warnings : Event.warning? ∘ Event.under scheme = Event.warning? := by
    funext x
    cases x <;> rfl
  have errors : Event.error? ∘ Event.under scheme = Event.error? := by
    funext x
    cases x <;> rfl
  simp only [Verdict.ofEvents, List.filterMap_map, warnings, errors]

/-- The evaluation as it is when a scheme is being checked, or none. -/
def Evaluation.under (e : Evaluation) (scheme : Option Scheme) : Evaluation := { e with scheme }

namespace Visit

variable {e : Evaluation} {g : RuleGraph} {v : Visit} {kind : NodeKind}

theorem events_under (scheme : Option Scheme) :
    v.events (e.under scheme) kind = (v.events e kind).map (Event.under scheme) := by
  have remark : v.remark? (e.under scheme) kind = (v.remark? e kind).map (Event.under scheme) := by
    cases kind <;> rfl
  rw [events, events, remark, List.map_append]
  cases v.asks? kind <;> cases v.remark? e kind <;> rfl

/-- Under another scheme a visit asks the same method, in the context of that scheme, leaves the same
message and leads to the same visits. -/
theorem outcome_under (ignores : e.bridge.IgnoresScheme) (scheme : Option Scheme) :
    v.outcome (e.under scheme) g =
      ((v.outcome e g).1.map (Event.under scheme), (v.outcome e g).2) := by
  unfold outcome
  cases g.kind? v.node with
  | none => rfl
  | some kind =>
    have decided : v.decide (e.under scheme) kind = v.decide e kind :=
      decide_congr rfl fun method _ => ⟨rfl, ignores.invoke method (e.context v.parties) scheme⟩
    simp only [decided, events_under]

end Visit

/-- The same evaluation under two schemes goes in lockstep. -/
theorem Lockstep.under {e : Evaluation} (ignores : e.bridge.IgnoresScheme) (g : RuleGraph)
    (scheme : Option Scheme) :
    Lockstep e (e.under scheme) g g (· = ·) (fun x x' => x.under scheme = x') where
  guard := by
    rintro v _ path path' rfl same
    rw [List.forall₂_eq_eq_eq] at same
    rw [same]
    rfl
  fault := by
    rintro v _ refusal rfl
    rfl
  events := by
    rintro v _ rfl
    rw [Visit.outcome_under ignores, ← List.forall₂_map_left_iff, List.forall₂_eq_eq_eq]
  onward := by
    rintro v _ rfl
    rw [Visit.outcome_under ignores]
    cases (v.outcome e g).2 with
    | none => exact .none
    | some next => exact .some (List.forall₂_refl next)

/-- Where no method takes notice, a rule is judged for a scheme as it is judged on its own, but that
methods are asked in the context of the scheme. -/
theorem Arbiter.events_under {a : Arbiter} (ignores : a.bridge.IgnoresScheme) (world : World)
    (rule : String) (scheme : Option Scheme) (p : Parties) :
    a.events world rule scheme p = (a.events world rule none p).map (Event.under scheme) := by
  cases known : a.rules rule with
  | none => simp only [events, known, List.map_cons, List.map_nil, Event.under]
  | some g =>
    have lockstep := Lockstep.under (e := a.evaluation world rule none) ignores g scheme
    have paired : List.Forall₂ (fun x x' => Event.under scheme x = x')
        (a.events world rule none p) (a.events world rule scheme p) :=
      events_paired known known rfl rfl (fun _ _ => rfl) lockstep
    rw [← List.forall₂_map_left_iff, List.forall₂_eq_eq_eq] at paired
    exact paired.symm

/-! ## What is asked of the host -/

/-- The method that is asked at an arrival, and the context that it is asked in. A visit that the
guard refuses asks none. -/
def Arrival.asked? (e : Evaluation) (g : RuleGraph) (x : Arrival) : Option (String × Context) :=
  if (x.visit.fault? e x.path).isSome then none
  else (g.kind? x.visit.node).bind fun kind =>
    (x.visit.asks? kind).map fun method => (method, e.context x.visit.parties)

namespace Visit

variable {e : Evaluation} {g : RuleGraph} {v : Visit}

theorem asked_outcome : (v.outcome e g).1.filterMap Event.asked? =
    ((g.kind? v.node).bind fun kind =>
      (v.asks? kind).map fun method => (method, e.context v.parties)).toList := by
  unfold outcome
  cases g.kind? v.node with
  | none => rfl
  | some kind =>
    have unasked : (v.remark? e kind).toList.filterMap Event.asked? = [] := by
      cases kind <;> rfl
    show (v.events e kind).filterMap Event.asked? = _
    rw [events, List.filterMap_append, unasked, List.append_nil, Option.bind_some]
    cases v.asks? kind <;> rfl

/-- The host is asked at the visits that are made, in their order, and nowhere else. -/
theorem asked_explore (path : List Visit) (v : Visit) :
    (v.explore e g path).events.filterMap Event.asked? =
      (v.explore e g path).arrivals.filterMap (Arrival.asked? e g) := by
  have one : ∀ x : Arrival,
      [x].filterMap (Arrival.asked? e g) = (Arrival.asked? e g x).toList := by
    intro x
    rw [List.filterMap_cons]
    cases Arrival.asked? e g x <;> rfl
  -- a visit that is made asks alike whether or not it ends the evaluation
  have made : ∀ {path v events next}, v.fault? e path = none → v.outcome e g = (events, next) →
      events.filterMap Event.asked? = [(⟨v, path⟩ : Arrival)].filterMap (Arrival.asked? e g) := by
    intro path v events next entering outcome
    have asked := asked_outcome (e := e) (g := g) (v := v)
    rw [outcome] at asked
    rw [asked, one, Arrival.asked?, entering]
    rfl
  refine explore_closed (P := fun _ r => r.events.filterMap Event.asked? =
    r.arrivals.filterMap (Arrival.asked? e g)) ?_ ?_ ?_ ?_ ?_ path v
  · exact fun _ => rfl
  · intro _ a b ha hb
    cases ended : a.ended with
    | true =>
      rw [Report.andThen_of_ended ended]
      exact ha
    | false =>
      rw [Report.andThen_of_goes_on ended, List.filterMap_append, List.filterMap_append, ha, hb]
  · intro path v fault refused
    rw [one, Arrival.asked?, refused]
    rfl
  · intro path v events entering outcome
    exact made entering outcome
  · intro path v events next entering outcome below
    rw [Report.andThen_of_goes_on rfl, List.filterMap_append, List.filterMap_append, below]
    rw [made entering outcome]

end Visit

/-- What is asked when a rule is judged is asked at a visit that the judging makes, at the end of a
walk of the graph, in the context of the parties of that visit. -/
theorem Arbiter.exists_visit_of_asked {a : Arbiter} {world : World} {rule : String}
    {scheme : Option Scheme} {p : Parties} {method : String} {ctx : Context}
    (asked : .asked method ctx ∈ a.events world rule scheme p) :
    ∃ g start path v kind, a.entry rule = .ok (g, start) ∧
      WalkPath (a.evaluation world rule scheme) g (.first start p) path v ∧
      (path.map Visit.situation, v) ∈ a.arrivals world rule scheme p ∧
      g.kind? v.node = some kind ∧ v.asks? kind = some method ∧
      (a.evaluation world rule scheme).context v.parties = ctx := by
  cases entry : a.entry rule with
  | error fault =>
    rw [events_eq_entry, entry] at asked
    cases List.mem_singleton.1 asked
  | ok entered =>
    obtain ⟨g, start⟩ := entered
    rw [events_of_entry entry] at asked
    have listed : (method, ctx) ∈ ((Visit.first start p).explore (a.evaluation world rule scheme) g
        []).events.filterMap Event.asked? := List.mem_filterMap.2 ⟨_, asked, rfl⟩
    rw [Visit.asked_explore] at listed
    obtain ⟨x, met, here⟩ := List.mem_filterMap.1 listed
    unfold Arrival.asked? at here
    split at here
    · cases here
    · obtain ⟨kind, known, here⟩ := Option.bind_eq_some_iff.1 here
      obtain ⟨_, asks, same⟩ := Option.map_eq_some_iff.1 here
      obtain ⟨rfl, rfl⟩ := Prod.mk.inj same
      refine ⟨g, start, x.path, x.visit, kind, rfl, .of_mem_arrivals .start met, ?_, known, asks,
        rfl⟩
      rw [arrivals_of_entry entry]
      exact List.mem_map_of_mem met

/-! ## Checking a scheme -/

namespace Scheme

variable {s : Scheme} {a : Arbiter} {world : World} {p : Parties}

/-- A target is missing or out of place exactly if there is none for a scheme that needs one, or one
for a scheme that takes none. -/
theorem targetFault?_eq (s : Scheme) (target : Option Actor) :
    s.targetFault? target =
      if s.solitary = target.isNone then none
      else some (if s.solitary then .targetNotAllowed s.id else .targetRequired s.id) := by
  unfold targetFault?
  cases s.solitary <;> cases target <;> rfl

theorem events_of_fits (fits : s.solitary = p.target.isNone) :
    s.events a world p = a.events world s.ruleId (some s) p := by
  rw [events, targetFault?_eq, if_pos fits]

theorem events_of_unfit (unfit : s.solitary ≠ p.target.isNone) :
    s.events a world p =
      [.fault (if s.solitary then .targetNotAllowed s.id else .targetRequired s.id)] := by
  rw [events, targetFault?_eq, if_neg unfit]

/-- A check fails with one error, no warning and no question to the host if a target is missing or
out of place, whatever else there is. Otherwise it is the judging of the rule for the scheme; and if
no method takes notice of the scheme, that comes to what the rule comes to on its own, with the same
record but for the scheme in the contexts. Whatever the host is asked, it is asked in a context that
has the scheme, its rule and the world, and the parties of the visit at which it is asked. -/
theorem check_exact (s : Scheme) (a : Arbiter) (world : World) (p : Parties) :
    (s.solitary ≠ p.target.isNone →
      (s.check a world p).state = "Failed" ∧ (s.check a world p).warnings = [] ∧
      (s.check a world p).errors =
        [if s.solitary then "scheme '" ++ s.id ++ "' does not take a target"
          else "scheme '" ++ s.id ++ "' requires a target"] ∧
      ∀ method ctx, .asked method ctx ∉ s.events a world p) ∧
    (s.solitary = p.target.isNone →
      s.events a world p = a.events world s.ruleId (some s) p ∧
      s.check a world p = a.judgeScheme world s p ∧
      (a.bridge.IgnoresScheme →
        s.events a world p = (a.events world s.ruleId none p).map (Event.under (some s)) ∧
        s.check a world p = a.judge world s.ruleId p)) ∧
    ∀ method ctx, .asked method ctx ∈ s.events a world p →
      ctx.rule = s.ruleId ∧ ctx.scheme = some s ∧ ctx.world = world ∧
      ∃ g start path v kind, a.entry s.ruleId = .ok (g, start) ∧
        WalkPath (a.evaluation world s.ruleId (some s)) g (.first start p) path v ∧
        (path.map Visit.situation, v) ∈ a.arrivals world s.ruleId (some s) p ∧
        g.kind? v.node = some kind ∧ v.asks? kind = some method ∧
        ctx.conspirator = v.parties.conspirator ∧ ctx.target = v.parties.target := by
  have unasked : s.solitary ≠ p.target.isNone →
      ∀ method ctx, .asked method ctx ∉ s.events a world p := by
    intro unfit method ctx asked
    rw [events_of_unfit unfit] at asked
    cases List.mem_singleton.1 asked
  refine ⟨?_, ?_, ?_⟩
  · intro unfit
    have check : s.check a world p = .ofEvents
        [.fault (if s.solitary then .targetNotAllowed s.id else .targetRequired s.id)] :=
      congrArg Verdict.ofEvents (events_of_unfit unfit)
    rw [check]
    refine ⟨rfl, rfl, ?_, unasked unfit⟩
    cases s.solitary <;> rfl
  · intro fits
    have events : s.events a world p = a.events world s.ruleId (some s) p := events_of_fits fits
    refine ⟨events, congrArg Verdict.ofEvents events, fun ignores => ?_⟩
    have under := events.trans (Arbiter.events_under ignores world s.ruleId (some s) p)
    refine ⟨under, ?_⟩
    show Verdict.ofEvents (s.events a world p) = _
    rw [under, Verdict.ofEvents_under]
    rfl
  · intro method ctx asked
    by_cases fits : s.solitary = p.target.isNone
    · rw [events_of_fits fits] at asked
      obtain ⟨g, start, path, v, kind, entry, walk, met, known, asks, rfl⟩ :=
        Arbiter.exists_visit_of_asked asked
      exact ⟨rfl, rfl, rfl, g, start, path, v, kind, entry, walk, met, known, asks, rfl, rfl⟩
    · exact absurd asked (unasked fits method ctx)

/-- The host first names another target and is then asked about the pair, without a look at the
scheme: a bribe comes to what its rule comes to. The second question sees the bribe and the new
target. Without a target nothing is asked, and the rule is not even looked for. -/
theorem check_exact_bribe :
    let rich : RuleGraph :=
      { document :=
          { id := "rich"
            nodes := [.start, .invoke "rival", .invoke "affords", .warning "tight"]
            wires := [⟨0, .run, 1, some .target⟩, ⟨1, .true, 2, some .dual⟩, ⟨2, .false, 3, none⟩] }
        wellFormed := (GraphDocument.violation?_eq_none_iff _).1 rfl }
    let ada := Actor.create ⟨⟨1⟩⟩ "Ada" .female
    let bob := Actor.create ⟨⟨2⟩⟩ "Bob" .male
    let eve := Actor.create ⟨⟨3⟩⟩ "Eve" .female
    let rival : Registration :=
      { signature := ⟨"rival", "Court", .scheme, .actor⟩, provider := some fun _ => some eve.id }
    let affords : Registration :=
      { signature := ⟨"affords", "Treasury", .actorPair, .bool⟩
        provider := some fun ((c, t, _) : Actor × Actor × World) => some (c.name == t.name) }
    let a : Arbiter := { rules := fun _ => some rich, bridge := ⟨[rival, affords]⟩ }
    let world := World.empty.addActor eve
    let bribe := Scheme.create "bribe" "Bribe" "rich"
    let p : Parties := ⟨ada, some bob⟩
    (bribe.check a world p = a.judge world "rich" p ∧
      (bribe.check a world p).errors = [] ∧ (bribe.check a world p).warnings.length = 1 ∧
      ∃ ctx, .asked "affords" ctx ∈ bribe.events a world p ∧ ctx.scheme = some bribe ∧
        ctx.target.map (·.name) = some "Eve") ∧
    ∀ rules, (bribe.check { a with rules } world ⟨ada, none⟩).errors =
      ["scheme 'bribe' requires a target"] := by
  intro rich ada bob eve rival affords a world bribe p
  have ignores : a.bridge.IgnoresScheme := by
    intro r registered
    rcases List.mem_pair.1 registered with rfl | rfl
    · exact fun _ _ => rfl
    · exact Registration.ignoresScheme_of_pair rfl
  obtain ⟨-, judged, seen⟩ := check_exact bribe a world p
  have alone := ((judged rfl).2.2 ignores).2
  refine ⟨⟨alone, by decide +kernel, by decide +kernel, ?_⟩, fun rules => ?_⟩
  · have questions : (bribe.events a world p).filterMap
        (fun x => x.asked?.map fun q => (q.1, q.2.target.map (·.name))) =
          [("rival", some "Bob"), ("affords", some "Eve")] := by decide +kernel
    have second : ("affords", some "Eve") ∈ (bribe.events a world p).filterMap
        (fun x => x.asked?.map fun q => (q.1, q.2.target.map (·.name))) := by
      rw [questions]
      exact List.mem_pair.2 (.inr rfl)
    obtain ⟨x, asked, question⟩ := List.mem_filterMap.1 second
    cases x with
    | asked method ctx =>
      obtain ⟨rfl, target⟩ := Prod.mk.inj (Option.some.inj question)
      exact ⟨ctx, asked, (seen _ ctx asked).2.1, target⟩
    | warning | error | fault => cases question
  · exact ((check_exact bribe { a with rules } world ⟨ada, none⟩).1 nofun).2.2.1

end Scheme

end Stratagem
