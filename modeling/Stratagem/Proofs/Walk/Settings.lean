import Stratagem.Proofs.Walk.Guard

/-!
# The same walk under other settings

Two settings decide how far an evaluation goes: whether the first Error node ends it, and how often
a path may enter a node. Neither changes what is recorded on the way there.

* `Report.KeepsPace`: one report goes as another does until, perhaps, it breaks off.
  `explore_keepsPace` has it for two explorations of one graph if it holds of single visits.
* `Arbiter.stopping_cuts_short`: ending at the first error keeps the outcome and the first error,
  and drops only what comes after it.
* `Arbiter.raising_limit_keeps`: a higher limit changes nothing unless the lower one was exceeded,
  and then keeps everything that was found before.
-/

namespace Stratagem

/-! ## Two explorations in step -/

/-- One report goes as another does, or breaks off at a last event where the other goes on with
what is kept of it. -/
inductive Report.KeepsPace (Breaks : Event → List Event → Prop) (a b : Report) : Prop
  | alike : a.events = b.events → a.ended = b.ended → KeepsPace Breaks a b
  | brokenOff (before kept : List Event) (last : Event) :
      a.ended = true → a.events = before ++ [last] → Breaks last kept →
      before ++ kept <+: b.events → KeepsPace Breaks a b

namespace Report

variable {Breaks : Event → List Event → Prop} {a b a' b' : Report}

theorem events_prefix_andThen : a.events <+: (a.andThen b).events := by
  cases h : a.ended with
  | true => simp only [andThen_of_ended h, List.prefix_refl]
  | false =>
    rw [andThen_of_goes_on h]
    exact List.prefix_append _ _

theorem KeepsPace.andThen (ha : KeepsPace Breaks a a') (hb : KeepsPace Breaks b b') :
    KeepsPace Breaks (a.andThen b) (a'.andThen b') := by
  cases ha with
  | brokenOff before kept last ended own breaks shared =>
    -- what broke off has no second part, and the other only goes further
    rw [andThen_of_ended ended]
    exact .brokenOff before kept last ended own breaks (shared.trans events_prefix_andThen)
  | alike events ended =>
    cases h : a'.ended with
    | true =>
      rw [andThen_of_ended h, andThen_of_ended (ended.trans h)]
      exact .alike events ended
    | false =>
      rw [andThen_of_goes_on h, andThen_of_goes_on (ended.trans h), events]
      cases hb with
      | alike events' ended' => exact .alike (congrArg (a'.events ++ ·) events') ended'
      | brokenOff before kept last ended' own breaks shared =>
        refine .brokenOff (a'.events ++ before) kept last ended' ?_ breaks ?_
        · show a'.events ++ b.events = _
          rw [own, List.append_assoc]
        · rw [List.append_assoc]
          exact (List.prefix_append_right_inj _).2 shared

end Report

/-- A visit at the end of a path does the same in two evaluations. -/
structure Visit.SameStep (e e' : Evaluation) (g : RuleGraph) (path : List Visit) (v : Visit) :
    Prop where
  guard : v.fault? e path = v.fault? e' path
  wording : ∀ fault, v.fault? e path = some fault →
    fault.toRuleFault e v.node = fault.toRuleFault e' v.node
  outcome : v.fault? e path = none → v.outcome e g = v.outcome e' g

section

variable {Breaks : Event → List Event → Prop} {e e' : Evaluation} {g : RuleGraph}
variable {path next : List Visit}

theorem exploreAll_keepsPace
    (each : ∀ w ∈ next, (w.explore e g path).KeepsPace Breaks (w.explore e' g path)) :
    (Visit.exploreAll e g path next).KeepsPace Breaks (Visit.exploreAll e' g path next) := by
  induction next with
  | nil => simpa using .alike rfl rfl
  | cons w next ih =>
    rw [Visit.exploreAll_cons, Visit.exploreAll_cons]
    exact .andThen (each w List.mem_cons_self) (ih fun u hu => each u (List.mem_cons_of_mem _ hu))

/-- Two explorations keep pace if every visit does the same in both or breaks off at once. -/
theorem explore_keepsPace
    (step : ∀ (path : List Visit) (v : Visit), v.SameStep e e' g path ∨
      ∃ last kept, (v.explore e g path).ended = true ∧ (v.explore e g path).events = [last] ∧
        Breaks last kept ∧ kept <+: (v.explore e' g path).events)
    (path : List Visit) (v : Visit) :
    (v.explore e g path).KeepsPace Breaks (v.explore e' g path) := by
  induction path, v using Visit.explore_induction (e := e) (g := g) with
  | visit path v ih =>
    rcases step path v with same | ⟨last, kept, ended, own, breaks, shared⟩
    · rcases Visit.explore_cases e g path v with
        ⟨fault, refused⟩ | ⟨events, entering, outcome⟩ | ⟨events, next, entering, outcome⟩
      · rw [Visit.explore_of_fault refused, Visit.explore_of_fault (same.guard ▸ refused),
          same.wording fault refused]
        exact .alike rfl rfl
      · rw [Visit.explore_of_halt entering outcome,
          Visit.explore_of_halt (same.guard ▸ entering) (same.outcome entering ▸ outcome)]
        exact .alike rfl rfl
      · rw [Visit.explore_of_onward entering outcome,
          Visit.explore_of_onward (same.guard ▸ entering) (same.outcome entering ▸ outcome)]
        refine .andThen (.alike rfl rfl) (exploreAll_keepsPace fun w hw => ?_)
        exact ih w entering ((Visit.mem_iff_leads outcome).1 hw)
    · exact .brokenOff [] kept last ended own breaks shared

end

theorem Arbiter.exploration_keepsPace {Breaks : Event → List Event → Prop} {a b : Arbiter}
    {world : World} {rule : String} {scheme : Option Scheme} {p : Parties}
    (entry : a.entry rule = b.entry rule)
    (each : ∀ (g : RuleGraph) (v : Visit),
      (v.explore (a.evaluation world rule scheme) g []).KeepsPace Breaks
        (v.explore (b.evaluation world rule scheme) g [])) :
    (a.exploration world rule scheme p).KeepsPace Breaks (b.exploration world rule scheme p) := by
  unfold exploration
  rw [entry]
  cases b.entry rule with
  | error fault => exact .alike rfl rfl
  | ok found => exact each found.1 _

/-! ## Ending at the first error -/

/-- The same evaluation, ended or not ended by its first Error node. -/
def Evaluation.stopping (e : Evaluation) (stops : Bool) : Evaluation :=
  { e with settings := { e.settings with stopAtFirstError := stops } }

/-- The same arbiter, whose evaluations are ended or not ended by their first Error node. -/
def Arbiter.stopping (a : Arbiter) (stops : Bool) : Arbiter :=
  { a with settings := { a.settings with stopAtFirstError := stops } }

/-- An evaluation that an Error node ends has its message as the last event, and one that goes on
keeps it. -/
def Event.EndsStopping (last : Event) (kept : List Event) : Prop :=
  kept = [last] ∧ ∃ node message, last = .error node message

section

variable {e : Evaluation} {g : RuleGraph} {v : Visit} {path : List Visit}

theorem Visit.outcome_stopping (noError : ∀ message, g.kind? v.node ≠ some (.error message)) :
    v.outcome (e.stopping true) g = v.outcome (e.stopping false) g := by
  unfold Visit.outcome
  cases known : g.kind? v.node with
  | none => rfl
  | some kind =>
    cases kind with
    | error message => exact absurd known (noError message)
    | _ => rfl

/-- At an Error node an evaluation that it ends records what the other records first. -/
theorem Visit.explore_stopping_of_error {message : String}
    (entering : v.fault? (e.stopping true) path = none)
    (at_error : g.kind? v.node = some (.error message)) :
    ∃ last kept, (v.explore (e.stopping true) g path).ended = true ∧
      (v.explore (e.stopping true) g path).events = [last] ∧ last.EndsStopping kept ∧
      kept <+: (v.explore (e.stopping false) g path).events := by
  let left := Event.error v.node (v.parties.render e.settings message)
  have halts : v.outcome (e.stopping true) g = ([left], none) := by
    rw [Visit.outcome, at_error]
    rfl
  have goesOn : v.outcome (e.stopping false) g =
      ([left], v.onward g (v.decide (e.stopping false) (.error message))) := by
    rw [Visit.outcome, at_error]
    rfl
  have entering' : v.fault? (e.stopping false) path = none := entering
  refine ⟨left, [left], ?_, ?_, ⟨rfl, v.node, _, rfl⟩, ?_⟩
  · rw [Visit.explore_of_halt entering halts]
  · rw [Visit.explore_of_halt entering halts]
  · rw [Visit.explore_of_onward entering' goesOn, Report.andThen_of_goes_on rfl]
    exact List.prefix_append _ _

theorem Visit.explore_stopping (path : List Visit) (v : Visit) :
    (v.explore (e.stopping true) g path).KeepsPace Event.EndsStopping
      (v.explore (e.stopping false) g path) := by
  refine explore_keepsPace (fun path v => ?_) path v
  by_cases error : v.fault? (e.stopping true) path = none ∧
      ∃ message, g.kind? v.node = some (.error message)
  · obtain ⟨entering, message, at_error⟩ := error
    exact .inr (Visit.explore_stopping_of_error entering at_error)
  · refine .inl ⟨rfl, fun _ _ => rfl, fun entering => ?_⟩
    exact Visit.outcome_stopping fun message at_error => error ⟨entering, message, at_error⟩

/-- An evaluation that the first error ends has no second one. -/
theorem Visit.length_errors_le_one (stops : e.settings.stopAtFirstError = true)
    (path : List Visit) (v : Visit) :
    (v.explore e g path).verdict.errors.length ≤ 1 ∧
      ((v.explore e g path).ended = false → (v.explore e g path).verdict.errors = []) := by
  refine Visit.explore_closed (P := fun _ r => r.verdict.errors.length ≤ 1 ∧
    (r.ended = false → r.verdict.errors = [])) ?_ ?_ ?_ ?_ ?_ path v
  · exact fun _ => ⟨Nat.zero_le 1, fun _ => rfl⟩
  · intro path a b ha hb
    cases h : a.ended with
    | true =>
      rw [Report.andThen_of_ended h]
      exact ha
    | false =>
      rw [Report.errors_andThen_of_goes_on h, ha.2 h, List.nil_append, Report.ended_andThen, h]
      exact hb
  · exact fun _ _ _ _ => ⟨Nat.le_refl 1, nofun⟩
  · intro path v events _ outcome
    refine ⟨?_, nofun⟩
    have few := Visit.length_messages_le_one (e := e) (g := g) (v := v)
    rw [outcome] at few
    exact Nat.le_trans (Nat.le_add_left _ _) few
  · intro path v events next _ outcome below
    -- the visit goes on, so it is at no Error node
    have quiet : (Verdict.ofEvents events).errors = [] := by
      have noError := Visit.errors_outcome_eq_nil_iff (e := e) (g := g) (v := v)
      have goesOn := Visit.outcome_eq_none_iff (e := e) (g := g) (v := v)
      rw [outcome] at noError goesOn
      refine noError.2 fun message at_error => ?_
      cases goesOn.2 ⟨⟨message, at_error⟩, stops⟩
    rw [Report.errors_andThen_of_goes_on rfl, Report.ended_andThen, Report.verdict, quiet,
      List.nil_append]
    exact below

end

/-- A verdict that was reached at the first error of another one. -/
structure Verdict.CutShort (short full : Verdict) : Prop where
  state : short.state = full.state
  errors : short.errors = full.errors.take 1
  warnings : short.warnings <+: full.warnings

theorem Verdict.cutShort_of_prefix {short full : Verdict} (few : short.errors.length ≤ 1)
    (warnings : short.warnings <+: full.warnings) (errors : short.errors <+: full.errors)
    (h : short = full ∨ short.errors ≠ []) : short.CutShort full := by
  have first : short.errors = full.errors.take 1 := by
    rcases h with rfl | some
    · rw [List.take_of_length_le few]
    · have one : short.errors.length = 1 := by
        have := List.length_pos_iff.2 some
        omega
      rw [List.prefix_iff_eq_take.1 errors, one]
  have failure : short.errors = [] ↔ full.errors = [] := by
    rw [first, List.take_eq_nil_iff]
    simp
  exact ⟨Verdict.state_congr failure, first, warnings⟩

namespace Arbiter

variable (a : Arbiter) (world : World) (rule : String) (scheme : Option Scheme) (p : Parties)

/-- Ending at the first Error node keeps the record up to it, and the whole record if no Error node
is reached. -/
theorem events_stopping :
    (a.stopping true).events world rule scheme p <+: (a.stopping false).events world rule scheme p ∧
      ((a.stopping true).events world rule scheme p =
          (a.stopping false).events world rule scheme p ∨
        ∃ node message, Event.error node message ∈ (a.stopping true).events world rule scheme p) := by
  rw [events_eq_exploration, events_eq_exploration]
  have pace : ((a.stopping true).exploration world rule scheme p).KeepsPace Event.EndsStopping
      ((a.stopping false).exploration world rule scheme p) :=
    exploration_keepsPace rfl fun _ v =>
      Visit.explore_stopping (e := a.evaluation world rule scheme) [] v
  cases pace with
  | alike events _ =>
    rw [events]
    exact ⟨List.prefix_refl _, .inl rfl⟩
  | brokenOff before kept last _ own breaks shared =>
    obtain ⟨rfl, node, message, rfl⟩ := breaks
    rw [own]
    exact ⟨shared, .inr ⟨node, message, List.mem_append_right _ List.mem_cons_self⟩⟩

theorem length_errors_stopping :
    (Verdict.ofEvents ((a.stopping true).events world rule scheme p)).errors.length ≤ 1 := by
  rw [events_eq_exploration, exploration]
  cases (a.stopping true).entry rule with
  | error fault => exact Nat.le_refl 1
  | ok found => exact (Visit.length_errors_le_one rfl [] _).1

theorem verdict_stopping :
    (Verdict.ofEvents ((a.stopping true).events world rule scheme p)).CutShort
      (Verdict.ofEvents ((a.stopping false).events world rule scheme p)) := by
  obtain ⟨shared, h⟩ := events_stopping a world rule scheme p
  obtain ⟨warnings, errors⟩ := Verdict.ofEvents_of_prefix shared
  have few := length_errors_stopping a world rule scheme p
  refine Verdict.cutShort_of_prefix few warnings errors ?_
  refine h.imp (congrArg _) fun ⟨node, message, met⟩ => ?_
  exact List.ne_nil_of_mem (List.mem_filterMap.2 ⟨_, met, rfl⟩)

/-- Ending a rule at its first error, judged alone or for a scheme, keeps the outcome and the first
error, and drops only warnings that come after it. The record is cut short but not changed, and it
is not even cut short if no Error node is reached. -/
theorem stopping_cuts_short (a : Arbiter) (world : World) (p : Parties) :
    (∀ rule, ((a.stopping true).judge world rule p).CutShort
      ((a.stopping false).judge world rule p)) ∧
    (∀ s, ((a.stopping true).judgeScheme world s p).CutShort
      ((a.stopping false).judgeScheme world s p)) ∧
    ∀ rule scheme,
      let short := (a.stopping true).events world rule scheme p
      let full := (a.stopping false).events world rule scheme p
      short <+: full ∧ ((∀ node message, Event.error node message ∉ short) → short = full) := by
  refine ⟨fun rule => verdict_stopping a world rule none p,
    fun s => verdict_stopping a world s.ruleId (some s) p, ?_⟩
  intro rule scheme short full
  obtain ⟨shared, same | ⟨node, message, met⟩⟩ := events_stopping a world rule scheme p
  · exact ⟨shared, fun _ => same⟩
  · exact ⟨shared, fun none => absurd met (none node message)⟩

/-- A rule that fails for a cycle alone fails in the same way if errors end it. -/
theorem stopping_cuts_short_turning :
    let ada := Actor.create .nil "Ada" .female
    let world := World.empty.addActor ada
    let a : Arbiter := { rules := fun _ => some .turning, bridge := .empty }
    let short := (a.stopping true).events world "turning" none ⟨ada, none⟩
    let full := (a.stopping false).events world "turning" none ⟨ada, none⟩
    (∀ node message, Event.error node message ∉ short) ∧ short = full := by
  intro ada world a short full
  have none : ∀ node message, Event.error node message ∉ short := by
    have quiet : short.all (fun x => match x with | .error _ _ => false | _ => true) = true := by
      decide +kernel
    intro node message met
    cases List.all_eq_true.1 quiet _ met
  obtain ⟨-, -, cut⟩ := stopping_cuts_short a world ⟨ada, Option.none⟩
  exact ⟨none, (cut "turning" Option.none).2 none⟩

end Arbiter

/-! ## Raising the limit -/

/-- The same evaluation with another limit of entries. -/
def Evaluation.limited (e : Evaluation) (limit : UInt32) : Evaluation :=
  { e with settings := { e.settings with maxNodeVisits := limit } }

/-- The same arbiter with another limit of entries. -/
def Arbiter.limited (a : Arbiter) (limit : UInt32) : Arbiter :=
  { a with settings := { a.settings with maxNodeVisits := limit } }

/-- An evaluation that exceeds the limit ends with that fault, of which one with a higher limit
keeps nothing. -/
def Event.ExceedsLimit (rule : String) (limit : UInt32) (last : Event) (kept : List Event) : Prop :=
  kept = [] ∧ ∃ node, last = .fault (.visitLimit rule node limit)

section

variable {e : Evaluation} {g : RuleGraph} {v : Visit} {path : List Visit} {low high : UInt32}

theorem Visit.outcome_limited : v.outcome (e.limited low) g = v.outcome (e.limited high) g := by
  unfold Visit.outcome
  cases g.kind? v.node with
  | none => rfl
  | some kind => cases kind <;> rfl

theorem Visit.fault?_limited (le : low ≤ high) (entering : v.fault? (e.limited low) path = none) :
    v.fault? (e.limited high) path = none := by
  obtain ⟨fresh, below⟩ := Visit.fault?_eq_none_iff.1 entering
  exact Visit.fault?_eq_none_iff.2 ⟨fresh, Nat.lt_of_lt_of_le below le⟩

theorem Visit.explore_limited (le : low ≤ high) (path : List Visit) (v : Visit) :
    (v.explore (e.limited low) g path).KeepsPace (Event.ExceedsLimit e.rule low)
      (v.explore (e.limited high) g path) := by
  refine explore_keepsPace (fun path v => ?_) path v
  cases guarded : v.fault? (e.limited low) path with
  | none =>
    refine .inl ⟨guarded.trans (fault?_limited le guarded).symm, ?_, fun _ => outcome_limited⟩
    intro fault refused
    rw [guarded] at refused
    cases refused
  | some fault =>
    cases fault with
    | cycle =>
      -- the guard looks at the situations of the path before it counts
      have repeated := fault?_eq_cycle_iff.1 guarded
      have guarded' : v.fault? (e.limited high) path = some .cycle :=
        fault?_eq_cycle_iff.2 repeated
      refine .inl ⟨guarded.trans guarded'.symm, ?_, fun _ => outcome_limited⟩
      intro fault refused
      obtain rfl := Option.some.inj (guarded.symm.trans refused)
      rfl
    | overLimit =>
      refine .inr ⟨_, [], ?_, ?_, ⟨rfl, v.node, rfl⟩, List.nil_prefix⟩
      · rw [explore_of_fault guarded]
      · rw [explore_of_fault guarded]
        rfl

end

namespace Arbiter

variable (a : Arbiter) (world : World) (rule : String) (scheme : Option Scheme) (p : Parties)

/-- Either a higher limit changes nothing, or the lower one was exceeded after events that a higher
limit records as well. -/
theorem events_limited {low high : UInt32} (le : low ≤ high) :
    (a.limited high).events world rule scheme p = (a.limited low).events world rule scheme p ∨
      ∃ before node, (a.limited low).events world rule scheme p =
          before ++ [.fault (.visitLimit rule node low)] ∧
        before <+: (a.limited high).events world rule scheme p := by
  rw [events_eq_exploration, events_eq_exploration]
  have pace : ((a.limited low).exploration world rule scheme p).KeepsPace
      (Event.ExceedsLimit rule low) ((a.limited high).exploration world rule scheme p) :=
    exploration_keepsPace rfl fun _ v =>
      Visit.explore_limited (e := a.evaluation world rule scheme) le [] v
  cases pace with
  | alike events _ => exact .inl events.symm
  | brokenOff before kept last _ own breaks shared =>
    obtain ⟨rfl, node, rfl⟩ := breaks
    rw [List.append_nil] at shared
    exact .inr ⟨before, node, own, shared⟩

/-- Raising the limit never changes what was found. Unless the lower limit was exceeded, the whole
record stays, one that ends with a cycle included; if it was, the higher limit gives the same
warnings and errors up to the fault and may add others. -/
theorem raising_limit_keeps (a : Arbiter) (world : World) (rule : String) (scheme : Option Scheme)
    (p : Parties) (low high : UInt32) (le : low ≤ high) :
    let found := (a.limited low).events world rule scheme p
    let found' := (a.limited high).events world rule scheme p
    (¬ (a.limited low).Aborted world rule scheme p .overLimit → found' = found) ∧
    ((a.limited low).Aborted world rule scheme p .overLimit →
      (Verdict.ofEvents found).warnings <+: (Verdict.ofEvents found').warnings ∧
      (Verdict.ofEvents found).errors.dropLast <+: (Verdict.ofEvents found').errors) ∧
    ((a.limited low).Aborted world rule scheme p .cycle → found' = found) := by
  intro found found'
  rcases events_limited a world rule scheme p le with same | ⟨before, node, exceeded, shared⟩
  · have same : found' = found := same
    refine ⟨fun _ => same, fun _ => ?_, fun _ => same⟩
    rw [same]
    exact ⟨List.prefix_refl _, List.dropLast_prefix _⟩
  · have exceeded : found = before ++ [.fault (.visitLimit rule node low)] := exceeded
    obtain ⟨warnings, errors⟩ := Verdict.ofEvents_of_prefix shared
    refine ⟨fun within => absurd ⟨before, node, exceeded⟩ within, fun _ => ?_, ?_⟩
    · rw [exceeded, Verdict.ofEvents_concat_fault, List.dropLast_concat]
      exact ⟨warnings, errors⟩
    · -- the last event is one fault and not the other
      rintro ⟨before', node', cycle⟩
      have last := (List.append_inj' (exceeded.symm.trans cycle) rfl).2
      cases last

end Arbiter

/-- A graph that looks at one actor again and again, the first time in another role. -/
def RuleGraph.returning : RuleGraph where
  document :=
    { id := "returning"
      nodes := [.start, .warning "once", .gender]
      wires := [⟨0, .run, 1, none⟩, ⟨1, .next, 2, some .conspirator⟩,
        ⟨2, .female, 2, some .actor⟩] }
  wellFormed := (GraphDocument.violation?_eq_none_iff _).1 rfl

/-- With a limit of one entry the second look is refused; with a limit of two it is not, and the
warning that came before it stays. -/
theorem Arbiter.raising_limit_keeps_returning :
    let ada := Actor.create .nil "Ada" .female
    let world := World.empty.addActor ada
    let a : Arbiter := { rules := fun _ => some .returning, bridge := .empty }
    let found := fun limit =>
      Verdict.ofEvents ((a.limited limit).events world "returning" none ⟨ada, none⟩)
    (1 : UInt32) ≤ 2 ∧ (a.limited 1).Aborted world "returning" none ⟨ada, none⟩ .overLimit ∧
      (found 1).warnings <+: (found 2).warnings ∧
      (found 1).errors.dropLast <+: (found 2).errors := by
  intro ada world a found
  let e := (a.limited 1).evaluation world "returning" none
  let p : Parties := ⟨ada, none⟩
  let once : Visit := ⟨1, none, p, some ada⟩
  let look : Visit := ⟨2, some .conspirator, p, some ada⟩
  let again : Visit := ⟨2, some .actor, p, some ada⟩
  have le : (1 : UInt32) ≤ 2 := by decide
  have entry : (a.limited 1).entry "returning" = .ok (.returning, 0) := rfl
  have walk : ForemostPath e .returning (.first 0 p) [look, once, .first 0 p] again :=
    .onward (.onward (.onward .start rfl rfl) rfl rfl) rfl rfl
  have refused : again.fault? e [look, once, .first 0 p] = some .overLimit := rfl
  have reported :
      Event.fault (.visitLimit "returning" 2 1) ∈ (a.limited 1).events world "returning" none p := by
    rw [events_of_entry entry]
    exact walk.fault_mem_events refused
  have exceeded : (a.limited 1).Aborted world "returning" none p .overLimit :=
    aborted_iff.2 ⟨2, reported⟩
  obtain ⟨-, kept, -⟩ := raising_limit_keeps a world "returning" none p 1 2 le
  exact ⟨le, exceeded, kept exceeded⟩

end Stratagem
