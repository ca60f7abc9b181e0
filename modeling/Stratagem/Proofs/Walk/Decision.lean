import Stratagem.Walk.Event

/-!
# What one visit does

Facts about a single visit, for every kind of node: which kinds end the evaluation, and what a
visit leaves in the record.

* `Visit.decide_eq_halt_iff`: only an Error node ends the evaluation, and only if the settings say
  so.
* `Visit.errors_outcome_eq_nil_iff`: a visit leaves an error exactly at an Error node;
  `Visit.length_messages_le_one`: it leaves at most one message; `Visit.fault_not_mem_outcome`: it
  leaves no fault.
-/

namespace Stratagem

theorem Verdict.errors_ofEvents_append (a b : List Event) :
    (Verdict.ofEvents (a ++ b)).errors =
      (Verdict.ofEvents a).errors ++ (Verdict.ofEvents b).errors :=
  List.filterMap_append

theorem Verdict.warnings_ofEvents_append (a b : List Event) :
    (Verdict.ofEvents (a ++ b)).warnings =
      (Verdict.ofEvents a).warnings ++ (Verdict.ofEvents b).warnings :=
  List.filterMap_append

/-- A fault adds its wording as one last error. -/
theorem Verdict.ofEvents_concat_fault (before : List Event) (fault : RuleFault) :
    Verdict.ofEvents (before ++ [.fault fault]) =
      { warnings := (Verdict.ofEvents before).warnings
        errors := (Verdict.ofEvents before).errors ++ [fault.message] } := by
  have warnings := Verdict.warnings_ofEvents_append before [.fault fault]
  have errors := Verdict.errors_ofEvents_append before [.fault fault]
  rw [show (Verdict.ofEvents [.fault fault]).warnings = [] from rfl, List.append_nil] at warnings
  rw [show (Verdict.ofEvents [.fault fault]).errors = [fault.message] from rfl] at errors
  rw [← warnings, ← errors]

theorem Verdict.state_congr {v w : Verdict} (h : v.errors = [] ↔ w.errors = []) :
    v.state = w.state := by
  unfold Verdict.state Verdict.passed
  simp only [List.isEmpty_iff, h]

/-- What is recorded first is in the verdict first. -/
theorem Verdict.ofEvents_of_prefix {short full : List Event} (h : short <+: full) :
    (Verdict.ofEvents short).warnings <+: (Verdict.ofEvents full).warnings ∧
      (Verdict.ofEvents short).errors <+: (Verdict.ofEvents full).errors :=
  ⟨h.filterMap _, h.filterMap _⟩

namespace Visit

variable {e : Evaluation} {g : RuleGraph} {v : Visit} {kind : NodeKind} {events : List Event}

/-! ## Ending the evaluation -/

theorem judge_ne_halt (port : Actor → Port) : v.judge port ≠ .halt := by
  unfold judge
  split
  · exact nofun
  · exact nofun

theorem judgePair_ne_halt (holds : Actor → Actor → Bool) : v.judgePair holds ≠ .halt := by
  unfold judgePair
  split
  · exact nofun
  · exact nofun

theorem followAnswer_ne_halt (world : World) (answer : Option Answer) :
    v.followAnswer world answer ≠ .halt := by
  unfold followAnswer
  split
  · exact nofun
  · exact nofun
  · split
    · exact nofun
    · exact nofun
  · split
    · exact nofun
    · exact nofun
  · exact nofun
  · exact nofun

/-- Only an Error node ends the evaluation, and only if the settings say so. -/
theorem decide_eq_halt_iff :
    v.decide e kind = .halt ↔
      (∃ message, kind = .error message) ∧ e.settings.stopAtFirstError = true := by
  constructor
  · intro h
    cases kind with
    | error message =>
      rw [decide] at h
      split at h
      · next stops => exact ⟨⟨message, rfl⟩, stops⟩
      · cases h
    | start | warning message => cases h
    | gender | isAutonomous => exact absurd h (judge_ne_halt _)
    | getActor _ | getClan _ | getRole _ | getFamily _ => exact absurd h (judge_ne_halt _)
    | isParent | isSibling => exact absurd h (judgePair_ne_halt _)
    | invoke method => exact absurd h (followAnswer_ne_halt _ _)
  · rintro ⟨⟨message, rfl⟩, stops⟩
    rw [decide, if_pos stops]

/-- A visit ends the evaluation exactly if it is at an Error node and the settings say so. -/
theorem outcome_eq_none_iff :
    (v.outcome e g).2 = none ↔
      (∃ message, g.kind? v.node = some (.error message)) ∧
        e.settings.stopAtFirstError = true := by
  unfold outcome
  split
  · next unknown => simp [unknown]
  · next kind known =>
    have halts : v.onward g (v.decide e kind) = none ↔ v.decide e kind = .halt := by
      cases v.decide e kind with
      | stop => exact ⟨nofun, nofun⟩
      | halt => exact ⟨fun _ => rfl, fun _ => rfl⟩
      | follow port parties subject => exact ⟨nofun, nofun⟩
    rw [known, halts, decide_eq_halt_iff]
    simp only [Option.some.injEq]

theorem error_of_halt (outcome : v.outcome e g = (events, none)) :
    (∃ message, g.kind? v.node = some (.error message)) ∧ e.settings.stopAtFirstError = true :=
  outcome_eq_none_iff.1 (congrArg Prod.snd outcome)

/-! ## What is left in the record -/

/-- What is recorded at a node besides the method that is asked: the remark, if any. -/
theorem filterMap_events {α : Type} (f : Event → Option α)
    (unasked : ∀ method context, f (.asked method context) = none) :
    (v.events e kind).filterMap f = (v.remark? e kind).toList.filterMap f := by
  rw [events, List.filterMap_append]
  cases v.asks? kind with
  | none => rfl
  | some method => simp [unasked]

/-- A visit leaves an error exactly if it is at an Error node. -/
theorem errors_outcome_eq_nil_iff :
    (Verdict.ofEvents (v.outcome e g).1).errors = [] ↔
      ∀ message, g.kind? v.node ≠ some (.error message) := by
  unfold outcome
  split
  · next unknown =>
    rw [unknown]
    exact ⟨fun _ _ => nofun, fun _ => rfl⟩
  · next kind known =>
    rw [known]
    show (v.events e kind).filterMap Event.error? = [] ↔ _
    rw [filterMap_events _ fun _ _ => rfl]
    cases kind <;> simp [remark?, Event.error?]

theorem length_messages_le_one :
    (Verdict.ofEvents (v.outcome e g).1).warnings.length +
      (Verdict.ofEvents (v.outcome e g).1).errors.length ≤ 1 := by
  unfold outcome
  split
  · exact Nat.zero_le _
  · next kind _ =>
    show ((v.events e kind).filterMap Event.warning?).length +
      ((v.events e kind).filterMap Event.error?).length ≤ 1
    rw [filterMap_events _ fun _ _ => rfl, filterMap_events _ fun _ _ => rfl]
    cases kind with
    | error message => exact Nat.le_refl 1
    | warning message => exact Nat.le_refl 1
    | _ => exact Nat.zero_le 1

theorem fault_not_mem_outcome {next : Option (List Visit)}
    (outcome : v.outcome e g = (events, next)) (fault : RuleFault) :
    Event.fault fault ∉ events := by
  obtain rfl : (v.outcome e g).1 = events := congrArg Prod.fst outcome
  unfold Visit.outcome
  split
  · exact List.not_mem_nil
  · next kind _ =>
    intro h
    rcases List.mem_append.1 h with h | h
    · obtain ⟨method, -, eq⟩ := Option.map_eq_some_iff.1 (Option.mem_toList.1 h)
      cases eq
    · have left : v.remark? e kind = some (.fault fault) := Option.mem_toList.1 h
      cases kind <;> cases left

end Visit

end Stratagem
