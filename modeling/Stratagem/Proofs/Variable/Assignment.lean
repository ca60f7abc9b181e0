import Stratagem.Variable.Basic

/-!
# Assigning to a variable

An assignment makes three tests that differ. Whether the variable takes the value goes by kind and
index; what is stored is the value itself or, of an enumeration, its index; and whether anything is
stored and the hook is called goes by equality of values, which is not equality where floats are
concerned: a NaN does not agree with itself, and the two zeros agree.

* `Value.Takes` is when a value takes the place of another, and `Value.taking` what is then stored.
* `Value.agrees_iff` tells equality of values from equality.
* `Variable.assign_cases` is all that an assignment can do.
* `Variable.assign_reads_back`: what was assigned is read, and what is read can be assigned again.
* `Variable.Endures` is what an assignment keeps and `Variable.notified_assign` what the hook is
  shown; `Variable.assignments_exact` is what this comes to for a run of assignments.
-/

namespace Stratagem

theorem Binary64.not_isNaN_of_isZero {x : Binary64} (zero : x.isZero = true) : x.isNaN = false := by
  simp only [isZero, isNaN, Bool.and_eq_true, decide_eq_true_eq] at zero ⊢
  simp [zero]

/-- Two floats are one number if they are equal and a number, or both a zero. -/
theorem Binary64.numEq_iff {x y : Binary64} :
    x.numEq y = true ↔ x = y ∧ x.isNaN = false ∨ x.isZero = true ∧ y.isZero = true := by
  have bits : x.bits = y.bits ↔ x = y := by
    cases x
    cases y
    simp
  simp only [numEq, Bool.and_eq_true, Bool.or_eq_true, Bool.not_eq_true', decide_eq_true_eq, bits]
  constructor
  · rintro ⟨⟨number, -⟩, same | zeros⟩
    · exact .inl ⟨same, number⟩
    · exact .inr zeros
  · rintro (⟨rfl, number⟩ | ⟨zero, zero'⟩)
    · exact ⟨⟨number, number⟩, .inl rfl⟩
    · exact ⟨⟨not_isNaN_of_isZero zero, not_isNaN_of_isZero zero'⟩, .inr ⟨zero, zero'⟩⟩

namespace Value

/-- The labels of an enumeration. -/
def options : Value → List String
  | .enumeration _ options => options
  | _ => []

/-- Whether the index of an enumeration selects one of its options. -/
def Selects (v : Value) : Prop :=
  ∀ index options, v = .enumeration index options → index.toNat < options.length

/-- Whether a value may take the place of another: it is of the same kind and, of an enumeration,
its index is below the number of the options that are there already. -/
def Takes (old next : Value) : Prop :=
  next.kind = old.kind ∧
    ∀ index labels, next = .enumeration index labels → index.toNat < old.options.length

/-- What comes in the place of a value when another is assigned: of an enumeration the index, with
the options that are there already. -/
def taking : Value → Value → Value
  | .enumeration _ options, .enumeration index _ => .enumeration index options
  | _, next => next

/-- Whether a value is a float that is no number. -/
def isNaN : Value → Bool
  | .float x => x.isNaN
  | _ => false

/-- Two zeros that differ, in their sign. -/
def OppositeZeros (v w : Value) : Prop :=
  ∃ x y : Binary64, v = .float x ∧ w = .float y ∧ x.isZero = true ∧ y.isZero = true ∧ x ≠ y

variable {v w old next : Value}

/-! ## Labels -/

theorem exists_of_kind_enumeration (h : v.kind = .enumeration) :
    ∃ index options, v = .enumeration index options := by
  cases v with
  | enumeration index options => exact ⟨index, options, rfl⟩
  | _ => cases h

/-- An index selects one of the options exactly if there is a label. -/
theorem selects_iff : v.Selects ↔ (v.kind = .enumeration → v.label?.isSome = true) := by
  cases v with
  | enumeration index options => simp [Selects, kind, label?]
  | _ => simp [Selects, kind]

instance (v : Value) : Decidable v.Selects := decidable_of_iff _ selects_iff.symm

theorem not_takes_iff :
    ¬ old.Takes next ↔ next.kind ≠ old.kind ∨
      ∃ index labels, next = .enumeration index labels ∧ old.options.length ≤ index.toNat := by
  by_cases kind : next.kind = old.kind
  · simp [Takes, kind]
  · simp [Takes, kind]

/-- A value takes its own place unless it is an enumeration that selects nothing. -/
theorem takes_self_iff : v.Takes v ↔ v.Selects := by
  refine ⟨fun takes index options same => ?_, fun selects => ⟨rfl, fun index labels same => ?_⟩⟩
  · subst same
    exact takes.2 index options rfl
  · subst same
    exact selects index labels rfl

theorem taking_of_kind_ne (plain : old.kind ≠ .enumeration) : old.taking next = next := by
  cases old with
  | enumeration index options => exact absurd rfl plain
  | _ => rfl

theorem taking_self : v.taking v = v := by
  cases v <;> rfl

/-- What is stored is of the old kind and with the old options, and selects one of them. -/
theorem taking_of_takes (takes : old.Takes next) :
    (old.taking next).kind = old.kind ∧ (old.taking next).options = old.options ∧
      (old.taking next).Selects := by
  obtain ⟨kind, below⟩ := takes
  by_cases enum : old.kind = .enumeration
  · obtain ⟨index, options, rfl⟩ := exists_of_kind_enumeration enum
    obtain ⟨index', labels, rfl⟩ := exists_of_kind_enumeration (kind.trans enum)
    refine ⟨rfl, rfl, ?_⟩
    rintro _ _ ⟨⟩
    exact below index' labels rfl
  · rw [taking_of_kind_ne enum]
    have none (v : Value) (plain : v.kind ≠ .enumeration) : v.options = [] ∧ v.Selects := by
      cases v with
      | enumeration index options => exact absurd rfl plain
      | _ => exact ⟨rfl, nofun⟩
    obtain ⟨no, -⟩ := none old enum
    obtain ⟨no', selects⟩ := none next (kind ▸ enum)
    exact ⟨kind, no'.trans no.symm, selects⟩

/-! ## Equality of values -/

theorem oppositeZeros_float {x y : Binary64} :
    (float x).OppositeZeros (.float y) ↔ x.isZero = true ∧ y.isZero = true ∧ x ≠ y := by
  simp [OppositeZeros]

/-- A value agrees with itself unless it is no number, and with no other but the opposite zero. -/
theorem agrees_iff : v.agrees w = true ↔ v = w ∧ v.isNaN = false ∨ v.OppositeZeros w := by
  by_cases number : v.kind = .float
  · cases v with
    | float x =>
      cases w with
      | float y =>
        rw [agrees_float, Binary64.numEq_iff, oppositeZeros_float, Value.float.injEq]
        by_cases same : x = y
        · subst same
          simpa [isNaN] using Binary64.not_isNaN_of_isZero
        · simp [same]
      | _ => simp [agrees, OppositeZeros]
    | _ => cases number
  · have exact : ¬ v.OppositeZeros w := fun ⟨x, _, same, _⟩ => number (congrArg kind same)
    have plain : v.isNaN = false := by
      cases v with
      | float x => exact absurd rfl number
      | _ => rfl
    simp [agrees_of_kind_ne_float number, exact, plain]

theorem not_oppositeZeros_self : ¬ v.OppositeZeros v := by
  rintro ⟨x, y, rfl, same, -, -, differ⟩
  exact differ (Value.float.inj same)

theorem agrees_self_iff : v.agrees v = true ↔ v.isNaN = false := by
  rw [agrees_iff, or_iff_left not_oppositeZeros_self, and_iff_right rfl]

/-- A value that agrees with any is a number. -/
theorem agrees_self_of_agrees (agrees : v.agrees w = true) : w.agrees w = true := by
  rw [agrees_self_iff]
  rcases agrees_iff.1 agrees with ⟨rfl, number⟩ | ⟨x, y, -, rfl, -, zero, -⟩
  · exact number
  · exact Binary64.not_isNaN_of_isZero zero

/-- A float takes the place of a value as it is. -/
theorem taking_of_float {x : Binary64} (float : old.taking next = .float x) : next = .float x := by
  cases old <;> cases next <;> first | exact float | cases float

end Value

namespace Variable

variable {v : Variable} {next stored : Value}

/-! ## One assignment -/

/-- A value is stored if it is taken, and as far as the variable lets it. -/
theorem accepts?_eq_some_iff :
    v.accepts? next = some stored ↔ v.value.Takes next ∧ v.value.taking next = stored := by
  by_cases enum : v.value.kind = .enumeration
  · obtain ⟨index, options, old⟩ := Value.exists_of_kind_enumeration enum
    by_cases same : next.kind = .enumeration
    · obtain ⟨index', labels, rfl⟩ := Value.exists_of_kind_enumeration same
      simp [accepts?, old, Value.Takes, Value.taking, Value.kind, Value.options]
    · have refused : v.accepts? next = none := by
        cases next with
        | enumeration index' labels => exact absurd rfl same
        | _ => simp [accepts?, old, Value.kind]
      simp [refused, Value.Takes, enum, same]
  · have plain : v.accepts? next = if next.kind = v.value.kind then some next else none := by
      unfold accepts?
      split
      · next old => exact absurd (congrArg Value.kind old) enum
      · rfl
    have within (kind : next.kind = v.value.kind) : v.value.Takes next := by
      refine ⟨kind, ?_⟩
      rintro index labels rfl
      exact absurd kind.symm enum
    rw [plain, Value.taking_of_kind_ne enum]
    split
    · next kind => simp [within kind]
    · next kind => simp [Value.Takes, kind]

/-- All that an assignment can do: refuse the value, find that the variable has it already, or store
it and call the hook. -/
theorem assign_cases (v : Variable) (next : Value) :
    (¬ v.value.Takes next ∧ v.assign next = ⟨v, false, none⟩) ∨
    (v.value.Takes next ∧ (v.value.taking next).agrees v.value = true ∧
      v.assign next = ⟨v, true, none⟩) ∨
    (v.value.Takes next ∧ (v.value.taking next).agrees v.value = false ∧
      ∃ changed, changed = { v with value := v.value.taking next } ∧
        v.assign next = ⟨changed, true, if v.watched then some changed else none⟩) := by
  unfold assign
  by_cases takes : v.value.Takes next
  · rw [accepts?_eq_some_iff.2 ⟨takes, rfl⟩]
    cases same : (v.value.taking next).agrees v.value with
    | true => exact .inr (.inl ⟨takes, rfl, by simp [same]⟩)
    | false => exact .inr (.inr ⟨takes, rfl, _, rfl, by simp [same]⟩)
  · have refused : v.accepts? next = none :=
      Option.eq_none_iff_forall_ne_some.2 fun _ h => takes (accepts?_eq_some_iff.1 h).1
    rw [refused]
    exact .inl ⟨takes, rfl⟩

theorem accepted_assign : (v.assign next).accepted = true ↔ v.value.Takes next := by
  rcases v.assign_cases next with ⟨refuses, h⟩ | ⟨takes, -, h⟩ | ⟨takes, -, _, -, h⟩
  · simp [h, refuses]
  · simp [h, takes]
  · simp [h, takes]

/-- A refused assignment changes nothing and calls no hook. -/
theorem assign_of_refused (refused : (v.assign next).accepted = false) :
    v.assign next = ⟨v, false, none⟩ := by
  rcases v.assign_cases next with ⟨-, h⟩ | ⟨-, -, h⟩ | ⟨-, -, _, -, h⟩
  · exact h
  · rw [h] at refused
    cases refused
  · rw [h] at refused
    cases refused

/-- The hook is shown the variable after an assignment that was accepted and after which its value
does not agree with the one before. -/
theorem notified_assign (v : Variable) (next : Value) :
    let a := v.assign next
    a.notified =
      if v.watched && (a.accepted && !a.result.value.agrees v.value) then some a.result
      else none := by
  intro a
  rcases v.assign_cases next with ⟨-, h⟩ | ⟨-, same, h⟩ | ⟨-, differs, _, rfl, h⟩
  · simp [show a = _ from h]
  · simp [show a = _ from h, Value.agrees_self_of_agrees same]
  · simp [show a = _ from h, differs]

/-! ## Reading back -/

/-- What was assigned is read, unless it was a zero and the other zero was there. -/
theorem value_assign (accepted : (v.assign next).accepted = true)
    (apart : ¬ next.OppositeZeros v.value) :
    (v.assign next).result.value = v.value.taking next := by
  rcases v.assign_cases next with ⟨-, h⟩ | ⟨-, same, h⟩ | ⟨-, -, _, rfl, h⟩
  · rw [h] at accepted
    cases accepted
  · rcases Value.agrees_iff.1 same with ⟨same, -⟩ | ⟨x, y, float, rest⟩
    · rw [h, same]
    · exact absurd ⟨x, y, Value.taking_of_float float, rest⟩ apart
  · rw [h]

/-- The hook is called exactly if the value was changed, unless a NaN was assigned once more. -/
theorem notified_assign_isSome_iff (other : ¬ (v.value.isNaN = true ∧ next = v.value)) :
    (v.assign next).notified.isSome = true ↔
      v.watched = true ∧ (v.assign next).result.value ≠ v.value := by
  rcases v.assign_cases next with ⟨-, h⟩ | ⟨-, -, h⟩ | ⟨-, differs, _, rfl, h⟩
  · simp [h]
  · simp [h]
  · have changed : v.value.taking next ≠ v.value := by
      intro same
      -- only a NaN differs from itself, and it was assigned as it is
      rw [same, Bool.eq_false_iff, ne_eq, Value.agrees_self_iff, Bool.not_eq_false] at differs
      cases float : v.value with
      | float x =>
        rw [float] at same differs other
        exact other ⟨differs, same⟩
      | _ =>
        rw [float] at differs
        cases differs
    rw [h]
    cases v.watched <;> simp [changed]

/-- Assigning what is there changes nothing. -/
theorem result_assign_self (v : Variable) : (v.assign v.value).result = v := by
  rcases v.assign_cases v.value with ⟨-, h⟩ | ⟨-, -, h⟩ | ⟨-, -, _, rfl, h⟩
  · rw [h]
  · rw [h]
  · rw [h, Value.taking_self]

/-- What is assigned is then what is read, bit for bit: of an enumeration its index, with the
options of the variable. Only of the two zeros the one that was there may stay. The hook is called
exactly if the value was changed, where it was not assigned the NaN that it was. And what is read
can be assigned again, without a change and, where it is a number, without a call of the hook: only
an enumeration whose own index selects none of its options is refused, like every index that does
not. -/
theorem assign_reads_back (v : Variable) (next : Value) :
    let a := v.assign next
    let own := v.assign v.value
    (a.accepted = true → ¬ next.OppositeZeros v.value → a.result.value = v.value.taking next) ∧
    (¬ (v.value.isNaN = true ∧ next = v.value) →
      (a.notified.isSome = true ↔ v.watched = true ∧ a.result.value ≠ v.value)) ∧
    own.result = v ∧ (own.accepted = true ↔ v.value.Selects) ∧
    (v.value.isNaN = false → own.notified = none) := by
  intro a own
  refine ⟨value_assign, notified_assign_isSome_iff, v.result_assign_self, ?_, fun number => ?_⟩
  · exact accepted_assign.trans Value.takes_self_iff
  · have agrees : v.value.agrees v.value = true := Value.agrees_self_iff.2 number
    rw [show own.notified = _ from v.notified_assign v.value, v.result_assign_self, agrees]
    simp

/-- A mood beyond the moods cannot be assigned again. A zero is taken in place of the other without
coming there, and the hook is called for a NaN that stays what it was. -/
theorem assigning_not_lawful :
    let mood : Variable :=
      { id := ⟨⟨1⟩⟩, name := "Mood", value := .enumeration 7 ["Calm"], watched := true }
    let debt : Variable := { id := ⟨⟨2⟩⟩, name := "Debt", value := .float (.zero false) }
    let luck : Variable := { id := ⟨⟨3⟩⟩, name := "Luck", value := .float .nan, watched := true }
    (mood.assign mood.value).accepted = false ∧
    (debt.assign (.float (.zero true))).accepted = true ∧
    (debt.assign (.float (.zero true))).result.value ≠ .float (.zero true) ∧
    (luck.assign luck.value).notified = some luck ∧ (luck.assign luck.value).result = luck := by
  decide

/-! ## Runs of assignments -/

/-- What no assignment changes in a variable: its kind, its options, and that its index selects one
of them if it did. -/
structure Endures (v u : Variable) : Prop where
  kind : u.kind = v.kind
  options : u.value.options = v.value.options
  selects : v.value.Selects → u.value.Selects
  watched : u.watched = v.watched

namespace Endures

variable {u w : Variable}

theorem refl (v : Variable) : v.Endures v := ⟨rfl, rfl, fun h => h, rfl⟩

theorem trans (one : v.Endures u) (other : u.Endures w) : v.Endures w where
  kind := other.kind.trans one.kind
  options := other.options.trans one.options
  selects := fun h => other.selects (one.selects h)
  watched := other.watched.trans one.watched

/-- A label that is there stays there, though it may be another. -/
theorem label (h : v.Endures u) (present : v.value.label?.isSome = true) :
    u.value.label?.isSome = true := by
  have enum : v.value.kind = .enumeration := by
    cases content : v.value with
    | enumeration index options => rfl
    | _ =>
      rw [content] at present
      cases present
  have selects : v.value.Selects := Value.selects_iff.2 fun _ => present
  exact Value.selects_iff.1 (h.selects selects) (h.kind.trans enum)

end Endures

/-- What one assignment keeps. -/
theorem endures_assign (v : Variable) (next : Value) : v.Endures (v.assign next).result := by
  rcases v.assign_cases next with ⟨-, h⟩ | ⟨-, -, h⟩ | ⟨takes, -, _, rfl, h⟩
  · rw [h]
    exact .refl v
  · rw [h]
    exact .refl v
  · rw [h]
    obtain ⟨kind, options, selects⟩ := Value.taking_of_takes takes
    exact ⟨kind, options, fun _ => selects, rfl⟩

/-- One assignment of a run: the variable before it, and the value. -/
structure Call where
  before : Variable
  value : Value
deriving DecidableEq, Repr

namespace Call

def outcome (c : Call) : Assignment := c.before.assign c.value

/-- Whether an assignment was accepted and left a value that does not agree with the one before. -/
def changes (c : Call) : Bool :=
  c.outcome.accepted && !c.outcome.result.value.agrees c.before.value

end Call

/-- The assignments of values one after the other, each to the variable that the one before left. -/
def calls (v : Variable) : List Value → List Call
  | [] => []
  | next :: rest => ⟨v, next⟩ :: (v.assign next).result.calls rest

/-- What a run of assignments keeps, up to each of them. -/
theorem endures_of_mem_calls {values : List Value} {c : Call} (met : c ∈ v.calls values) :
    v.Endures c.before := by
  induction values generalizing v with
  | nil => cases met
  | cons next rest ih =>
    rcases List.mem_cons.1 met with rfl | met
    · exact .refl v
    · exact (v.endures_assign next).trans (ih met)

/-- What the hook is shown in a run of assignments: the variable after each that changes it. -/
theorem filterMap_notified_calls (v : Variable) (values : List Value) :
    (v.calls values).filterMap (·.outcome.notified) =
      if v.watched then ((v.calls values).filter Call.changes).map (·.outcome.result) else [] := by
  induction values generalizing v with
  | nil => simp [calls]
  | cons next rest ih =>
    let c : Call := ⟨v, next⟩
    have shown : c.outcome.notified =
        if v.watched && c.changes then some c.outcome.result else none :=
      v.notified_assign next
    have later := ih (v.assign next).result
    rw [(v.endures_assign next).watched] at later
    rw [calls, List.filterMap_cons, List.filter_cons, later, shown]
    cases v.watched <;> cases c.changes <;> rfl

/-- In a run of assignments a variable keeps its kind and its options, and an index that selects one
of them still does, so that there is a label. An assignment is refused exactly if the kinds differ
or an index is not below the number of the variable's options, and then it changes nothing and calls
no hook. The hook is called once for each that was accepted and left a value which does not agree
with the one before, and is shown the variable with that value. -/
theorem assignments_exact (v : Variable) (values : List Value) :
    (∀ c ∈ v.calls values,
      v.Endures c.outcome.result ∧ c.before.Endures c.outcome.result ∧
      (c.before.value.label?.isSome = true → c.outcome.result.value.label?.isSome = true) ∧
      (c.outcome.accepted = false ↔
        c.value.kind ≠ c.before.kind ∨
        ∃ index labels, c.value = .enumeration index labels ∧
          c.before.value.options.length ≤ index.toNat) ∧
      (c.outcome.accepted = false → c.outcome.result = c.before ∧ c.outcome.notified = none)) ∧
    (v.calls values).filterMap (·.outcome.notified) =
      if v.watched then ((v.calls values).filter Call.changes).map (·.outcome.result) else [] := by
  refine ⟨fun c met => ?_, v.filterMap_notified_calls values⟩
  have step : c.before.Endures c.outcome.result := c.before.endures_assign c.value
  refine ⟨(endures_of_mem_calls met).trans step, step, step.label, ?_, fun refused => ?_⟩
  · rw [← Bool.not_eq_true]
    exact (not_congr accepted_assign).trans Value.not_takes_iff
  · have refused : c.outcome = ⟨c.before, false, none⟩ := assign_of_refused refused
    rw [refused]
    exact ⟨rfl, rfl⟩

/-- Of an index, a number, an index beyond the options and the same index again only the first
changes a mood; the labels that come with an index do not matter. -/
example :
    let mood : Variable :=
      { id := ⟨⟨1⟩⟩, name := "Mood", value := .enumeration 0 ["Calm", "Angry"], watched := true }
    (mood.calls [.enumeration 1 [], .integer 0, .enumeration 2 ["Calm", "Angry", "Sad"],
      .enumeration 1 ["Sad"]]).filterMap (·.outcome.notified) =
      [{ mood with value := .enumeration 1 ["Calm", "Angry"] }] := by decide

end Variable

end Stratagem
