import Mathlib.Data.List.Induction
import Mathlib.Data.Set.Card
import Stratagem.Proofs.Variable.Edit

/-!
# Variable sets and their histories

A set of variables is a list that is searched from the front. If it is made from the empty set by
adding, assigning, removing and copying, it is a map from names to variables that keeps the order in
which the names came.

* `SetStep.apply` is one change of a set, and `VariableSet.after` what a history of changes makes.
* `EnteredAt` is the place in the history where a name came in that is still there, and `LastAdded`
  the variable that was last added under a name, with what was done since.
* `VariableSet.filter_apply`: a step that is about one name leaves the other variables as they are.
* `VariableSet.Tracks` is what holds of a set and its history, `VariableSet.Tracks.apply` that every
  step keeps it, and `VariableSet.tracks_after` that it holds after every history.
* `VariableSet.insertion_ordered` is the result.
-/

namespace Stratagem

/-! ## Steps -/

/-- A change of a set of variables. -/
inductive SetStep
  | edit (e : VariableEdit)
  | remove (name : String)
  /-- The set gives way to its copy. -/
  | duplicate
deriving DecidableEq, Repr

namespace SetStep

def apply (s : VariableSet) : SetStep → VariableSet
  | .edit e => e.apply s
  | .remove name => s.remove name
  | .duplicate => s.duplicate

/-- The name that a step is about. A copy is about no name in particular. -/
def name? : SetStep → Option String
  | .edit (.add v) => some v.name
  | .edit (.set name _) => some name
  | .remove name => some name
  | .duplicate => none

/-- Whether a step adds a variable of a name. -/
def Adds (name : String) : SetStep → Prop
  | .edit (.add v) => v.name = name
  | _ => False

/-- Whether a step removes a name. -/
def Removes (name : String) : SetStep → Prop
  | .remove other => other = name
  | _ => False

/-- What a step makes of a variable that it neither replaces nor removes: an assignment to its name
is carried out if it is accepted, and a copy has no hook. -/
def onto (v : Variable) : SetStep → Variable
  | .edit (.set name value) =>
    if v.name = name ∧ (v.assign value).accepted then (v.assign value).result else v
  | .duplicate => v.duplicate
  | _ => v

variable {step : SetStep} {name name' : String}

theorem adds_iff : step.Adds name ↔ ∃ v : Variable, step = .edit (.add v) ∧ v.name = name := by
  rcases step with (v | ⟨other, value⟩) | other | _ <;> simp [Adds]

theorem Adds.not_removes (adds : step.Adds name) : ¬ step.Removes name := by
  obtain ⟨v, rfl, -⟩ := adds_iff.1 adds
  exact id

theorem Adds.unique (adds : step.Adds name) (adds' : step.Adds name') : name = name' := by
  obtain ⟨v, rfl, rfl⟩ := SetStep.adds_iff.1 adds
  exact adds'

end SetStep

/-- The set that a history of steps makes. -/
def VariableSet.after (history : List SetStep) : VariableSet :=
  history.foldl SetStep.apply .empty

theorem VariableSet.after_concat (history : List SetStep) (step : SetStep) :
    after (history ++ [step]) = step.apply (after history) := by
  rw [after, List.foldl_append]
  rfl

/-! ## Histories -/

/-- A step of a kind at a place in a history. -/
def OccursAt (kind : SetStep → Prop) (history : List SetStep) (i : Nat) : Prop :=
  ∃ step, history[i]? = some step ∧ kind step

/-- A name came in at a place in a history, and has been there since: it was added there for the
first time after it had last been removed. -/
structure EnteredAt (history : List SetStep) (name : String) (i : Nat) : Prop where
  added : OccursAt (SetStep.Adds name) history i
  first : ∀ j < i, OccursAt (SetStep.Adds name) history j →
    ∃ k, j < k ∧ k < i ∧ OccursAt (SetStep.Removes name) history k
  kept : ∀ k, i < k → ¬ OccursAt (SetStep.Removes name) history k

/-- A variable is the last that was added under a name, which was not removed since, and `later` are
the steps that came behind it. -/
structure LastAdded (history : List SetStep) (name : String) (v : Variable) (later : List SetStep) :
    Prop where
  added : ∃ before, history = before ++ .edit (.add v) :: later
  named : v.name = name
  last : ∀ step ∈ later, ¬ step.Adds name ∧ ¬ step.Removes name

section Histories

variable {history later : List SetStep} {step : SetStep} {kind : SetStep → Prop}
variable {name other : String} {i j : Nat} {v : Variable}

theorem OccursAt.lt (h : OccursAt kind history i) : i < history.length :=
  let ⟨_, there, _⟩ := h
  (List.getElem?_eq_some_iff.1 there).1

theorem occursAt_concat :
    OccursAt kind (history ++ [step]) i ↔
      OccursAt kind history i ∨ i = history.length ∧ kind step := by
  unfold OccursAt
  rcases Nat.lt_trichotomy i history.length with lt | rfl | gt
  · rw [List.getElem?_append_left lt]
    simp [Nat.ne_of_lt lt]
  · simp
  · rw [List.getElem?_eq_none (by simp; omega), List.getElem?_eq_none (Nat.le_of_lt gt)]
    simp [Nat.ne_of_gt gt]

namespace EnteredAt

theorem lt (h : EnteredAt history name i) : i < history.length := h.added.lt

/-- A name comes in at one place only. -/
theorem place_unique (h : EnteredAt history name i) (h' : EnteredAt history name j) : i = j := by
  rcases Nat.lt_trichotomy i j with lt | same | gt
  · obtain ⟨k, after, -, removed⟩ := h'.first i lt h.added
    exact absurd removed (h.kept k after)
  · exact same
  · obtain ⟨k, after, -, removed⟩ := h.first j gt h'.added
    exact absurd removed (h'.kept k after)

/-- One name only comes in at a place. -/
theorem name_unique (h : EnteredAt history name i) (h' : EnteredAt history other i) :
    name = other := by
  obtain ⟨step, there, adds⟩ := h.added
  obtain ⟨step', there', adds'⟩ := h'.added
  obtain rfl : step = step' := Option.some.inj (there.symm.trans there')
  exact adds.unique adds'

end EnteredAt

/-- A name that was added and not removed since came in somewhere. -/
theorem exists_enteredAt (added : OccursAt (SetStep.Adds name) history i)
    (kept : ∀ k, i < k → ¬ OccursAt (SetStep.Removes name) history k) :
    ∃ j, EnteredAt history name j := by
  induction i using Nat.strongRecOn with
  | ind i ih =>
    by_cases first : ∀ j < i, OccursAt (SetStep.Adds name) history j →
        ∃ k, j < k ∧ k < i ∧ OccursAt (SetStep.Removes name) history k
    · exact ⟨i, added, first, kept⟩
    · push Not at first
      obtain ⟨j, before, added', kept'⟩ := first
      refine ih j before added' fun k after removed => ?_
      rcases Nat.lt_trichotomy k i with lt | rfl | gt
      · exact kept' k after lt removed
      · obtain ⟨step, there, adds⟩ := added
        obtain ⟨step', there', removes⟩ := removed
        obtain rfl : step = step' := Option.some.inj (there.symm.trans there')
        exact adds.not_removes removes
      · exact kept k gt removed

/-- Of the places before a step, the names came in at the same ones after it, but for the name that
it removes. -/
theorem enteredAt_concat_of_lt (stays : ¬ step.Removes name) (lt : i < history.length) :
    EnteredAt (history ++ [step]) name i ↔ EnteredAt history name i := by
  have earlier : ∀ {kind j}, j < history.length →
      (OccursAt kind (history ++ [step]) j ↔ OccursAt kind history j) := fun lt => by
    rw [occursAt_concat, or_iff_left fun h => Nat.ne_of_lt lt h.1]
  have removed : ∀ k, OccursAt (SetStep.Removes name) (history ++ [step]) k ↔
      OccursAt (SetStep.Removes name) history k := fun k => by
    rw [occursAt_concat, or_iff_left fun h => stays h.2]
  constructor
  · rintro ⟨added, first, kept⟩
    refine ⟨(earlier lt).1 added, fun j before added' => ?_, fun k after => ?_⟩
    · simpa only [removed] using first j before ((earlier (before.trans lt)).2 added')
    · simpa only [removed] using kept k after
  · rintro ⟨added, first, kept⟩
    refine ⟨(earlier lt).2 added, fun j before added' => ?_, fun k after => ?_⟩
    · simpa only [removed] using first j before ((earlier (before.trans lt)).1 added')
    · simpa only [removed] using kept k after

theorem enteredAt_concat_of_keeps (stays : ¬ step.Removes name) (old : ¬ step.Adds name) :
    EnteredAt (history ++ [step]) name i ↔ EnteredAt history name i := by
  refine ⟨fun h => ?_, fun h => (enteredAt_concat_of_lt stays h.lt).2 h⟩
  rcases occursAt_concat.1 h.added with added | ⟨-, adds⟩
  · exact (enteredAt_concat_of_lt stays added.lt).1 h
  · exact absurd adds old

/-- A name that is added comes in there if it is not in yet. -/
theorem enteredAt_concat_of_adds (adds : step.Adds name) :
    EnteredAt (history ++ [step]) name i ↔
      EnteredAt history name i ∨ i = history.length ∧ ∀ j, ¬ EnteredAt history name j := by
  have stays := adds.not_removes
  constructor
  · intro h
    rcases occursAt_concat.1 h.added with added | ⟨rfl, -⟩
    · exact .inl ((enteredAt_concat_of_lt stays added.lt).1 h)
    · refine .inr ⟨rfl, fun j h' => ?_⟩
      exact Nat.ne_of_lt h'.lt (((enteredAt_concat_of_lt stays h'.lt).2 h').place_unique h)
  · rintro (h | ⟨rfl, new⟩)
    · exact (enteredAt_concat_of_lt stays h.lt).2 h
    · refine ⟨occursAt_concat.2 (.inr ⟨rfl, adds⟩), fun j before added => ?_, fun k after h => ?_⟩
      · have added := (occursAt_concat.1 added).resolve_right fun h => Nat.ne_of_lt before h.1
        by_contra kept
        push Not at kept
        obtain ⟨i, h⟩ := exists_enteredAt added fun k after removed =>
          kept k after removed.lt (occursAt_concat.2 (.inl removed))
        exact new i h
      · have short := h.lt
        simp only [List.length_append, List.length_singleton] at short
        omega

theorem not_enteredAt_concat_of_removes (removes : step.Removes name) :
    ¬ EnteredAt (history ++ [step]) name i := by
  intro h
  have last : OccursAt (SetStep.Removes name) (history ++ [step]) history.length :=
    occursAt_concat.2 (.inr ⟨rfl, removes⟩)
  rcases occursAt_concat.1 h.added with added | ⟨-, adds⟩
  · exact h.kept _ added.lt last
  · exact adds.not_removes removes

/-- After a step, either it adds the variable, or it concerns another and comes behind the rest. -/
theorem lastAdded_concat :
    LastAdded (history ++ [step]) name v later ↔
      (step = .edit (.add v) ∧ v.name = name ∧ later = []) ∨
      ∃ rest, later = rest ++ [step] ∧ LastAdded history name v rest ∧
        ¬ step.Adds name ∧ ¬ step.Removes name := by
  constructor
  · rintro ⟨⟨before, whole⟩, named, last⟩
    rcases List.eq_nil_or_concat later with rfl | ⟨rest, step', rfl⟩
    · obtain ⟨-, same⟩ := List.append_inj' whole rfl
      exact .inl ⟨List.singleton_inj.1 same, named, rfl⟩
    · rw [List.concat_eq_append, ← List.cons_append, ← List.append_assoc] at whole
      obtain ⟨rfl, same⟩ := List.append_inj' whole rfl
      obtain rfl := List.singleton_inj.1 same
      rw [List.concat_eq_append] at last ⊢
      refine .inr ⟨rest, rfl, ⟨⟨before, rfl⟩, named, fun s met => ?_⟩, ?_⟩
      · exact last s (List.mem_append_left _ met)
      · exact last step (List.mem_append_right _ (List.mem_singleton_self step))
  · rintro (⟨rfl, named, rfl⟩ | ⟨rest, rfl, ⟨⟨before, rfl⟩, named, last⟩, old, stays⟩)
    · exact ⟨⟨history, rfl⟩, named, fun _ met => absurd met List.not_mem_nil⟩
    · refine ⟨⟨before, by rw [← List.cons_append, List.append_assoc]⟩, named, fun s met => ?_⟩
      rcases List.mem_append.1 met with met | met
      · exact last s met
      · rw [List.mem_singleton.1 met]
        exact ⟨old, stays⟩

end Histories

/-! ## One step -/

theorem Variable.name_assign (v : Variable) (value : Value) :
    (v.assign value).result.name = v.name := by
  unfold assign
  split
  · rfl
  · dsimp only
    split <;> rfl

/-- A refused assignment changes nothing. -/
theorem Variable.result_of_refused {v : Variable} {value : Value}
    (refused : (v.assign value).accepted = false) : (v.assign value).result = v := by
  unfold assign at refused ⊢
  cases stored : v.accepts? value with
  | none => rfl
  | some next =>
    simp only [stored] at refused
    split at refused <;> cases refused

namespace VariableSet

variable {s : VariableSet} {history : List SetStep} {step : SetStep} {name other : String}
variable {vars : List Variable} {f : Variable → Variable} {u v : Variable} {id : VariableId}

/-- The names, in order. -/
def names (s : VariableSet) : List String := s.toList.map Variable.name

theorem mem_of_get? (found : s.get? name = some v) : v ∈ s.toList ∧ v.name = name :=
  ⟨List.mem_of_find?_eq_some found, by simpa using List.find?_some found⟩

theorem get?_eq_none_iff : s.get? name = none ↔ name ∉ s.names := by
  simp [get?, names]

/-- If no name is twice in a set, every variable is found under its name. -/
theorem get?_of_mem (nodup : s.names.Nodup) (met : v ∈ s.toList) : s.get? v.name = some v := by
  obtain ⟨vars⟩ := s
  show vars.find? (·.name = v.name) = some v
  induction vars with
  | nil => exact absurd met List.not_mem_nil
  | cons first rest ih =>
    obtain ⟨fresh, nodup⟩ := List.nodup_cons.1 nodup
    rcases List.mem_cons.1 met with rfl | met
    · exact List.find?_cons_of_pos (by simp)
    · have differ : first.name ≠ v.name := fun same => fresh (same ▸ List.mem_map_of_mem met)
      rw [List.find?_cons_of_neg (by simpa using differ)]
      exact ih nodup met

section UpdateFirst

variable (keeps : ∀ u : Variable, u.name = name → (f u).name = name)

include keeps

theorem map_name_updateFirst :
    (updateFirst name f vars).map Variable.name = vars.map Variable.name := by
  induction vars with
  | nil => rfl
  | cons v rest ih =>
    rw [updateFirst]
    split
    · next same => rw [List.map_cons, List.map_cons, keeps v same, same]
    · rw [List.map_cons, List.map_cons, ih]

theorem find?_updateFirst :
    (updateFirst name f vars).find? (·.name = name) = (vars.find? (·.name = name)).map f := by
  induction vars with
  | nil => rfl
  | cons v rest ih =>
    rw [updateFirst]
    split
    · next same => simp [same, keeps v same]
    · next differ => simpa [differ] using ih

/-- The variables of other names are as they were. -/
theorem filter_updateFirst :
    (updateFirst name f vars).filter (·.name ≠ name) = vars.filter (·.name ≠ name) := by
  induction vars with
  | nil => rfl
  | cons v rest ih =>
    rw [updateFirst]
    split
    · next same => simp [same, keeps v same]
    · next differ => simpa [differ] using ih

end UpdateFirst

/-- Only the variable that is found matters to an update. -/
theorem updateFirst_of_find? (found : vars.find? (·.name = name) = some v) :
    updateFirst name (fun _ => f v) vars = updateFirst name f vars := by
  induction vars with
  | nil => rfl
  | cons first rest ih =>
    rw [updateFirst, updateFirst]
    split
    · next same =>
      rw [List.find?_cons_of_pos (by simpa using same)] at found
      rw [Option.some.inj found]
    · next differ =>
      rw [List.find?_cons_of_neg (by simpa using differ)] at found
      rw [ih found]

/-- An update that does not change the variable that is found, if one is found, changes nothing. -/
theorem updateFirst_eq_self (fixed : ∀ v, vars.find? (·.name = name) = some v → f v = v) :
    updateFirst name f vars = vars := by
  induction vars with
  | nil => rfl
  | cons first rest ih =>
    rw [updateFirst]
    split
    · next same => rw [fixed first (List.find?_cons_of_pos (by simpa using same))]
    · next differ =>
      rw [List.find?_cons_of_neg (by simpa using differ)] at fixed
      rw [ih fixed]

/-- An assignment by name is one to the first variable of the name, if there is one. -/
theorem toList_set (s : VariableSet) (name : String) (value : Value) :
    (s.set name value).result.toList =
      updateFirst name (fun u => (u.assign value).result) s.toList := by
  unfold set
  cases found : s.get? name with
  | none => exact (updateFirst_eq_self fun v found' => by cases found.symm.trans found').symm
  | some v => exact updateFirst_of_find? (f := fun u => (u.assign value).result) found

theorem name_result_assign (value : Value) (u : Variable) (same : u.name = name) :
    (u.assign value).result.name = name :=
  (u.name_assign value).trans same

theorem accepted_set (s : VariableSet) (name : String) (value : Value) :
    (s.set name value).accepted = (s.get? name).any fun v => (v.assign value).accepted := by
  unfold set
  cases s.get? name <;> rfl

/-- A set that refuses an assignment is left as it was. -/
theorem result_of_refused {value : Value} (refused : (s.set name value).accepted = false) :
    (s.set name value).result = s := by
  rw [accepted_set] at refused
  refine congrArg VariableSet.mk ((s.toList_set name value).trans (updateFirst_eq_self ?_))
  intro v found
  change s.get? name = some v at found
  rw [found] at refused
  exact Variable.result_of_refused refused

/-! ### Names -/

theorem names_add (s : VariableSet) (v : Variable) :
    (s.add v).names = if v.name ∈ s.names then s.names else s.names ++ [v.name] := by
  have known : s.toList.any (·.name = v.name) ↔ v.name ∈ s.names := by simp [names]
  unfold add
  by_cases old : v.name ∈ s.names
  · rw [if_pos old, if_pos (known.2 old)]
    exact map_name_updateFirst fun _ _ => rfl
  · rw [if_neg old, if_neg (mt known.1 old)]
    exact List.map_append

theorem names_set (s : VariableSet) (name : String) (value : Value) :
    (s.set name value).result.names = s.names := by
  rw [names, toList_set]
  exact map_name_updateFirst (name_result_assign value)

theorem names_remove (s : VariableSet) (name : String) :
    (s.remove name).names = s.names.erase name := by
  rw [List.erase_eq_eraseP', names, names, List.eraseP_map]
  rfl

theorem names_duplicate (s : VariableSet) : s.duplicate.names = s.names := List.map_map

/-- The names after a step are some of the old ones, or a new one comes last. -/
theorem names_apply (s : VariableSet) (step : SetStep) :
    (step.apply s).names.Sublist s.names ∨
      ∃ v, step = .edit (.add v) ∧ v.name ∉ s.names ∧
        (step.apply s).names = s.names ++ [v.name] := by
  rcases step with (v | ⟨name, value⟩) | name | _
  · have now : ((SetStep.edit (.add v)).apply s).names = _ := s.names_add v
    by_cases old : v.name ∈ s.names
    · rw [now, if_pos old]
      exact .inl (.refl _)
    · rw [now, if_neg old]
      exact .inr ⟨v, rfl, old, rfl⟩
  · exact .inl (s.names_set name value ▸ .refl _)
  · exact .inl (s.names_remove name ▸ List.erase_sublist)
  · exact .inl (s.names_duplicate ▸ .refl _)

theorem mem_names_apply (nodup : s.names.Nodup) :
    name ∈ (step.apply s).names ↔ step.Adds name ∨ name ∈ s.names ∧ ¬ step.Removes name := by
  rcases step with (v | ⟨other, value⟩) | other | _
  · show name ∈ (s.add v).names ↔ v.name = name ∨ name ∈ s.names ∧ ¬ False
    rw [names_add]
    split
    · next old => exact ⟨fun met => .inr ⟨met, id⟩, fun h => h.elim (· ▸ old) (·.1)⟩
    · simp [or_comm, eq_comm]
  · show name ∈ (s.set other value).result.names ↔ False ∨ name ∈ s.names ∧ ¬ False
    simp [names_set]
  · show name ∈ (s.remove other).names ↔ False ∨ name ∈ s.names ∧ ¬ other = name
    simp [names_remove, nodup.mem_erase_iff, and_comm, eq_comm]
  · show name ∈ s.duplicate.names ↔ False ∨ name ∈ s.names ∧ ¬ False
    simp [names_duplicate]

/-! ### Variables -/

/-- A step that is about one name leaves the other variables as they are, in their order. -/
theorem filter_apply (about : step.name? = some name) (s : VariableSet) :
    (step.apply s).toList.filter (·.name ≠ name) = s.toList.filter (·.name ≠ name) := by
  rcases step with (v | ⟨other, value⟩) | other | _
  · obtain rfl : v.name = name := Option.some.inj about
    show (s.add v).toList.filter _ = _
    unfold add
    split
    · exact filter_updateFirst fun _ _ => rfl
    · simp
  · obtain rfl : other = name := Option.some.inj about
    show (s.set other value).result.toList.filter _ = _
    rw [toList_set]
    exact filter_updateFirst (name_result_assign value)
  · obtain rfl : other = name := Option.some.inj about
    show (s.toList.eraseP (·.name = other)).filter _ = _
    rcases List.exists_or_eq_self_of_eraseP (·.name = other) s.toList with
      same | ⟨v, before, after, -, named, whole, left⟩
    · rw [same]
    · have out : ¬ v.name ≠ other := by simpa using named
      rw [left, whole, List.filter_append, List.filter_append,
        List.filter_cons_of_neg (by simpa using out)]
  · cases about

theorem get?_apply_of_ne (about : step.name? = some name) (differ : other ≠ name)
    (s : VariableSet) : (step.apply s).get? other = s.get? other := by
  have among (s : VariableSet) :
      s.get? other = (s.toList.filter (·.name ≠ name)).find? (·.name = other) := by
    rw [List.find?_filter, get?]
    congr 1
    funext v
    by_cases here : v.name = other
    · simp [here, differ]
    · simp [here]
  rw [among, among s, filter_apply about]

theorem get?_apply_of_removes (nodup : s.names.Nodup) (removes : step.Removes name) :
    (step.apply s).get? name = none := by
  rw [get?_eq_none_iff, mem_names_apply nodup]
  rintro (adds | ⟨-, stays⟩)
  · exact adds.not_removes removes
  · exact stays removes

theorem get?_apply_of_adds (s : VariableSet) (v : Variable) :
    ((SetStep.edit (.add v)).apply s).get? v.name = some v := by
  show (s.add v).toList.find? (·.name = v.name) = some v
  unfold add
  split
  · next known =>
    obtain ⟨u, found⟩ := Option.isSome_iff_exists.1 (List.find?_isSome.2 (List.any_eq_true.1 known))
    rw [find?_updateFirst fun _ _ => rfl, found]
    rfl
  · next fresh =>
    have missed : s.toList.find? (·.name = v.name) = none := by simpa using fresh
    simp [missed]

/-- A step that neither replaces the variable of a name nor removes it does to it what it does to any
variable. -/
theorem get?_apply_of_keeps (old : ¬ step.Adds name) (stays : ¬ step.Removes name)
    (s : VariableSet) : (step.apply s).get? name = (s.get? name).map (SetStep.onto · step) := by
  rcases step with (v | ⟨other, value⟩) | other | _
  · rw [get?_apply_of_ne rfl (Ne.symm old) s]
    exact Option.map_id'.symm
  · by_cases same : name = other
    · subst same
      show (s.set name value).result.toList.find? (·.name = name) = _
      rw [toList_set, find?_updateFirst (name_result_assign value)]
      refine Option.map_congr fun u found => ?_
      have named : u.name = name := (mem_of_get? found).2
      cases taken : (u.assign value).accepted with
      | true => simp [SetStep.onto, named, taken]
      | false => simp [SetStep.onto, taken, Variable.result_of_refused taken]
    · rw [get?_apply_of_ne rfl same s]
      refine ((Option.map_congr fun u found => ?_).trans Option.map_id').symm
      have named : u.name = name := (mem_of_get? found).2
      simp [SetStep.onto, named, same]
  · rw [get?_apply_of_ne rfl (Ne.symm stays) s]
    exact Option.map_id'.symm
  · exact List.find?_map

/-! ## Sets and their histories -/

/-- What holds of a set and its history: no name is twice in it; it has the names that came in and are
there still, in the order in which they came; and under a name it has the variable that was last
added, as the steps since have made it. -/
structure Tracks (s : VariableSet) (history : List SetStep) : Prop where
  nodup : s.names.Nodup
  present : ∀ name, name ∈ s.names ↔ ∃ i, EnteredAt history name i
  ordered : s.names.Pairwise fun name other =>
    ∀ i j, EnteredAt history name i → EnteredAt history other j → i < j
  found : ∀ name u, s.get? name = some u ↔
    ∃ v later, LastAdded history name v later ∧ later.foldl SetStep.onto v = u

namespace Tracks

theorem empty : VariableSet.empty.Tracks [] where
  nodup := .nil
  present := by
    intro name
    refine iff_of_false List.not_mem_nil fun ⟨i, h⟩ => ?_
    exact absurd h.lt (Nat.not_lt_zero i)
  ordered := .nil
  found := by
    intro name u
    refine iff_of_false (fun h => by cases h) fun ⟨v, later, h, _⟩ => ?_
    obtain ⟨before, whole⟩ := h.added
    exact absurd whole.symm (by simp)

/-- A name of a set that a step does not remove came in where it came in. -/
theorem enteredAt_concat (h : s.Tracks history) (known : name ∈ s.names)
    (stays : ¬ step.Removes name) {i : Nat} :
    EnteredAt (history ++ [step]) name i ↔ EnteredAt history name i := by
  by_cases adds : step.Adds name
  · obtain ⟨j, entered⟩ := (h.present name).1 known
    rw [enteredAt_concat_of_adds adds]
    exact or_iff_left fun new => new.2 j entered
  · exact enteredAt_concat_of_keeps stays adds

theorem present_apply (h : s.Tracks history) (step : SetStep) (name : String) :
    name ∈ (step.apply s).names ↔ ∃ i, EnteredAt (history ++ [step]) name i := by
  rw [mem_names_apply h.nodup]
  by_cases removes : step.Removes name
  · refine iff_of_false ?_ fun ⟨i, entered⟩ => not_enteredAt_concat_of_removes removes entered
    rintro (adds | ⟨-, stays⟩)
    · exact adds.not_removes removes
    · exact stays removes
  by_cases known : name ∈ s.names
  · simp only [h.enteredAt_concat known removes, ← h.present, known, removes, not_false_eq_true,
      and_self, or_true]
  have new : ∀ j, ¬ EnteredAt history name j := fun j entered =>
    known ((h.present name).2 ⟨j, entered⟩)
  by_cases adds : step.Adds name
  · exact iff_of_true (.inl adds) ⟨_, (enteredAt_concat_of_adds adds).2 (.inr ⟨rfl, new⟩)⟩
  · refine iff_of_false (fun h => h.elim adds fun h => known h.1) fun ⟨i, entered⟩ => ?_
    exact new i ((enteredAt_concat_of_keeps removes adds).1 entered)

theorem ordered_apply (h : s.Tracks history) (step : SetStep) :
    (step.apply s).names.Pairwise fun name other => ∀ i j,
      EnteredAt (history ++ [step]) name i → EnteredAt (history ++ [step]) other j → i < j := by
  have stays : ∀ name ∈ (step.apply s).names, ¬ step.Removes name := by
    intro name met
    rcases (mem_names_apply h.nodup).1 met with adds | ⟨-, stays⟩
    · exact adds.not_removes
    · exact stays
  rcases s.names_apply step with old | ⟨v, rfl, fresh, new⟩
  · refine (h.ordered.sublist old).imp_of_mem fun {name other} met met' before i j => ?_
    rw [h.enteredAt_concat (old.subset met) (stays _ met),
      h.enteredAt_concat (old.subset met') (stays _ met')]
    exact before i j
  · -- the name that is added came in last of all
    rw [new] at stays ⊢
    refine List.pairwise_append.2 ⟨?_, List.pairwise_singleton .., ?_⟩
    · refine h.ordered.imp_of_mem fun {name other} met met' before i j => ?_
      rw [h.enteredAt_concat met (stays _ (List.mem_append_left _ met)),
        h.enteredAt_concat met' (stays _ (List.mem_append_left _ met'))]
      exact before i j
    · intro name met other met' i j entered entered'
      obtain rfl := List.mem_singleton.1 met'
      rw [h.enteredAt_concat met (stays _ (List.mem_append_left _ met))] at entered
      have adds : (SetStep.edit (.add v)).Adds v.name := rfl
      rcases (enteredAt_concat_of_adds adds).1 entered' with entered' | ⟨rfl, -⟩
      · exact absurd ((h.present _).2 ⟨j, entered'⟩) fresh
      · exact entered.lt

theorem found_apply (h : s.Tracks history) (step : SetStep) (name : String) (u : Variable) :
    (step.apply s).get? name = some u ↔
      ∃ v later, LastAdded (history ++ [step]) name v later ∧
        later.foldl SetStep.onto v = u := by
  simp only [lastAdded_concat]
  by_cases removes : step.Removes name
  · rw [get?_apply_of_removes h.nodup removes]
    refine iff_of_false (fun found => by cases found) ?_
    rintro ⟨v, later, ⟨rfl, -, -⟩ | ⟨rest, -, -, -, stays⟩, -⟩
    · exact removes
    · exact stays removes
  by_cases adds : step.Adds name
  · obtain ⟨v, rfl, rfl⟩ := SetStep.adds_iff.1 adds
    rw [s.get?_apply_of_adds v]
    constructor
    · exact fun same => ⟨v, [], .inl ⟨rfl, rfl, rfl⟩, Option.some.inj same⟩
    · rintro ⟨v', later, ⟨same, -, rfl⟩ | ⟨rest, -, -, old, -⟩, rfl⟩
      · cases same
        rfl
      · exact absurd adds old
  · rw [get?_apply_of_keeps adds removes, Option.map_eq_some_iff]
    constructor
    · rintro ⟨u, before, rfl⟩
      obtain ⟨v, rest, last, rfl⟩ := (h.found name u).1 before
      exact ⟨v, rest ++ [step], .inr ⟨rest, rfl, last, adds, removes⟩, List.foldl_concat ..⟩
    · rintro ⟨v, later, ⟨rfl, named, -⟩ | ⟨rest, rfl, last, -, -⟩, rfl⟩
      · exact absurd named adds
      · refine ⟨rest.foldl SetStep.onto v, ?_, (List.foldl_concat ..).symm⟩
        exact (h.found name _).2 ⟨v, rest, last, rfl⟩

theorem apply (h : s.Tracks history) (step : SetStep) :
    (step.apply s).Tracks (history ++ [step]) where
  nodup := by
    rcases s.names_apply step with old | ⟨v, -, fresh, new⟩
    · exact h.nodup.sublist old
    · rw [new]
      exact List.nodup_append.2 ⟨h.nodup, List.nodup_singleton _, fun a met b met' same =>
        fresh (List.mem_singleton.1 met' ▸ same ▸ met)⟩
  present := h.present_apply step
  ordered := h.ordered_apply step
  found := h.found_apply step

end Tracks

theorem tracks_after (history : List SetStep) : (after history).Tracks history := by
  induction history using List.reverseRecOn with
  | nil => exact .empty
  | append_singleton history step ih =>
    rw [after_concat]
    exact ih.apply step

namespace Tracks

theorem size_eq (h : s.Tracks history) : s.size = {name | ∃ i, EnteredAt history name i}.ncard := by
  have names : {name | ∃ i, EnteredAt history name i} = (s.names.toFinset : Set String) := by
    ext name
    simp [h.present]
  rw [names, Set.ncard_coe_finset, List.toFinset_card_of_nodup h.nodup]
  exact (List.length_map _).symm

theorem byId?_eq_none_iff (h : s.Tracks history) :
    s.byId? id = none ↔ ∀ name u, s.get? name = some u → u.id ≠ id := by
  have listed : s.byId? id = none ↔ ∀ u ∈ s.toList, u.id ≠ id := by simp [byId?]
  rw [listed]
  constructor
  · exact fun none name u found => none u (mem_of_get? found).1
  · exact fun none u met => none u.name u (get?_of_mem h.nodup met)

/-- The first variable with an identifier, in the order in which the names came. -/
theorem first_of_byId? (h : s.Tracks history) (found : s.byId? id = some u) :
    s.get? u.name = some u ∧ u.id = id ∧ ∀ v, s.get? v.name = some v → v.id = id →
      ∀ i j, EnteredAt history u.name i → EnteredAt history v.name j → i ≤ j := by
  obtain ⟨same, before, rest, whole, others⟩ := List.find?_eq_some_iff_append.1 found
  have met : u ∈ s.toList := by simp [whole]
  refine ⟨get?_of_mem h.nodup met, by simpa using same, fun v there has i j entered entered' => ?_⟩
  have met' := (mem_of_get? there).1
  rw [whole] at met'
  rcases List.mem_append.1 met' with first | later
  · exact absurd has (by simpa using others v first)
  rcases List.mem_cons.1 later with rfl | later
  · exact Nat.le_of_eq (entered.place_unique entered')
  · have ordered := h.ordered
    rw [names, whole, List.map_append] at ordered
    have behind := (List.pairwise_cons.1 (List.pairwise_append.1 ordered).2.1).1
    exact Nat.le_of_lt (behind v.name (List.mem_map_of_mem later) i j entered entered')

theorem byId?_eq_some_iff (h : s.Tracks history) :
    s.byId? id = some u ↔
      s.get? u.name = some u ∧ u.id = id ∧ ∀ v, s.get? v.name = some v → v.id = id →
        ∀ i j, EnteredAt history u.name i → EnteredAt history v.name j → i ≤ j := by
  refine ⟨h.first_of_byId?, fun ⟨there, has, first⟩ => ?_⟩
  cases found : s.byId? id with
  | none => exact absurd has (h.byId?_eq_none_iff.1 found u.name u there)
  | some v =>
    -- each of the two came in no later than the other
    obtain ⟨there', has', first'⟩ := h.first_of_byId? found
    have known {w : Variable} (there : s.get? w.name = some w) : ∃ i, EnteredAt history w.name i :=
      (h.present w.name).1 (List.mem_map_of_mem (mem_of_get? there).1)
    obtain ⟨i, entered⟩ := known there
    obtain ⟨j, entered'⟩ := known there'
    obtain rfl : i = j := Nat.le_antisymm (first v there' has' i j entered entered')
      (first' u there has j i entered' entered)
    rw [entered.name_unique entered'] at there
    exact there'.symm.trans there

end Tracks

/-- A set is the map from names to variables, in order of entry, that its history describes. -/
structure InsertionOrdered (s : VariableSet) (history : List SetStep) : Prop
    extends Tracks s history where
  /-- Every variable of the list is the one of its name. -/
  listed : ∀ v ∈ s.toList, s.get? v.name = some v
  counted : s.size = {name | ∃ i, EnteredAt history name i}.ncard
  /-- Of the variables with an identifier, the one is found whose name came first. -/
  first : ∀ id u, s.byId? id = some u ↔
    s.get? u.name = some u ∧ u.id = id ∧ ∀ v, s.get? v.name = some v → v.id = id →
      ∀ i j, EnteredAt history u.name i → EnteredAt history v.name j → i ≤ j
  missing : ∀ id, s.byId? id = none ↔ ∀ name u, s.get? name = some u → u.id ≠ id

/-- Whatever is added, assigned, removed and copied, in whatever order and from the empty set on, the
set is a map from names to variables in order of entry: its names differ, and are listed in the order
in which they came in since they were last removed; under a name is the variable that was last added,
with what was assigned to it since, as far as that was accepted; the set counts the names that are
there; and by an identifier the first variable in that order is found. An assignment is accepted if
there is a variable of the name that accepts it, and if not changes nothing. A step that is about one
name leaves the other variables as they are, in their order. -/
theorem insertion_ordered (history : List SetStep) :
    let s := after history
    s.InsertionOrdered history ∧
    (∀ name value,
      ((s.set name value).accepted = true ↔
        ∃ v, s.get? name = some v ∧ (v.assign value).accepted = true) ∧
      ((s.set name value).accepted = false → (s.set name value).result = s)) ∧
    ∀ (step : SetStep) name, step.name? = some name →
      (step.apply s).toList.filter (·.name ≠ name) = s.toList.filter (·.name ≠ name) := by
  intro s
  have h : s.Tracks history := tracks_after history
  refine ⟨⟨h, fun v met => get?_of_mem h.nodup met, h.size_eq, fun id u => h.byId?_eq_some_iff,
    fun id => h.byId?_eq_none_iff⟩, fun name value => ⟨?_, result_of_refused⟩,
    fun step name about => filter_apply about s⟩
  rw [accepted_set, Option.any_eq_true]

/-- A name that was removed and is added again comes last; one that is only added again does not. -/
example :
    let luck : Variable := { id := ⟨⟨1⟩⟩, name := "Luck", value := .integer 7 }
    let mood : Variable := { id := ⟨⟨2⟩⟩, name := "Mood", value := .bool true }
    (after [.edit (.add luck), .edit (.add mood), .remove "Luck", .edit (.add luck),
      .edit (.add mood)]).names = ["Mood", "Luck"] := by decide

end VariableSet

end Stratagem
