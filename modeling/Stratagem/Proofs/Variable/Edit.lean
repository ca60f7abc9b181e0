import Stratagem.Proofs.Variable.Document

/-!
# Edits of variables

A host changes the variables of an owner by adding one or by assigning to one. Every double among
them stays finite unless an edit brings in one that is not.

* `VariableEdit.apply` is what an edit does to a set.
* `VariableSet.mem_updateFirst`: what is in a set after its first variable of a name is changed.
* `VariableSet.isFinite_apply` is what every edit keeps.
-/

namespace Stratagem

/-- A change of the variables of one owner. -/
inductive VariableEdit
  | add (v : Variable)
  /-- An assignment to the first variable of a name. -/
  | set (name : String) (value : Value)
deriving DecidableEq, Repr

namespace VariableEdit

/-- The value that an edit brings in. -/
def value : VariableEdit → Value
  | .add v => v.value
  | .set _ value => value

/-- The variables of an owner after an edit. -/
def apply (s : VariableSet) : VariableEdit → VariableSet
  | .add v => s.add v
  | .set name value => (s.set name value).result

end VariableEdit

/-! ## What an edit keeps -/

theorem Value.isFinite_iff {v : Value} :
    v.isFinite = true ↔ ∀ x, v = .float x → x.isFinite = true := by
  cases v with
  | float x => simp [isFinite]
  | _ => simp [isFinite]

/-- What is assigned is the old value, the new one, or an index into the old options. -/
theorem Variable.isFinite_assign {v : Variable} {next : Value}
    (old : v.value.isFinite = true) (new : next.isFinite = true) :
    (v.assign next).result.value.isFinite = true := by
  have stored {value : Value} (accepted : v.accepts? next = some value) :
      value.isFinite = true := by
    unfold accepts? at accepted
    split at accepted
    · split at accepted
      · obtain rfl := Option.some.inj accepted
        rfl
      · cases accepted
    · split at accepted
      · obtain rfl := Option.some.inj accepted
        exact new
      · cases accepted
  unfold assign
  cases accepted : v.accepts? next with
  | none => exact old
  | some value =>
    dsimp only
    split
    · exact old
    · exact stored accepted

namespace VariableSet

/-- A variable after an update was there before, or is an updated one. -/
theorem mem_updateFirst {name : String} {f : Variable → Variable} {vars : List Variable}
    {u : Variable} (h : u ∈ updateFirst name f vars) : u ∈ vars ∨ ∃ v ∈ vars, u = f v := by
  induction vars with
  | nil => cases h
  | cons v vars ih =>
    rw [updateFirst] at h
    split at h
    · rcases List.mem_cons.1 h with rfl | h
      · exact .inr ⟨v, List.mem_cons_self, rfl⟩
      · exact .inl (List.mem_cons_of_mem _ h)
    · rcases List.mem_cons.1 h with rfl | h
      · exact .inl List.mem_cons_self
      · rcases ih h with h | ⟨v, hv, rfl⟩
        · exact .inl (List.mem_cons_of_mem _ h)
        · exact .inr ⟨v, List.mem_cons_of_mem _ hv, rfl⟩

theorem isFinite_iff {s : VariableSet} :
    s.isFinite = true ↔ ∀ v ∈ s.toList, v.value.isFinite = true :=
  List.all_eq_true

theorem isFinite_add {s : VariableSet} {v : Variable} (old : s.isFinite = true)
    (new : v.value.isFinite = true) : (s.add v).isFinite = true := by
  rw [isFinite_iff] at old ⊢
  intro u hu
  unfold add at hu
  split at hu
  · rcases mem_updateFirst hu with hu | ⟨-, -, rfl⟩
    · exact old u hu
    · exact new
  · rcases List.mem_append.1 hu with hu | hu
    · exact old u hu
    · rwa [List.mem_singleton.1 hu]

theorem isFinite_set {s : VariableSet} {name : String} {value : Value} (old : s.isFinite = true)
    (new : value.isFinite = true) : (s.set name value).result.isFinite = true := by
  unfold set
  cases found : s.get? name with
  | none => exact old
  | some v =>
    have there : v ∈ s.toList := List.mem_of_find?_eq_some found
    rw [isFinite_iff] at old ⊢
    intro u hu
    rcases mem_updateFirst hu with hu | ⟨-, -, rfl⟩
    · exact old u hu
    · exact Variable.isFinite_assign (old v there) new

theorem isFinite_apply {s : VariableSet} {edit : VariableEdit} (old : s.isFinite = true)
    (new : edit.value.isFinite = true) : (edit.apply s).isFinite = true := by
  cases edit with
  | add v => exact isFinite_add old new
  | set name value => exact isFinite_set old new

end VariableSet

end Stratagem
