import Stratagem.Variable.Basic

/-!
# Variable sets

The variables of one owner, in order. Look-ups by name and by identifier take the first match.

* `VariableSet.add` replaces the first variable of the same name in its place, or comes last.
* `VariableSet.set` assigns to the first variable of a name.
* A set that was read or renamed may hold a name twice; sets built by `add` never do.
-/

namespace Stratagem

/-- The variables of an owner, in order. -/
structure VariableSet where
  toList : List Variable
deriving DecidableEq, Repr

namespace VariableSet

/-- The set without variables. -/
def empty : VariableSet := ⟨[]⟩

instance : Inhabited VariableSet := ⟨empty⟩

def size (s : VariableSet) : Nat := s.toList.length

def isEmpty (s : VariableSet) : Bool := s.toList.isEmpty

/-- The first variable of a name. -/
def get? (s : VariableSet) (name : String) : Option Variable :=
  s.toList.find? (·.name = name)

/-- The first variable with an identifier. -/
def byId? (s : VariableSet) (id : VariableId) : Option Variable :=
  s.toList.find? (·.id = id)

/-- Change the first variable of a name. -/
def updateFirst (name : String) (f : Variable → Variable) : List Variable → List Variable
  | [] => []
  | v :: rest => if v.name = name then f v :: rest else v :: updateFirst name f rest

/-- Add a variable, in place of the first one of the same name. -/
def add (s : VariableSet) (v : Variable) : VariableSet :=
  if s.toList.any (·.name = v.name) then ⟨updateFirst v.name (fun _ => v) s.toList⟩
  else ⟨s.toList ++ [v]⟩

/-- What became of an assignment by name. -/
structure Assignment where
  /-- The set afterwards. -/
  result : VariableSet
  /-- Whether there is such a variable and it took the value. -/
  accepted : Bool
  /-- What the change hook was shown, if it was called. -/
  notified : Option Variable
deriving DecidableEq, Repr

/-- Assign a value to the first variable of a name. -/
def set (s : VariableSet) (name : String) (value : Value) : Assignment :=
  match s.get? name with
  | none => { result := s, accepted := false, notified := none }
  | some v =>
    let a := v.assign value
    { result := ⟨updateFirst name (fun _ => a.result) s.toList⟩
      accepted := a.accepted
      notified := a.notified }

/-- Remove the first variable of a name. -/
def remove (s : VariableSet) (name : String) : VariableSet :=
  ⟨s.toList.eraseP (·.name = name)⟩

/-- Give the first variable of a name another name. -/
def rename (s : VariableSet) (name newName : String) : VariableSet :=
  ⟨updateFirst name (fun v => { v with name := newName }) s.toList⟩

/-- Copies of all variables, for another owner. -/
def duplicate (s : VariableSet) : VariableSet := ⟨s.toList.map Variable.duplicate⟩

end VariableSet

end Stratagem
