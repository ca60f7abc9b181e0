import Stratagem.Variable.Set

/-!
# Schemes

A scheme is a social action between a conspirator and, usually, a target. A rule graph decides
whether it may start.
-/

namespace Stratagem

/-- A social action gated by a rule. -/
structure Scheme where
  id : String
  name : String
  /-- The rule that decides whether the scheme may start. -/
  ruleId : String
  description : Option String
  /-- The scheme acts on the conspirator alone, and a target is out of place. -/
  solitary : Bool
  vars : VariableSet
deriving DecidableEq, Repr

/-- A scheme that needs a target, without description and variables. -/
def Scheme.create (id name ruleId : String) : Scheme :=
  { id, name, ruleId, description := none, solitary := false, vars := .empty }

end Stratagem
