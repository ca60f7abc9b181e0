import Stratagem.Binary64.Basic
import Stratagem.Uuid

/-!
# Variables

A variable is a named value of a kind that it keeps for life.

* `Value` is a value of one of nine kinds; `Value.agrees` is equality of values, which compares
  floats as numbers: NaN agrees with nothing and the two zeros agree.
* `Variable.assign` takes a value of the variable's own kind and refuses every other. An
  enumeration keeps its own options: only the index is assigned, and it must select one of them.
  The change hook is called only if the new value does not agree with the old one.
-/

namespace Stratagem

/-- The kinds of values. -/
inductive ValueKind
  | string | integer | float | bool | object | enumeration | actor | clan | family
deriving DecidableEq, Repr

/-- The name of a kind. -/
def ValueKind.name : ValueKind → String
  | .string => "String"
  | .integer => "Integer"
  | .float => "Float"
  | .bool => "Bool"
  | .object => "Object"
  | .enumeration => "Enum"
  | .actor => "Actor"
  | .clan => "Clan"
  | .family => "Family"

/-- A value of a variable. -/
inductive Value
  | string (s : String)
  | integer (i : Int64)
  | float (x : Binary64)
  | bool (b : Bool)
  /-- The key of an object of the host, if any. -/
  | object (key : Option String)
  /-- An index into a list of labels. -/
  | enumeration (index : UInt64) (options : List String)
  | actor (id : Option ActorId)
  | clan (id : Option ClanId)
  | family (id : Option FamilyId)
deriving DecidableEq, Repr

namespace Value

def kind : Value → ValueKind
  | .string _ => .string
  | .integer _ => .integer
  | .float _ => .float
  | .bool _ => .bool
  | .object _ => .object
  | .enumeration _ _ => .enumeration
  | .actor _ => .actor
  | .clan _ => .clan
  | .family _ => .family

/-! ## Views -/

def string? : Value → Option String
  | .string s => some s
  | _ => none

def integer? : Value → Option Int64
  | .integer i => some i
  | _ => none

def float? : Value → Option Binary64
  | .float x => some x
  | _ => none

def bool? : Value → Option Bool
  | .bool b => some b
  | _ => none

/-- The selected label of an enumeration; none if the index is beyond the options. -/
def label? : Value → Option String
  | .enumeration index options => options[index.toNat]?
  | _ => none

def actorId? : Value → Option ActorId
  | .actor id => id
  | _ => none

def clanId? : Value → Option ClanId
  | .clan id => id
  | _ => none

def familyId? : Value → Option FamilyId
  | .family id => id
  | _ => none

/-! ## Equality of values -/

/-- Equality of values: floats are compared as numbers, everything else exactly. -/
def agrees : Value → Value → Bool
  | .float x, .float y => x.numEq y
  | v, w => v = w

theorem agrees_float (x y : Binary64) : (Value.float x).agrees (.float y) = x.numEq y := rfl

theorem agrees_of_kind_ne_float {v w : Value} (h : v.kind ≠ .float) :
    v.agrees w = decide (v = w) := by
  cases v <;> first | rfl | exact absurd rfl h

end Value

/-- A named value with an identifier that copies share. -/
structure Variable where
  id : VariableId
  name : String
  value : Value
  /-- Whether a change hook is attached. -/
  watched : Bool := false
deriving DecidableEq, Repr

namespace Variable

def kind (v : Variable) : ValueKind := v.value.kind

/-- What became of an assignment. -/
structure Assignment where
  /-- The variable afterwards. -/
  result : Variable
  /-- Whether the value was taken. -/
  accepted : Bool
  /-- What the change hook was shown, if it was called. -/
  notified : Option Variable
deriving DecidableEq, Repr

/-- The value that an assignment would store; none if it is refused. -/
def accepts? (v : Variable) (next : Value) : Option Value :=
  match v.value, next with
  | .enumeration _ options, .enumeration index _ =>
    if index.toNat < options.length then some (.enumeration index options) else none
  | old, next => if next.kind = old.kind then some next else none

/-- Assign a value. -/
def assign (v : Variable) (next : Value) : Assignment :=
  match v.accepts? next with
  | none => { result := v, accepted := false, notified := none }
  | some stored =>
    if stored.agrees v.value then { result := v, accepted := true, notified := none }
    else
      let changed := { v with value := stored }
      { result := changed, accepted := true
        notified := if v.watched then some changed else none }

/-- A copy for another owner: the same identifier, name and value, and no hook. -/
def duplicate (v : Variable) : Variable := { v with watched := false }

end Variable

end Stratagem
