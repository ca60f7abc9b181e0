import Stratagem.Uuid

/-!
# Nodes of rule graphs

A node has a `NodeKind`. The kind fixes the output ports that wires may leave through and the
input channels that wires may arrive through; a channel says which actors the node is about.

* `NodeKind.ports` and `NodeKind.inputs` are the two tables.
* `NodeKind.accepts` decides on an arriving wire: diagnostic nodes take wires without a channel
  only, Start takes none, and every other kind takes the channels of its table.
-/

namespace Stratagem

/-- The place of a node in its graph. -/
abbrev NodeId := Nat

/-- A node as it is named in messages. -/
def NodeId.label (n : NodeId) : String := "#" ++ toString n

/-- An output port. -/
inductive Port
  | run | male | female | is | isNot | true | false | null | next
deriving DecidableEq, Repr

namespace Port

def name : Port → String
  | .run => "Run"
  | .male => "Male"
  | .female => "Female"
  | .is => "Is"
  | .isNot => "Is Not"
  | .true => "True"
  | .false => "False"
  | .null => "Null"
  | .next => "Next"

/-- Every port, in the order of declaration. -/
def all : List Port := [.run, .male, .female, .is, .isNot, .true, .false, .null, .next]

def named? (name : String) : Option Port := all.find? (·.name = name)

/-- The port of a yes-or-no answer. -/
def ofBool (answer : Bool) : Port := if answer then .true else .false

/-- The port of a comparison. -/
def ofMatch (isIt : Bool) : Port := if isIt then .is else .isNot

end Port

/-- The role in which a condition is reached: which actor, or which ordered pair, it is about. -/
inductive Channel
  | conspirator
  | target
  /-- The actor that the branch is currently about. -/
  | actor
  /-- The ordered pair of conspirator and target. -/
  | dual
deriving DecidableEq, Repr

namespace Channel

def name : Channel → String
  | .conspirator => "Conspirator"
  | .target => "Target"
  | .actor => "[Actor]"
  | .dual => "[Dual]"

/-- Every channel, in the order of declaration. -/
def all : List Channel := [.conspirator, .target, .actor, .dual]

def named? (name : String) : Option Channel := all.find? (·.name = name)

end Channel

/-- What an actor is compared with: a fixed value, or the answer of a method of the host. -/
inductive Selector (α : Type)
  | fixed (value : α)
  | invoked (method : String)
deriving DecidableEq, Repr

/-- What a node does. -/
inductive NodeKind
  /-- The entry of the graph. -/
  | start
  | gender
  | getActor (actor : Selector ActorId)
  | getClan (clan : Selector ClanId)
  | getRole (role : RoleId)
  | getFamily (family : Selector FamilyId)
  | isAutonomous
  | isParent
  | isSibling
  /-- Asks a method of the host. -/
  | invoke (method : String)
  /-- Records a failure and goes on. -/
  | error (message : String)
  /-- Records a remark and goes on. -/
  | warning (message : String)
deriving DecidableEq, Repr

namespace NodeKind

/-- The name of a kind in messages. -/
def name : NodeKind → String
  | .start => "Start"
  | .gender => "Gender"
  | .getActor _ => "GetActor"
  | .getClan _ => "GetClan"
  | .getRole _ => "GetRole"
  | .getFamily _ => "GetFamily"
  | .isAutonomous => "IsAI"
  | .isParent => "IsParent"
  | .isSibling => "IsSibling"
  | .invoke _ => "Invoke"
  | .error _ => "Error"
  | .warning _ => "Warning"

/-- The output ports of a kind. -/
def ports : NodeKind → List Port
  | .start => [.run]
  | .gender => [.male, .female]
  | .getActor _ | .getClan _ | .getRole _ | .getFamily _ => [.is, .isNot]
  | .isAutonomous | .isParent | .isSibling => [.true, .false]
  | .invoke _ => [.true, .false, .null]
  | .error _ | .warning _ => [.next]

/-- The input channels of a kind: none for Start, which no wire enters, and for the diagnostic
kinds, which wires enter without a channel. -/
def inputs : NodeKind → List Channel
  | .start | .error _ | .warning _ => []
  | .gender | .getActor _ | .getClan _ | .getRole _ | .getFamily _ | .isAutonomous =>
    [.conspirator, .target, .actor]
  | .isParent | .isSibling => [.conspirator, .target, .dual]
  | .invoke _ => [.conspirator, .target, .actor, .dual]

/-- Whether a kind only records a message. -/
def isDiagnostic : NodeKind → Bool
  | .error _ | .warning _ => Bool.true
  | _ => Bool.false

/-- Whether wires may leave through a port. -/
def hasPort (k : NodeKind) (port : Port) : Bool := k.ports.contains port

/-- Whether a wire may arrive through a channel, or without one. -/
def accepts (k : NodeKind) : Option Channel → Bool
  | none => k.isDiagnostic
  | some channel => k.inputs.contains channel

theorem not_accepts_start (channel : Option Channel) : start.accepts channel = Bool.false := by
  cases channel <;> rfl

end NodeKind

end Stratagem
