import Stratagem.Walk.Visit

/-!
# What happens in an evaluation

An evaluation leaves a record of `Event`s in the order in which they happened: methods asked,
messages left, and at most one fault, which ends it. The `Verdict` is read off the record.

* `Verdict.passed`: an evaluation succeeds exactly if it recorded no error.
-/

namespace Stratagem

/-- A fault that ends an evaluation or keeps it from beginning. -/
inductive RuleFault
  | unknownRule (rule : String)
  | missingStart (rule : String)
  | cycle (rule : String) (node : NodeId)
  | visitLimit (rule : String) (node : NodeId) (limit : UInt32)
  | targetRequired (scheme : String)
  | targetNotAllowed (scheme : String)
deriving DecidableEq, Repr

/-- The wording of a fault. -/
def RuleFault.message : RuleFault → String
  | .unknownRule rule => "unknown rule '" ++ rule ++ "'"
  | .missingStart rule => "rule '" ++ rule ++ "' has no Start node"
  | .cycle rule node =>
    "rule '" ++ rule ++ "' loops back to node " ++ node.label ++ " with the same actors"
  | .visitLimit rule node limit =>
    "rule '" ++ rule ++ "' entered node " ++ node.label ++ " more than " ++ toString limit.toNat
      ++ " times on one path"
  | .targetRequired scheme => "scheme '" ++ scheme ++ "' requires a target"
  | .targetNotAllowed scheme => "scheme '" ++ scheme ++ "' does not take a target"

/-- Something that happens in an evaluation. -/
inductive Event
  /-- A method of the host was asked. -/
  | asked (method : String) (context : Context)
  /-- A Warning node left its message. -/
  | warning (node : NodeId) (message : String)
  /-- An Error node left its message. -/
  | error (node : NodeId) (message : String)
  /-- The evaluation was given up. -/
  | fault (f : RuleFault)

namespace Event

def warning? : Event → Option String
  | .warning _ message => some message
  | _ => none

/-- The error that an event adds: the message of an Error node or the wording of a fault. -/
def error? : Event → Option String
  | .error _ message => some message
  | .fault f => some f.message
  | _ => none

def asked? : Event → Option (String × Context)
  | .asked method context => some (method, context)
  | _ => none

end Event

/-- The outcome of an evaluation. -/
structure Verdict where
  warnings : List String
  errors : List String
deriving DecidableEq, Repr

namespace Verdict

/-- The verdict on a record of events. -/
def ofEvents (events : List Event) : Verdict where
  warnings := events.filterMap Event.warning?
  errors := events.filterMap Event.error?

/-- Success is the absence of errors. -/
def passed (v : Verdict) : Bool := v.errors.isEmpty

/-- The name of the outcome. -/
def state (v : Verdict) : String := if v.passed then "Success" else "Failed"

end Verdict

namespace Visit

/-- The message that is left at a node of a kind. -/
def remark? (e : Evaluation) (v : Visit) : NodeKind → Option Event
  | .error template => some (.error v.node (v.parties.render e.settings template))
  | .warning template => some (.warning v.node (v.parties.render e.settings template))
  | _ => none

/-- What happens at a node of a kind: it asks at most one method or leaves at most one message. -/
def events (e : Evaluation) (v : Visit) (kind : NodeKind) : List Event :=
  ((v.asks? kind).map fun method => .asked method (e.context v.parties)).toList
    ++ (v.remark? e kind).toList

/-- The visits that a decision leads to, in wiring order; nothing if it ends the evaluation. -/
def onward (g : RuleGraph) (v : Visit) : Decision → Option (List Visit)
  | .stop => some []
  | .halt => none
  | .follow port parties subject =>
    some <| (g.outputs v.node port).map fun link =>
      { node := link.node, channel := link.channel, parties, subject }

/-- What happens at a visit and where it leads, in wiring order; a visit of no node of the graph
leads nowhere. -/
def outcome (e : Evaluation) (g : RuleGraph) (v : Visit) : List Event × Option (List Visit) :=
  match g.kind? v.node with
  | none => ([], some [])
  | some kind => (v.events e kind, v.onward g (v.decide e kind))

/-- A visit leads to no more visits than the graph has wires. -/
theorem length_onward_le {g : RuleGraph} {v : Visit} {d : Decision} {next : List Visit}
    (h : v.onward g d = some next) : next.length ≤ g.wireCount := by
  cases d with
  | stop =>
    obtain rfl : [] = next := Option.some.inj h
    exact Nat.zero_le _
  | halt => cases h
  | follow port parties subject =>
    obtain rfl := Option.some.inj h
    simpa [RuleGraph.outputs, RuleGraph.wireCount] using List.length_filter_le _ _

end Visit

end Stratagem
