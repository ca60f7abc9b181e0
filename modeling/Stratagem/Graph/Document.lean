import Stratagem.Graph.Basic
import Stratagem.Variable.Document

/-!
# Rule graphs as documents

A node is written as an object whose field `kind` names the kind, beside the fields of that kind;
it may also be read from an array that begins with the name. The name may come last, so a node is
taken in as a whole before it is read, and no part of it may be unreadable, not even a field that
would be ignored. Reading a rule graph validates it.
-/

namespace Stratagem

open Json

namespace Port

def toJson (p : Port) : Json := .string p.name

def ofJson? : Json → Option Port := asPlainChoice? named?

end Port

namespace Channel

def toJson (c : Channel) : Json := .string c.name

def ofJson? : Json → Option Channel := asPlainChoice? named?

end Channel

namespace Selector

variable {kind : IdKind}

def toJson : Selector (Id kind) → Json
  | .fixed id => .object [("Fixed", id.toJson)]
  | .invoked method => .object [("Invoked", .string method)]

def ofJson? (v : Json) : Option (Selector (Id kind)) := do
  let (name, content) ← v.asChoice?
  let content ← content
  match name with
  | "Fixed" => (asId? content).map .fixed
  | "Invoked" => content.asString?.map .invoked
  | _ => none

end Selector

namespace NodeKind

/-- The name of a kind in documents. -/
def tag : NodeKind → String
  | .isAutonomous => "IsAi"
  | k => k.name

/-- The fields of a kind beside its name. -/
def fields : NodeKind → List (String × Json)
  | .getActor actor => [("actor", actor.toJson)]
  | .getClan clan => [("clan", clan.toJson)]
  | .getRole role => [("role", role.toJson)]
  | .getFamily family => [("family", family.toJson)]
  | .invoke method => [("method", .string method)]
  | .error message => [("message", .string message)]
  | .warning message => [("message", .string message)]
  | _ => []

def toJson (k : NodeKind) : Json := .object (("kind", .string k.tag) :: k.fields)

/-- Read a kind without fields. -/
def plainOfJson? (k : NodeKind) (v : Json) : Option NodeKind := (v.asRecord? []).map fun _ => k

/-- Read a kind with one field. -/
def withFieldOfJson? {α : Type} (name : String) (read : Json → Option α) (k : α → NodeKind)
    (v : Json) : Option NodeKind := do
  let r ← v.asRecord? [name]
  (r.required name read).map k

/-- Read the kind that a tag names from a record of its fields. -/
def ofTagged? (tag : String) (v : Json) : Option NodeKind :=
  match tag with
  | "Start" => plainOfJson? .start v
  | "Gender" => plainOfJson? .gender v
  | "GetActor" => withFieldOfJson? "actor" Selector.ofJson? .getActor v
  | "GetClan" => withFieldOfJson? "clan" Selector.ofJson? .getClan v
  | "GetRole" => withFieldOfJson? "role" asId? .getRole v
  | "GetFamily" => withFieldOfJson? "family" Selector.ofJson? .getFamily v
  | "IsAi" => plainOfJson? .isAutonomous v
  | "IsParent" => plainOfJson? .isParent v
  | "IsSibling" => plainOfJson? .isSibling v
  | "Invoke" => withFieldOfJson? "method" asString? .invoke v
  | "Error" => withFieldOfJson? "message" asString? .error v
  | "Warning" => withFieldOfJson? "message" asString? .warning v
  | _ => none

/-- Read a kind together with its tag. -/
def ofWhole? : Json → Option NodeKind
  | .array (.string tag :: rest) => ofTagged? tag (.array rest)
  | .object fields => do
    let r ← (Json.object fields).asRecord? ["kind"]
    let tag ← r.required "kind" asString?
    ofTagged? tag (.object fields)
  | _ => none

def ofJson? (v : Json) : Option NodeKind := if v.isReadable then ofWhole? v else none

end NodeKind

namespace Wire

def toJson (w : Wire) : Json :=
  .object [
    ("from", .nat w.source),
    ("port", w.port.toJson),
    ("to", .nat w.dest),
    ("channel", .ofOption Channel.toJson w.channel)]

def ofJson? (v : Json) : Option Wire := do
  let r ← v.asRecord? ["from", "port", "to", "channel"]
  let source ← r.required "from" asNat?
  let port ← r.required "port" Port.ofJson?
  let dest ← r.required "to" asNat?
  let channel ← r.withDefault "channel" none (asOption? Channel.ofJson?)
  pure { source, port, dest, channel }

end Wire

namespace GraphDocument

def toJson (d : GraphDocument) : Json :=
  .object [
    ("id", .string d.id),
    ("nodes", .ofList NodeKind.toJson d.nodes),
    ("wires", .ofList Wire.toJson d.wires)]

def ofJson? (v : Json) : Option GraphDocument := do
  let r ← v.asRecord? ["id", "nodes", "wires"]
  let id ← r.required "id" asString?
  let nodes ← r.required "nodes" (asList? NodeKind.ofJson?)
  let wires ← r.withDefault "wires" [] (asList? Wire.ofJson?)
  pure { id, nodes, wires }

end GraphDocument

namespace RuleGraph

def toJson (g : RuleGraph) : Json := g.toDocument.toJson

/-- Read a document and validate it. -/
def ofJson (v : Json) : Except (Json.Fault GraphError) RuleGraph :=
  match GraphDocument.ofJson? v with
  | none => .error .mismatch
  | some d =>
    match d.validate with
    | .error e => .error (.inadmissible e)
    | .ok g => .ok g

end RuleGraph

end Stratagem
