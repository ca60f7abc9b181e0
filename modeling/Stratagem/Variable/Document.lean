import Stratagem.Json.Reading
import Stratagem.Variable.Set

/-!
# Variables as documents

A value is written as an object whose one key names the kind. A set is the array of its variables:
reading one does not merge equal names and checks no index. Hooks are not part of a document.
-/

namespace Stratagem

open Json

/-- An identifier as its text. -/
def Id.toJson {kind : IdKind} (id : Id kind) : Json := .string (toString id)

namespace Value

/-- The content of a value in its document. -/
def content : Value → Json
  | .string s => .string s
  | .integer i => .integer i.toInt
  | .float x => .float x
  | .bool b => .bool b
  | .object key => .ofOption .string key
  | .enumeration index options =>
    .object [("index", .nat index.toNat), ("options", .ofList .string options)]
  | .actor id => .ofOption Id.toJson id
  | .clan id => .ofOption Id.toJson id
  | .family id => .ofOption Id.toJson id

def toJson (v : Value) : Json := .object [(v.kind.name, v.content)]

def enumerationOfJson? (v : Json) : Option Value := do
  let r ← v.asRecord? ["index", "options"]
  let index ← r.required "index" asUInt64?
  let options ← r.required "options" (asList? asString?)
  pure (.enumeration index options)

/-- Read the content of a value whose kind has a name. -/
def ofContent? (kind : String) (v : Json) : Option Value :=
  match kind with
  | "String" => v.asString?.map .string
  | "Integer" => v.asInt64?.map .integer
  | "Float" => v.asFloat?.map .float
  | "Bool" => v.asBool?.map .bool
  | "Object" => (asOption? asString? v).map .object
  | "Enum" => enumerationOfJson? v
  | "Actor" => (asOption? asId? v).map .actor
  | "Clan" => (asOption? asId? v).map .clan
  | "Family" => (asOption? asId? v).map .family
  | _ => none

def ofJson? (v : Json) : Option Value := do
  let (kind, content) ← v.asChoice?
  ofContent? kind (← content)

end Value

namespace Variable

def toJson (v : Variable) : Json :=
  .object [("id", v.id.toJson), ("name", .string v.name), ("value", v.value.toJson)]

def ofJson? (v : Json) : Option Variable := do
  let r ← v.asRecord? ["id", "name", "value"]
  let id ← r.required "id" asId?
  let name ← r.required "name" asString?
  let value ← r.required "value" Value.ofJson?
  pure { id, name, value }

end Variable

namespace VariableSet

def toJson (s : VariableSet) : Json := .ofList Variable.toJson s.toList

def ofJson? (v : Json) : Option VariableSet := (asList? Variable.ofJson? v).map VariableSet.mk

end VariableSet

end Stratagem
