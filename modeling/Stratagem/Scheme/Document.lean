import Stratagem.Scheme.Basic
import Stratagem.Variable.Document

/-!
# Schemes as documents
-/

namespace Stratagem.Scheme

open Json

def toJson (s : Scheme) : Json :=
  .object [
    ("id", .string s.id),
    ("name", .string s.name),
    ("rule_id", .string s.ruleId),
    ("description", .ofOption .string s.description),
    ("target_not_required", .bool s.solitary),
    ("variables", s.vars.toJson)]

/-- The fields of a scheme document, in declared order. -/
def fieldNames : List String :=
  ["id", "name", "rule_id", "description", "target_not_required", "variables"]

def ofJson? (v : Json) : Option Scheme := do
  let r ← v.asRecord? fieldNames
  let id ← r.required "id" asString?
  let name ← r.required "name" asString?
  let ruleId ← r.required "rule_id" asString?
  let description ← r.optional "description" asString?
  let solitary ← r.withDefault "target_not_required" false asBool?
  let vars ← r.withDefault "variables" .empty VariableSet.ofJson?
  pure { id, name, ruleId, description, solitary, vars }

end Stratagem.Scheme
