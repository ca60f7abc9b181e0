import Stratagem.Json.Reading
import Stratagem.Settings.Basic

/-!
# Settings as JSON documents

Every field has a default.
-/

namespace Stratagem

open Json

namespace WalkSettings

def toJson (s : WalkSettings) : Json :=
  .object [
    ("max_node_visits", .nat s.maxNodeVisits.toNat),
    ("stop_at_first_error", .bool s.stopAtFirstError),
    ("conspirator_token", .string s.conspiratorToken),
    ("target_token", .string s.targetToken)]

/-- The fields of the settings of evaluation, in declared order. -/
def fieldNames : List String :=
  ["max_node_visits", "stop_at_first_error", "conspirator_token", "target_token"]

def ofJson? (v : Json) : Option WalkSettings := do
  let base : WalkSettings := {}
  let r ← v.asRecord? fieldNames
  let maxNodeVisits ← r.withDefault "max_node_visits" base.maxNodeVisits asUInt32?
  let stopAtFirstError ← r.withDefault "stop_at_first_error" base.stopAtFirstError asBool?
  let conspiratorToken ← r.withDefault "conspirator_token" base.conspiratorToken asString?
  let targetToken ← r.withDefault "target_token" base.targetToken asString?
  pure { maxNodeVisits, stopAtFirstError, conspiratorToken, targetToken }

end WalkSettings

namespace SearchSettings

def toJson (s : SearchSettings) : Json :=
  .object [
    ("batch_size", .nat s.batchSize.toNat),
    ("seed", .ofOption (fun n => .nat n.toNat) s.seed)]

/-- The fields of the settings of the search, in declared order. -/
def fieldNames : List String := ["batch_size", "seed"]

def ofJson? (v : Json) : Option SearchSettings := do
  let base : SearchSettings := {}
  let r ← v.asRecord? fieldNames
  let batchSize ← r.withDefault "batch_size" base.batchSize asUInt64?
  let seed ← r.withDefault "seed" base.seed (asOption? asUInt64?)
  pure { batchSize, seed }

end SearchSettings

namespace Settings

def toJson (s : Settings) : Json :=
  .object [("interpreter", s.walk.toJson), ("matchmaking", s.search.toJson)]

end Settings

end Stratagem
