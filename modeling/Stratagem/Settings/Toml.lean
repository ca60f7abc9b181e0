import Stratagem.Settings.Basic
import Stratagem.Toml.Parser

/-!
# Settings as TOML documents

The settings of evaluation stand in the table `interpreter`, those of the search in the table
`matchmaking`. Every key has a default, unknown keys are ignored, and values are not converted.
Instead of a table there may be an array of the values in their declared order, of which items past
the last setting are ignored, or a date or time, which sets nothing.
-/

namespace Stratagem

namespace Toml

def asString? : Toml → Option String
  | .string s => some s
  | _ => none

def asBool? : Toml → Option Bool
  | .bool b => some b
  | _ => none

/-- An integer that is not negative. -/
def asNat? : Toml → Option Nat
  | .integer (.ofNat n) => some n
  | _ => none

def asUInt32? (v : Toml) : Option UInt32 :=
  v.asNat?.bind fun n => if n < UInt32.size then some (UInt32.ofNat n) else none

def asUInt64? (v : Toml) : Option UInt64 :=
  v.asNat?.bind fun n => if n < UInt64.size then some (UInt64.ofNat n) else none

/-- The values of a group of settings: a table, or an array in the order of the names. A date or
time stands for a table without settings. -/
def asSection? (names : List String) : Toml → Option Fields
  | .table _ fields => some fields
  | .datetime => some []
  | .array items => some (names.zip items)
  | .tables before last =>
    some (names.zip ((before ++ [last]).map (.table .header)))
  | _ => none

/-- A setting that has a default. -/
def withDefault {α : Type} (fields : Fields) (name : String) (default : α)
    (read : Toml → Option α) : Option α :=
  match fields.lookup name with
  | some v => read v
  | none => some default

end Toml

open Toml

def WalkSettings.ofToml? (v : Toml) : Option WalkSettings := do
  let base : WalkSettings := {}
  let fields ← v.asSection?
    ["max_node_visits", "stop_at_first_error", "conspirator_token", "target_token"]
  let maxNodeVisits ← withDefault fields "max_node_visits" base.maxNodeVisits asUInt32?
  let stopAtFirstError ← withDefault fields "stop_at_first_error" base.stopAtFirstError asBool?
  let conspiratorToken ← withDefault fields "conspirator_token" base.conspiratorToken asString?
  let targetToken ← withDefault fields "target_token" base.targetToken asString?
  pure { maxNodeVisits, stopAtFirstError, conspiratorToken, targetToken }

def SearchSettings.ofToml? (v : Toml) : Option SearchSettings := do
  let base : SearchSettings := {}
  let fields ← v.asSection? ["batch_size", "seed"]
  let batchSize ← withDefault fields "batch_size" base.batchSize asUInt64?
  let seed ← withDefault fields "seed" base.seed fun v => v.asUInt64?.map some
  pure { batchSize, seed }

namespace Settings

/-- The settings in the fields of a table. -/
def ofFields? (fields : Fields) : Option Settings := do
  let walk ← withDefault fields "interpreter" {} WalkSettings.ofToml?
  let search ← withDefault fields "matchmaking" {} SearchSettings.ofToml?
  pure { walk, search }

/-- Read the settings from a text. -/
def ofText? (text : String) : Option Settings := (Toml.parse? text).bind ofFields?

end Settings

end Stratagem
