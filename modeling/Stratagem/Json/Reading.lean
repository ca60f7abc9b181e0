import Stratagem.Json.Parser
import Stratagem.Json.Printer

/-!
# Reading documents from JSON values

A document is read by rules that depend only on the kind of each part. Every reader here gives
nothing when the value is not of the kind asked for; nothing is converted.

* A **scalar** is read from a scalar of its own kind. An integer must lie in its range and be
  written as an integer; a float may be any number.
* A **choice** is named by a string, or by an object whose only key is the name. A plain choice
  then has the value `null`, a choice with content has that content.
* A **record** is an object, whose unknown fields are ignored and whose known fields stand at most
  once, or an array of its fields in their declared order, which may end early and may not run on
  past them. A field that is absent from an object, or past the end of an array, has its default;
  an option without a default may be absent from an object only.

An unreadable part of a text is of no kind: it is refused wherever something is read from it, and
does no harm in a field that is ignored.
-/

namespace Stratagem.Json

/-! ## Scalars -/

def asBool? : Json → Option Bool
  | .bool b => some b
  | _ => none

def asString? : Json → Option String
  | .string s => some s
  | _ => none

/-- A natural number. The integers of a JSON text fit a 64-bit word. -/
def asNat? : Json → Option Nat
  | .integer (.ofNat n) => some n
  | _ => none

/-- An integer from `low` to `high`. -/
def asIntIn? (low high : Int) : Json → Option Int
  | .integer i => if low ≤ i ∧ i ≤ high then some i else none
  | _ => none

def asUInt32? (v : Json) : Option UInt32 :=
  (v.asIntIn? 0 (UInt32.size - 1)).map fun i => UInt32.ofNat i.toNat

def asUInt64? (v : Json) : Option UInt64 :=
  (v.asIntIn? 0 (UInt64.size - 1)).map fun i => UInt64.ofNat i.toNat

def asInt32? (v : Json) : Option Int32 :=
  (v.asIntIn? Int32.minValue.toInt Int32.maxValue.toInt).map Int32.ofInt

def asInt64? (v : Json) : Option Int64 :=
  (v.asIntIn? Int64.minValue.toInt Int64.maxValue.toInt).map Int64.ofInt

/-- Any number; what is not finite has no spelling in JSON. -/
def asFloat? : Json → Option Binary64
  | .integer i => some (Binary64.ofInt i)
  | .float x => if x.isFinite then some x else none
  | _ => none

/-- An identifier, in any form of its text. -/
def asId? {kind : IdKind} (v : Json) : Option (Id kind) := v.asString?.bind Id.ofString?

/-! ## Options and lists -/

/-- A value of a kind, or `null`. -/
def asOption? {α : Type} (read : Json → Option α) : Json → Option (Option α)
  | .null => some none
  | v => (read v).map some

/-- An array of values of one kind. -/
def asList? {α : Type} (read : Json → Option α) : Json → Option (List α)
  | .array items => items.mapM read
  | _ => none

/-! ## Choices -/

/-- The name of a choice and its content, which a bare name lacks. -/
def asChoice? : Json → Option (String × Option Json)
  | .string name => some (name, none)
  | .object [(name, content)] => some (name, some content)
  | _ => none

/-- A choice without content. -/
def asPlainChoice? {α : Type} (named : String → Option α) (v : Json) : Option α := do
  let (name, content) ← v.asChoice?
  match content with
  | none | some .null => named name
  | some _ => none

/-! ## Records -/

/-- The fields of a record as they were given. -/
structure Record where
  /-- Whether the record was an array: then an absent field lies past its end. -/
  positional : Bool
  given : List (String × Json)

/-- How many fields have a name. -/
def countKey (name : String) (fields : List (String × Json)) : Nat :=
  (fields.filter (·.1 = name)).length

/-- Take a value as a record with these fields, in their declared order. -/
def asRecord? (names : List String) : Json → Option Record
  | .object fields =>
    if names.all (countKey · fields ≤ 1) then some ⟨false, fields⟩ else none
  | .array items => if items.length ≤ names.length then some ⟨true, names.zip items⟩ else none
  | _ => none

namespace Record

/-- The value given for a field. -/
def get? (r : Record) (name : String) : Option Json := r.given.lookup name

/-- A field that must be given. -/
def required {α : Type} (r : Record) (name : String) (read : Json → Option α) : Option α :=
  (r.get? name).bind read

/-- A field that has a default. -/
def withDefault {α : Type} (r : Record) (name : String) (default : α)
    (read : Json → Option α) : Option α :=
  match r.get? name with
  | some v => read v
  | none => some default

/-- A field that may be `null`, or absent from an object. -/
def optional {α : Type} (r : Record) (name : String) (read : Json → Option α) :
    Option (Option α) :=
  match r.get? name with
  | some v => asOption? read v
  | none => if r.positional then none else some none

end Record

/-! ## Texts as documents -/

/-- Why a text is not the document that was expected. -/
inductive Fault (ε : Type)
  /-- The text is not JSON, or has a part that cannot be read. -/
  | malformed
  /-- The text is JSON, but not a document of this kind. -/
  | mismatch
  /-- The text is a document of this kind with inadmissible content. -/
  | inadmissible (reason : ε)
deriving DecidableEq, Repr

/-- Read a text as a document whose kind decides by itself what it accepts. A text with unreadable
parts may be such a document, if these parts do not matter to it; if it is none, the text counts as
malformed. -/
def readText {α ε : Type} (read : Json → Except (Fault ε) α) (text : String) :
    Except (Fault ε) α :=
  match parse? text with
  | none => .error .malformed
  | some v =>
    match read v with
    | .ok a => .ok a
    | .error fault => .error (if v.isReadable then fault else .malformed)

/-- A reader that knows only one way to fail. -/
def orMismatch {α ε : Type} : Option α → Except (Fault ε) α
  | none => .error .mismatch
  | some a => .ok a

end Stratagem.Json
