import Stratagem.Binary64.Text
import Stratagem.Uuid

/-!
# JSON values and their tokens

* `Json` is a JSON value. Objects keep their fields in order, repeated keys included: what a
  repetition means is for the reader of a document to say.
* `Json.Token` is one lexical element of a JSON text, and `Json.tokens` lists those of a value.

The grammar of JSON admits more than can be read: strings that are no text, numbers beyond the
doubles, brackets without end. Such a part of a text is `unreadable`. It does no harm where a
document does not look; `Json.isReadable` says that a value has no such part.
-/

namespace Stratagem

/-- A JSON value without parts. A number is an integer if it was written without fraction and
exponent and fits a 64-bit word, signed or unsigned; every other number is a double. -/
inductive Json.Scalar
  | null
  | bool (b : Bool)
  | integer (i : Int)
  | float (x : Binary64)
  | string (s : String)
  /-- A part of a text that cannot be read; `quoted` tells whether it is a string. -/
  | unreadable (quoted : Bool)
deriving DecidableEq, Repr

/-- A JSON value. -/
inductive Json
  | scalar (s : Json.Scalar)
  | array (items : List Json)
  | object (fields : List (String × Json))
deriving Repr

namespace Json

instance : Inhabited Json := ⟨.scalar .null⟩

@[match_pattern] abbrev null : Json := .scalar .null
@[match_pattern] abbrev bool (b : Bool) : Json := .scalar (.bool b)
@[match_pattern] abbrev integer (i : Int) : Json := .scalar (.integer i)
@[match_pattern] abbrev float (x : Binary64) : Json := .scalar (.float x)
@[match_pattern] abbrev string (s : String) : Json := .scalar (.string s)
@[match_pattern] abbrev unreadable (quoted : Bool) : Json := .scalar (.unreadable quoted)

/-- A natural number as a JSON integer. -/
abbrev nat (n : Nat) : Json := .integer (Int.ofNat n)

/-- A value that may be absent, written as `null` if it is. -/
def ofOption {α : Type} (f : α → Json) : Option α → Json
  | none => null
  | some a => f a

/-- A list as a JSON array. -/
def ofList {α : Type} (f : α → Json) (items : List α) : Json := .array (items.map f)

mutual

/-- Whether every part of a value can be read. -/
def isReadable : Json → Bool
  | .unreadable _ => false
  | .scalar _ => true
  | .array items => itemsReadable items
  | .object fields => fieldsReadable fields

/-- Whether every part of the items of an array can be read. -/
def itemsReadable : List Json → Bool
  | [] => true
  | v :: rest => v.isReadable && itemsReadable rest

/-- Whether every part of the fields of an object can be read. -/
def fieldsReadable : List (String × Json) → Bool
  | [] => true
  | (_, v) :: rest => v.isReadable && fieldsReadable rest

end

/-! ## Tokens -/

/-- One lexical element of a JSON text. -/
inductive Token
  | scalar (s : Scalar)
  | openArray
  | closeArray
  | openObject
  | closeObject
  | comma
  | colon
deriving DecidableEq, Repr

mutual

/-- The tokens of a value, in writing order. -/
def tokens : Json → List Token
  | .scalar s => [.scalar s]
  | .array items => .openArray :: itemTokens items
  | .object fields => .openObject :: fieldTokens fields

/-- The tokens of the items of an array and of its closing bracket. -/
def itemTokens : List Json → List Token
  | [] => [.closeArray]
  | [v] => v.tokens ++ [.closeArray]
  | v :: rest => v.tokens ++ .comma :: itemTokens rest

/-- The tokens of the fields of an object and of its closing brace. -/
def fieldTokens : List (String × Json) → List Token
  | [] => [.closeObject]
  | [(key, v)] => .scalar (.string key) :: .colon :: v.tokens ++ [.closeObject]
  | (key, v) :: rest => .scalar (.string key) :: .colon :: v.tokens ++ .comma :: fieldTokens rest

end

end Json

end Stratagem
