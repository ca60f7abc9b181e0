import Stratagem.Json.Lexer

/-!
# Reading JSON

`Json.parse?` reads a text as one JSON value. The tokens are taken one at a time by a machine that
keeps the brackets still open on a stack, so brackets may nest to any depth.

A part of the text is unreadable

* if it is a string with a surrogate outside a pair, or a number beyond the doubles;
* if it is an object with such a string for a key;
* if it is in brackets and lies inside of 127 others.
-/

namespace Stratagem.Json

/-- A field of an object; its key is missing if it is no text. -/
abbrev Field := Option String × Json

/-- An open bracket whose next part is being read: the parts before it, last first. -/
inductive Open
  | items (before : List Json)
  | fields (before : List Field) (key : Option String)

/-- What the machine expects next. -/
inductive Expect
  /-- A value. -/
  | value
  /-- After an opening bracket: a value or the closing bracket. -/
  | firstItem
  /-- A key; in a fresh object the closing brace will do. -/
  | key (before : List Field) (fresh : Bool)
  /-- The colon after a key. -/
  | colon (before : List Field) (key : Option String)
  /-- After a value: a comma, a closing bracket, or the end of the text. -/
  | next (v : Json)

/-- The machine between two tokens: the open brackets, innermost first, and what comes next. -/
structure Machine where
  stack : List Open
  expect : Expect

/-- How deep brackets may nest and be read. -/
def maxDepth : Nat := 127

/-- A value in brackets, inside of those on the stack. -/
def enclosed (stack : List Open) (v : Json) : Json :=
  if (stack.drop (maxDepth - 1)).isEmpty then v else .unreadable false

/-- The object with these fields. -/
def ofFields (fields : List Field) : Json :=
  match fields.mapM fun field => field.1.map (·, field.2) with
  | some fields => .object fields
  | none => .unreadable false

namespace Machine

/-- Take a token where a value is expected. -/
def begin? (stack : List Open) : Token → Option Machine
  | .scalar s => some ⟨stack, .next (.scalar s)⟩
  | .openArray => some ⟨stack, .firstItem⟩
  | .openObject => some ⟨stack, .key [] true⟩
  | _ => none

/-- Take a token after the value `v`. -/
def after? (v : Json) : List Open → Token → Option Machine
  | .items before :: stack, .comma => some ⟨.items (v :: before) :: stack, .value⟩
  | .items before :: stack, .closeArray =>
    some ⟨stack, .next (enclosed stack (.array (v :: before).reverse))⟩
  | .fields before key :: stack, .comma => some ⟨stack, .key ((key, v) :: before) false⟩
  | .fields before key :: stack, .closeObject =>
    some ⟨stack, .next (enclosed stack (ofFields ((key, v) :: before).reverse))⟩
  | _, _ => none

/-- Take one token. -/
def feed? (m : Machine) (t : Token) : Option Machine :=
  match m.expect with
  | .value => begin? m.stack t
  | .firstItem =>
    if t = .closeArray then some ⟨m.stack, .next (enclosed m.stack (.array []))⟩
    else begin? (.items [] :: m.stack) t
  | .key before fresh =>
    match t with
    | .scalar (.string key) => some ⟨m.stack, .colon before (some key)⟩
    | .scalar (.unreadable true) => some ⟨m.stack, .colon before none⟩
    | .closeObject =>
      if fresh then some ⟨m.stack, .next (enclosed m.stack (.object []))⟩ else none
    | _ => none
  | .colon before key =>
    if t = .colon then some ⟨.fields before key :: m.stack, .value⟩ else none
  | .next v => after? v m.stack t

/-- The value that has been read once every bracket is closed. -/
def finish? (m : Machine) : Option Json :=
  match m.stack, m.expect with
  | [], .next v => some v
  | _, _ => none

end Machine

/-- The value whose tokens these are. -/
def ofTokens? (tokens : List Token) : Option Json :=
  (tokens.foldlM Machine.feed? ⟨[], .value⟩).bind Machine.finish?

/-- Read a text as one JSON value; nothing if it is not JSON. -/
def parse? (text : String) : Option Json := (lex? text.toList).bind ofTokens?

end Stratagem.Json
