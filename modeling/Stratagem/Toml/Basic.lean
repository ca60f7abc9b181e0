import Stratagem.Binary64.Basic

/-!
# TOML values and tables

A TOML text is a sequence of entries: pairs of a dotted key and a value, and headers that name the
table the following pairs belong to. `Toml.ofEntries?` builds the table that the entries describe,
or nothing if two of them contradict each other.

Every table remembers how it came about, because that decides who may still add to it:

* a header may open a table only once, but it may open one that was only passed through on the way
  to a deeper table;
* a dotted key may go through tables made by dotted keys, and not into one that a header opened;
* nothing is added to an inline table after its closing brace.
-/

namespace Stratagem

/-- How a table came about. -/
inductive Toml.Origin
  /-- Opened by a header. -/
  | header
  /-- Passed through on the way to the table of a header. -/
  | implied
  /-- Passed through by a dotted key. -/
  | dotted
  /-- Written between braces. -/
  | inline
deriving DecidableEq, Repr

/-- A TOML value. -/
inductive Toml
  | string (s : String)
  | integer (i : Int)
  | float (x : Binary64)
  | bool (b : Bool)
  | datetime
  | array (items : List Toml)
  | table (origin : Toml.Origin) (fields : List (String × Toml))
  /-- The tables of an array of tables before its last one, and the last one, which is still
  open. -/
  | tables (before : List (List (String × Toml))) (last : List (String × Toml))
deriving Repr

namespace Toml

instance : Inhabited Toml := ⟨.bool false⟩

/-- The fields of a table, in order. -/
abbrev Fields := List (String × Toml)

/-- Put a value in the place of the value under a key. -/
def replace (fields : Fields) (key : String) (value : Toml) : Fields :=
  fields.map fun field => if field.1 = key then (key, value) else field

/-- Change the table at the end of a path. A table that is missing on the way is made with the
origin `fresh`; a table that is there may be gone through if its origin may be `entered`. Of an
array of tables it is the last one that counts, as if a header had opened it. -/
def updateAt (entered : Origin → Bool) (fresh : Origin)
    (change : Origin → Fields → Option Fields) :
    List String → Origin → Fields → Option Fields
  | [], origin, fields => change origin fields
  | key :: path, _, fields =>
    match fields.lookup key with
    | none => do
      let inner ← updateAt entered fresh change path fresh []
      pure (fields ++ [(key, .table fresh inner)])
    | some (.table origin inner) =>
      if entered origin then do
        let inner ← updateAt entered fresh change path origin inner
        pure (replace fields key (.table origin inner))
      else none
    | some (.tables before last) => do
      let last ← updateAt entered fresh change path .header last
      pure (replace fields key (.tables before last))
    | some _ => none

/-- Add a pair under a key that is new. -/
def addNew (key : String) (value : Toml) (fields : Fields) : Option Fields :=
  if (fields.lookup key).isSome then none else some (fields ++ [(key, value)])

/-- Add a pair under a dotted key, given as the path to a table and the last part. The table at
the end of a path that is not empty must have been made by dotted keys. -/
def addPair (entered : Origin → Bool) (path : List String) (key : String) (value : Toml)
    (fields : Fields) : Option Fields :=
  updateAt entered .dotted
    (fun origin inner =>
      if path.isEmpty || origin = .dotted then addNew key value inner else none)
    path .header fields

/-- The tables of a document that dotted keys may go through. -/
def Origin.openToKeys (o : Origin) : Bool := o = .implied || o = .dotted

/-- The tables of an inline table that dotted keys may go through. -/
def Origin.openInline (o : Origin) : Bool := o = .dotted

/-- The tables that headers may go through. -/
def Origin.openToHeaders (o : Origin) : Bool := o ≠ .inline

/-- A pair of a dotted key and a value. -/
structure Pair where
  path : List String
  key : String
  value : Toml

/-- One entry of a document. -/
inductive Entry
  | pair (p : Pair)
  /-- A header: the path to a table, and its own key. -/
  | header (path : List String) (key : String)
  /-- A header that adds a table to an array of tables. -/
  | arrayHeader (path : List String) (key : String)

/-- Enter pairs into a table of a document. -/
def addPairs (entered : Origin → Bool) (pairs : List Pair) (fields : Fields) : Option Fields :=
  pairs.foldlM (fun fields p => addPair entered p.path p.key p.value fields) fields

/-- Open the table of a header and enter its pairs. -/
def openTable (key : String) (pairs : List Pair) (fields : Fields) : Option Fields :=
  match fields.lookup key with
  | none => do
    let inner ← addPairs Origin.openToKeys pairs []
    pure (fields ++ [(key, .table .header inner)])
  | some (.table .implied inner) => do
    let inner ← addPairs Origin.openToKeys pairs inner
    pure (replace fields key (.table .header inner))
  | some _ => none

/-- Add a table to an array of tables and enter its pairs. -/
def appendTable (key : String) (pairs : List Pair) (fields : Fields) : Option Fields := do
  let last ← addPairs Origin.openToKeys pairs []
  match fields.lookup key with
  | none => pure (fields ++ [(key, .tables [] last)])
  | some (.tables before previous) =>
    pure (replace fields key (.tables (before ++ [previous]) last))
  | some _ => none

/-- The pairs before the first header. -/
def leadingPairs : List Entry → List Pair
  | .pair p :: rest => p :: leadingPairs rest
  | _ => []

/-- Enter the tables of all headers, each with the pairs that follow its header. -/
def addTables : List Entry → Fields → Option Fields
  | [], fields => some fields
  | .pair _ :: rest, fields => addTables rest fields
  | .header path key :: rest, fields => do
    let change (_ : Origin) (inner : Fields) := openTable key (leadingPairs rest) inner
    addTables rest (← updateAt Origin.openToHeaders .implied change path .header fields)
  | .arrayHeader path key :: rest, fields => do
    let change (_ : Origin) (inner : Fields) := appendTable key (leadingPairs rest) inner
    addTables rest (← updateAt Origin.openToHeaders .implied change path .header fields)

/-- The table that the entries of a document describe. -/
def ofEntries? (entries : List Entry) : Option Fields := do
  addTables entries (← addPairs Origin.openToKeys (leadingPairs entries) [])

/-- The inline table of a list of pairs. -/
def inlineTable? (pairs : List Pair) : Option Toml :=
  (addPairs Origin.openInline pairs []).map (.table .inline)

end Toml

end Stratagem
