import Stratagem.Text.Unprintable
import Stratagem.Uuid

/-!
# Showing values

The texts in which values are shown to a person. A string stands between double quotes with its
quotes, backslashes, line breaks, tabs and NULs escaped by letters, and characters that have no
picture of their own escaped by their code. A named structure lists its fields between braces.
-/

namespace Stratagem.Display

/-- One character of a string as it is shown. -/
def escapeChar (c : Char) : String :=
  if c = '\x00' then "\\0"
  else if c = '\t' then "\\t"
  else if c = '\r' then "\\r"
  else if c = '\n' then "\\n"
  else if c = '"' then "\\\""
  else if c = '\\' then "\\\\"
  else if isUnprintable c then
    "\\u\x7b" ++ String.ofList (Nat.toDigits 16 c.toNat) ++ "\x7d"
  else c.toString

def string (s : String) : String := "\"" ++ String.join (s.toList.map escapeChar) ++ "\""

def bool (b : Bool) : String := if b then "true" else "false"

def id {kind : IdKind} (i : Id kind) : String := kind.label ++ "(" ++ toString i ++ ")"

def option {α : Type} (f : α → String) : Option α → String
  | none => "None"
  | some a => "Some(" ++ f a ++ ")"

def list {α : Type} (f : α → String) (items : List α) : String :=
  "[" ++ ", ".intercalate (items.map f) ++ "]"

/-- A structure by its name and its fields, of which there is at least one. -/
def record (name : String) (fields : List (String × String)) : String :=
  let shown := fields.map fun field => field.1 ++ ": " ++ field.2
  name ++ " \x7b " ++ ", ".intercalate shown ++ " \x7d"

end Stratagem.Display
