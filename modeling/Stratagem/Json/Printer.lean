import Stratagem.Json.Basic

/-!
# Writing JSON

* `Json.compact` writes a value without blanks: the texts of its tokens one after the other.
* `Json.pretty` writes one item or field a line, two spaces deeper than its bracket; an empty
  array is `[]` and an empty object two braces.

In a string the quote, the backslash and the control characters below a space are escaped and
nothing else: five of them by a letter, the others by four hexadecimal digits. Numbers that are not
finite and parts that could not be read have no text of their own and are written as `null`.
-/

namespace Stratagem.Json

/-! ## Tokens as text -/

/-- The escape of a control character that has no letter of its own. -/
def hexEscape (c : Char) : List Char := '\\' :: 'u' :: Uuid.hexDigits 4 c.toNat

/-- One character of a string as it stands between the quotes. -/
def escapeChar (c : Char) : List Char :=
  if c = '"' then ['\\', '"']
  else if c = '\\' then ['\\', '\\']
  else if c = '\x08' then ['\\', 'b']
  else if c = '\x0c' then ['\\', 'f']
  else if c = '\n' then ['\\', 'n']
  else if c = '\r' then ['\\', 'r']
  else if c = '\t' then ['\\', 't']
  else if c.toNat < 0x20 then hexEscape c
  else [c]

/-- A string between quotes. -/
def quote (s : String) : String := String.ofList ('"' :: s.toList.flatMap escapeChar ++ ['"'])

/-- The text of a scalar. -/
def Scalar.text : Scalar → String
  | .null => "null"
  | .bool true => "true"
  | .bool false => "false"
  | .integer i => toString i
  | .float x => x.documentText
  | .string s => quote s
  | .unreadable _ => "null"

/-- The text of a token. -/
def Token.text : Token → String
  | .scalar s => s.text
  | .openArray => "["
  | .closeArray => "]"
  | .openObject => "\x7b"
  | .closeObject => "\x7d"
  | .comma => ","
  | .colon => ":"

/-- The text of a value, without blanks. -/
def compact (v : Json) : String := String.join (v.tokens.map Token.text)

/-! ## Indented text -/

/-- A line break and the indentation of a depth. -/
def newline (depth : Nat) : String := "\n" ++ String.ofList (List.replicate (2 * depth) ' ')

mutual

/-- The indented text of a value whose first line stands at a depth. -/
def prettyAt (depth : Nat) : Json → String
  | .scalar s => s.text
  | .array [] => "[]"
  | .array (v :: rest) =>
    "[" ++ newline (depth + 1) ++ prettyAt (depth + 1) v ++ prettyItems (depth + 1) rest
      ++ newline depth ++ "]"
  | .object [] => "\x7b\x7d"
  | .object ((key, v) :: rest) =>
    "\x7b" ++ newline (depth + 1) ++ quote key ++ ": " ++ prettyAt (depth + 1) v
      ++ prettyFields (depth + 1) rest ++ newline depth ++ "\x7d"

/-- The items of an array after the first. -/
def prettyItems (depth : Nat) : List Json → String
  | [] => ""
  | v :: rest => "," ++ newline depth ++ prettyAt depth v ++ prettyItems depth rest

/-- The fields of an object after the first. -/
def prettyFields (depth : Nat) : List (String × Json) → String
  | [] => ""
  | (key, v) :: rest =>
    "," ++ newline depth ++ quote key ++ ": " ++ prettyAt depth v ++ prettyFields depth rest

end

/-- The text of a value with one item or field a line. -/
def pretty (v : Json) : String := prettyAt 0 v

end Stratagem.Json
