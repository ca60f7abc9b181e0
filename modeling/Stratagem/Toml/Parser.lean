import Stratagem.Toml.Quoted
import Stratagem.Toml.Word

/-!
# Reading TOML

`Toml.parse?` reads a text as the fields of one table. A text is cut into entries, one a line: pairs
and headers, with blanks around their parts and a comment at the end. A value may run over several
lines inside an array or a string; arrays and inline tables nest less than eighty deep.

Readers take what they read off the front of a text and give the rest of it.
-/

namespace Stratagem.Toml

/-! ## Blanks, comments and line ends -/

/-- Drop the blanks that a text begins with. -/
def skipBlanks : List Char → List Char
  | ' ' :: rest => skipBlanks rest
  | '\t' :: rest => skipBlanks rest
  | rest => rest

/-- Drop a comment up to the end of its line. -/
def skipComment : List Char → List Char
  | [] => []
  | c :: rest => if isLineChar c then skipComment rest else c :: rest

/-- Drop blanks, comments and line breaks. -/
def skipLines (comment : Bool) : List Char → List Char
  | [] => []
  | '\n' :: rest => skipLines false rest
  | '\r' :: '\n' :: rest => skipLines false rest
  | c :: rest =>
    if comment then if isLineChar c then skipLines true rest else c :: rest
    else if c = ' ' || c = '\t' then skipLines false rest
    else if c = '#' then skipLines true rest
    else c :: rest

/-- The text after the end of a line, before which blanks and a comment may stand. -/
def endLine? (text : List Char) : Option (List Char) :=
  let rest :=
    match skipBlanks text with
    | '#' :: comment => skipComment comment
    | rest => rest
  match rest with
  | [] => some []
  | '\n' :: rest => some rest
  | '\r' :: '\n' :: rest => some rest
  | _ => none

/-! ## Keys -/

/-- Whether a character may stand in a key without quotes. -/
def isKeyChar (c : Char) : Bool := c.isAlphanum || c = '-' || c = '_'

/-- One part of a key. -/
def takeKeyPart? (text : List Char) : Option (String × List Char) :=
  match text with
  | '"' :: rest => (basicString rest).map fun (taken, rest) => (String.ofList taken, rest)
  | '\'' :: rest => (literalString rest).map fun (taken, rest) => (String.ofList taken, rest)
  | text =>
    match text.takeWhile isKeyChar with
    | [] => none
    | part => some (String.ofList part, text.dropWhile isKeyChar)

/-- The parts of a key between points, with blanks around them; at most `fuel` of them. -/
def takeKeyParts? : (fuel : Nat) → List Char → Option (List String × List Char)
  | 0, _ => none
  | fuel + 1, text => do
    let (part, rest) ← takeKeyPart? (skipBlanks text)
    match skipBlanks rest with
    | '.' :: rest => do
      let (parts, rest) ← takeKeyParts? fuel rest
      pure (part :: parts, rest)
    | rest => pure ([part], rest)

/-- How deep values may nest and how long keys may be. -/
def nestingLimit : Nat := 80

/-- A key, as the path to a table and the last part, of fewer than eighty parts. -/
def takeKey? (text : List Char) : Option (List String × String × List Char) := do
  let (parts, rest) ← takeKeyParts? (nestingLimit - 1) text
  pure (parts.dropLast, ← parts.getLast?, rest)

/-! ## Values -/

/-- Whether a character belongs to a number, a truth value or a date. -/
def isWordChar (c : Char) : Bool :=
  c.isAlphanum || c = '+' || c = '-' || c = '.' || c = '_' || c = ':'

/-- The word that a text begins with. A date takes in the time that follows it after a space. -/
def takeWord (text : List Char) : List Char × List Char :=
  let word := text.takeWhile isWordChar
  let rest := text.dropWhile isWordChar
  match takeDate? word, rest with
  | some [], ' ' :: a :: b :: ':' :: more =>
    if a.isDigit && b.isDigit then
      (word ++ ' ' :: (a :: b :: ':' :: more).takeWhile isWordChar,
        (a :: b :: ':' :: more).dropWhile isWordChar)
    else (word, rest)
  | _, _ => (word, rest)

mutual

/-- The value that a text begins with, inside of `depth` brackets. Each step of the reading uses
up some fuel. -/
def takeValue? : (fuel depth : Nat) → List Char → Option (Toml × List Char)
  | 0, _, _ => none
  | fuel + 1, depth, text =>
    match text with
    | '[' :: rest =>
      if depth + 1 < nestingLimit then do
        let (items, rest) ← takeItems? fuel (depth + 1) rest
        pure (.array items, rest)
      else none
    | '{' :: rest =>
      if depth + 1 < nestingLimit then do
        let (pairs, rest) ← takePairs? fuel (depth + 1) rest
        pure (← inlineTable? pairs, rest)
      else none
    | c :: rest =>
      if c = '"' || c = '\'' then
        (takeString? (c :: rest)).map fun (s, rest) => (.string s, rest)
      else
        let (word, rest) := takeWord (c :: rest)
        (ofWord? word).map fun v => (v, rest)
    | [] => none

/-- The items of an array up to its closing bracket; a comma may follow the last one. -/
def takeItems? : (fuel depth : Nat) → List Char → Option (List Toml × List Char)
  | 0, _, _ => none
  | fuel + 1, depth, text =>
    match skipLines false text with
    | ']' :: rest => some ([], rest)
    | text => do
      let (item, rest) ← takeValue? fuel depth text
      match skipLines false rest with
      | ',' :: rest => do
        let (items, rest) ← takeItems? fuel depth rest
        pure (item :: items, rest)
      | ']' :: rest => pure ([item], rest)
      | _ => none

/-- The pairs of an inline table up to its closing brace, all on one line. -/
def takePairs? : (fuel depth : Nat) → List Char → Option (List Pair × List Char)
  | 0, _, _ => none
  | fuel + 1, depth, text =>
    match skipBlanks text with
    | '}' :: rest => some ([], rest)
    | text => takeMorePairs? fuel depth text

/-- At least one pair of an inline table, up to its closing brace. -/
def takeMorePairs? : (fuel depth : Nat) → List Char → Option (List Pair × List Char)
  | 0, _, _ => none
  | fuel + 1, depth, text => do
    let (pair, rest) ← takePair? fuel depth text
    match skipBlanks rest with
    | ',' :: rest => do
      let (pairs, rest) ← takeMorePairs? fuel depth rest
      pure (pair :: pairs, rest)
    | '}' :: rest => pure ([pair], rest)
    | _ => none

/-- A key, an equals sign and a value. -/
def takePair? : (fuel depth : Nat) → List Char → Option (Pair × List Char)
  | 0, _, _ => none
  | fuel + 1, depth, text => do
    let (path, key, rest) ← takeKey? text
    match rest with
    | '=' :: rest => do
      let (value, rest) ← takeValue? fuel depth (skipBlanks rest)
      pure (⟨path, key, value⟩, rest)
    | _ => none

end

/-! ## Documents -/

/-- Fuel for the values of a text: more than the steps that a value of this length takes. -/
def valueFuel (text : List Char) : Nat := 4 * text.length + 4

/-- The entry that a line begins with. -/
def takeEntry? (text : List Char) : Option (Entry × List Char) :=
  match text with
  | '[' :: '[' :: rest => do
    let (path, key, rest) ← takeKey? rest
    match rest with
    | ']' :: ']' :: rest => pure (.arrayHeader path key, rest)
    | _ => none
  | '[' :: rest => do
    let (path, key, rest) ← takeKey? rest
    match rest with
    | ']' :: rest => pure (.header path key, rest)
    | _ => none
  | text => (takePair? (valueFuel text) 0 text).map fun (p, rest) => (.pair p, rest)

/-- The entries of a text, at most one for each unit of fuel. -/
def takeEntries? : (fuel : Nat) → List Char → Option (List Entry)
  | 0, text => if (skipLines false text).isEmpty then some [] else none
  | fuel + 1, text =>
    match skipLines false text with
    | [] => some []
    | text => do
      let (entry, rest) ← takeEntry? text
      let entries ← takeEntries? fuel (← endLine? rest)
      pure (entry :: entries)

/-- Drop a byte order mark. -/
def dropMark : List Char → List Char
  | '\ufeff' :: rest => rest
  | rest => rest

/-- Read a text as the fields of one table; nothing if it is not TOML. -/
def parse? (text : String) : Option Fields := do
  let chars := dropMark text.toList
  ofEntries? (← takeEntries? chars.length chars)

end Stratagem.Toml
