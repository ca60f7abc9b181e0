import Stratagem.Json.Lexer

/-!
# Strings of TOML

A string stands between quotes. Between double quotes backslashes escape, between single quotes
every character stands for itself; three quotes at each end let the string run over several lines.
A line break directly after three opening quotes is dropped, every other is a line feed; a
backslash before a line break between three double quotes swallows it with all blanks and line
breaks that follow. Up to two quotes may stand before the three that close a string.

Each reader is given the text after the opening quotes and gives the string and the rest.
-/

namespace Stratagem.Toml

/-- Whether a character may stand in a line: no control character but the tab. -/
def isLineChar (c : Char) : Bool := c = '\t' || (0x20 ≤ c.toNat && c.toNat ≠ 0x7f)

/-- Put a character in front of a string that was read. -/
def prepend (c : Char) : Option (List Char × List Char) → Option (List Char × List Char) :=
  Option.map fun (taken, rest) => (c :: taken, rest)

/-- The character of a code, unless it is a surrogate or beyond the last one. -/
def charOfHex? (digits : List Char) : Option Char := do
  let code ← Uuid.hexNumber? digits
  if h : code.isValidChar then pure (Char.ofNatAux code h) else none

/-- The character that a backslash and one more character stand for. -/
def simpleEscape? : Char → Option Char
  | 'b' => some '\x08'
  | 't' => some '\t'
  | 'n' => some '\n'
  | 'f' => some '\x0c'
  | 'r' => some '\r'
  | '"' => some '"'
  | '\\' => some '\\'
  | _ => none

/-- The string up to a closing double quote. -/
def basicString : List Char → Option (List Char × List Char)
  | [] => none
  | '"' :: rest => some ([], rest)
  | '\\' :: 'u' :: a :: b :: c :: d :: rest => do
    prepend (← charOfHex? [a, b, c, d]) (basicString rest)
  | '\\' :: 'U' :: a :: b :: c :: d :: e :: f :: g :: h :: rest => do
    prepend (← charOfHex? [a, b, c, d, e, f, g, h]) (basicString rest)
  | '\\' :: c :: rest => do prepend (← simpleEscape? c) (basicString rest)
  | c :: rest => if isLineChar c && c ≠ '\\' then prepend c (basicString rest) else none

/-- The string up to a closing single quote. -/
def literalString : List Char → Option (List Char × List Char)
  | [] => none
  | '\'' :: rest => some ([], rest)
  | c :: rest => if isLineChar c then prepend c (literalString rest) else none

/-- Close a string of several lines: of the quotes after the closing three, up to two belong to
the string and stand before them. -/
def closeLines (quote : Char) : List Char → List Char × List Char
  | [] => ([], [])
  | [c] => if c = quote then ([c], []) else ([], [c])
  | c :: d :: rest =>
    if c = quote then if d = quote then ([c, d], rest) else ([c], d :: rest)
    else ([], c :: d :: rest)

/-- What a backslash before a line break is swallowing. -/
inductive Swallow
  | nothing
  /-- The blanks before the line break, which must follow. -/
  | blanks
  /-- The blanks and line breaks after it. -/
  | lines
deriving DecidableEq, Repr

/-- The string up to three closing double quotes. -/
def basicLines : Swallow → List Char → Option (List Char × List Char)
  | _, [] => none
  | .blanks, c :: rest =>
    if c = ' ' || c = '\t' then basicLines .blanks rest
    else if c = '\n' then basicLines .lines rest
    else
      match c, rest with
      | '\r', '\n' :: more => basicLines .lines more
      | _, _ => none
  | .lines, ' ' :: rest => basicLines .lines rest
  | .lines, '\t' :: rest => basicLines .lines rest
  | .lines, '\n' :: rest => basicLines .lines rest
  | .lines, '\r' :: '\n' :: rest => basicLines .lines rest
  | _, '"' :: '"' :: '"' :: rest => some (closeLines '"' rest)
  | _, '\\' :: 'u' :: a :: b :: c :: d :: rest => do
    prepend (← charOfHex? [a, b, c, d]) (basicLines .nothing rest)
  | _, '\\' :: 'U' :: a :: b :: c :: d :: e :: f :: g :: h :: rest => do
    prepend (← charOfHex? [a, b, c, d, e, f, g, h]) (basicLines .nothing rest)
  | _, '\\' :: c :: rest =>
    match simpleEscape? c with
    | some decoded => prepend decoded (basicLines .nothing rest)
    | none =>
      if c = ' ' || c = '\t' then basicLines .blanks rest
      else if c = '\n' then basicLines .lines rest
      else
        match c, rest with
        | '\r', '\n' :: more => basicLines .lines more
        | _, _ => none
  | _, '\r' :: '\n' :: rest => prepend '\n' (basicLines .nothing rest)
  | _, c :: rest =>
    if (isLineChar c && c ≠ '\\') || c = '\n' then prepend c (basicLines .nothing rest) else none

/-- The string up to three closing single quotes. -/
def literalLines : List Char → Option (List Char × List Char)
  | [] => none
  | '\'' :: '\'' :: '\'' :: rest => some (closeLines '\'' rest)
  | '\r' :: '\n' :: rest => prepend '\n' (literalLines rest)
  | c :: rest => if isLineChar c || c = '\n' then prepend c (literalLines rest) else none

/-- Drop a line break that follows at once. -/
def dropNewline : List Char → List Char
  | '\n' :: rest => rest
  | '\r' :: '\n' :: rest => rest
  | rest => rest

/-- The string that a text begins with. -/
def takeString? : List Char → Option (String × List Char)
  | '"' :: '"' :: '"' :: rest => (basicLines .nothing (dropNewline rest)).map ofTaken
  | '\'' :: '\'' :: '\'' :: rest => (literalLines (dropNewline rest)).map ofTaken
  | text => (takeLine? text).map ofTaken
where
  ofTaken (taken : List Char × List Char) : String × List Char :=
    (String.ofList taken.1, taken.2)
  takeLine? : List Char → Option (List Char × List Char)
    | '"' :: rest => basicString rest
    | '\'' :: rest => literalString rest
    | _ => none

end Stratagem.Toml
