import Stratagem.Json.Basic

/-!
# Cutting a JSON text into tokens

`Json.lex` is one pass over the characters. Between tokens it skips blanks and takes punctuation;
a quote opens a string, which ends at the next quote that no backslash escapes; any other run of
letters, digits, signs and points is one word, which must be a literal or a numeral. The content
of a string is decoded by `Json.codes?` and `Json.ofCodes?`, a numeral by `Numeral.ofWord?`.
-/

namespace Stratagem

/-! ## Numerals -/

/-- The value of a decimal digit. -/
def decimalDigit? (c : Char) : Option Nat :=
  if '0' ≤ c ∧ c ≤ '9' then some (c.toNat - '0'.toNat) else none

/-- The digits that a text begins with, and the rest of it. -/
def spanDigits : List Char → List Nat × List Char
  | [] => ([], [])
  | c :: cs =>
    match decimalDigit? c with
    | some d => let (digits, rest) := spanDigits cs; (d :: digits, rest)
    | none => ([], c :: cs)

/-- The number that decimal digits spell, most significant first. -/
def decimalNumber (digits : List Nat) : Nat := digits.foldl (fun n d => n * 10 + d) 0

namespace Numeral

/-- The whole part of a JSON number: at least one digit, and no zero before another digit. -/
def wholeAllowed : List Nat → Bool
  | [] => false
  | [_] => true
  | d :: _ => d ≠ 0

/-- The exponent that a text consists of: nothing, or a mark, an optional sign and digits. -/
def exponent? : List Char → Option (Option Int)
  | [] => some none
  | mark :: rest =>
    if mark = 'e' ∨ mark = 'E' then
      let (negative, digits) :=
        match rest with
        | '-' :: more => (true, more)
        | '+' :: more => (false, more)
        | more => (false, more)
      match spanDigits digits with
      | ([], _) => none
      | (ds, []) =>
        let n : Int := decimalNumber ds
        some (some (if negative then -n else n))
      | _ => none
    else none

/-- The scalar that a JSON number stands for. A number with a fraction or an exponent, a negative
zero and a number beyond the 64-bit words is a double; beyond the doubles too, it is unreadable. -/
def toScalar (negative : Bool) (whole : List Nat) (fraction : Option (List Nat))
    (exponent : Option Int) : Json.Scalar :=
  let n : Numeral :=
    { negative, whole, fraction := fraction.getD [], exponent := exponent.getD 0 }
  let float : Json.Scalar := (n.toBinary64?.map .float).getD (.unreadable false)
  if fraction.isNone && exponent.isNone then
    let value := decimalNumber whole
    if negative then if 0 < value ∧ Int64.minValue.toInt ≤ -value then .integer (-value) else float
    else if value < UInt64.size then .integer value else float
  else float

/-- Read a word as a JSON number. -/
def ofWord? (word : List Char) : Option Json.Scalar :=
  let (negative, body) :=
    match word with
    | '-' :: rest => (true, rest)
    | rest => (false, rest)
  let (whole, rest) := spanDigits body
  if wholeAllowed whole then
    match rest with
    | '.' :: more =>
      match spanDigits more with
      | ([], _) => none
      | (fraction, rest) => (exponent? rest).map (toScalar negative whole (some fraction))
    | rest => (exponent? rest).map (toScalar negative whole none)
  else none

end Numeral

namespace Json

/-! ## Strings -/

/-- The value of four hexadecimal digits. -/
def hexWord? (a b c d : Char) : Option Nat := Uuid.hexNumber? [a, b, c, d]

/-- The character that a backslash and one more character stand for. -/
def simpleEscape? : Char → Option Char
  | '"' => some '"'
  | '\\' => some '\\'
  | '/' => some '/'
  | 'b' => some '\x08'
  | 'f' => some '\x0c'
  | 'n' => some '\n'
  | 'r' => some '\r'
  | 't' => some '\t'
  | _ => none

/-- The codes that stand between the quotes of a string, its escapes decoded. Bare control
characters and unknown escapes are refused. -/
def codes? : List Char → Option (List Nat)
  | [] => some []
  | '\\' :: 'u' :: a :: b :: c :: d :: rest => do
    let code ← hexWord? a b c d
    (codes? rest).map (code :: ·)
  | '\\' :: c :: rest => do
    let decoded ← simpleEscape? c
    (codes? rest).map (decoded.toNat :: ·)
  | c :: rest =>
    if c = '\\' ∨ c.toNat < 0x20 then none else (codes? rest).map (c.toNat :: ·)

/-- Whether a code is the first half of a pair of surrogates. -/
def isHighSurrogate (code : Nat) : Bool := 0xD800 ≤ code && code < 0xDC00

/-- Whether a code is the second half of a pair of surrogates. -/
def isLowSurrogate (code : Nat) : Bool := 0xDC00 ≤ code && code < 0xE000

/-- The characters of a run of codes. A character above `FFFF` may be given as a pair of
surrogates; a surrogate outside such a pair stands for no character. -/
def ofCodes? : List Nat → Option (List Char)
  | [] => some []
  | code :: rest =>
    if isHighSurrogate code then
      match rest with
      | low :: more =>
        if isLowSurrogate low then
          let whole := 0x10000 + (code - 0xD800) * 0x400 + (low - 0xDC00)
          (ofCodes? more).map (Char.ofNat whole :: ·)
        else none
      | [] => none
    else if isLowSurrogate code then none
    else (ofCodes? rest).map (Char.ofNat code :: ·)

/-- The string that a run of codes stands for. -/
def stringOfCodes (codes : List Nat) : Scalar :=
  match ofCodes? codes with
  | some chars => .string (String.ofList chars)
  | none => .unreadable true

/-! ## The scanner -/

/-- Whether a character may stand between tokens. -/
def isBlank (c : Char) : Bool := c = ' ' || c = '\n' || c = '\r' || c = '\t'

/-- Whether a character belongs to a literal or a numeral. -/
def isWordChar (c : Char) : Bool := c.isAlphanum || c = '-' || c = '+' || c = '.'

/-- The token of a punctuation character. -/
def punctuation? : Char → Option Token
  | '[' => some .openArray
  | ']' => some .closeArray
  | '{' => some .openObject
  | '}' => some .closeObject
  | ',' => some .comma
  | ':' => some .colon
  | _ => none

/-- The scalar that a word stands for. -/
def ofWord? (word : List Char) : Option Scalar :=
  if word = ['n', 'u', 'l', 'l'] then some .null
  else if word = ['t', 'r', 'u', 'e'] then some (.bool true)
  else if word = ['f', 'a', 'l', 's', 'e'] then some (.bool false)
  else Numeral.ofWord? word

/-- What the scanner is inside of. The characters taken so far stand last first. -/
inductive Lexeme
  | blank
  | word (taken : List Char)
  | string (taken : List Char) (escaped : Bool)

/-- The scanner between two characters: the tokens found, last first, and the open lexeme. -/
structure Scanner where
  found : List Token
  lexeme : Lexeme

namespace Scanner

/-- Take a character that begins a lexeme or stands between two. -/
def begin? (found : List Token) (c : Char) : Option Scanner :=
  if isBlank c then some ⟨found, .blank⟩
  else if c = '"' then some ⟨found, .string [] false⟩
  else if isWordChar c then some ⟨found, .word [c]⟩
  else (punctuation? c).map fun t => ⟨t :: found, .blank⟩

/-- End the word that is open. -/
def endWord? (found : List Token) (taken : List Char) : Option (List Token) :=
  (ofWord? taken.reverse).map (.scalar · :: found)

/-- Take one character. -/
def feed? (s : Scanner) (c : Char) : Option Scanner :=
  match s.lexeme with
  | .blank => begin? s.found c
  | .word taken =>
    if isWordChar c then some { s with lexeme := .word (c :: taken) }
    else (endWord? s.found taken).bind (begin? · c)
  | .string taken escaped =>
    if escaped then some { s with lexeme := .string (c :: taken) false }
    else if c = '\\' then some { s with lexeme := .string (c :: taken) true }
    else if c = '"' then
      (codes? taken.reverse).map fun codes => ⟨.scalar (stringOfCodes codes) :: s.found, .blank⟩
    else some { s with lexeme := .string (c :: taken) false }

/-- The tokens at the end of the text. -/
def finish? (s : Scanner) : Option (List Token) :=
  match s.lexeme with
  | .blank => some s.found.reverse
  | .word taken => (endWord? s.found taken).map List.reverse
  | .string _ _ => none

end Scanner

/-- The tokens of a JSON text; nothing if some part of it is no token. -/
def lex? (text : List Char) : Option (List Token) :=
  (text.foldlM Scanner.feed? ⟨[], .blank⟩).bind Scanner.finish?

end Json

end Stratagem
