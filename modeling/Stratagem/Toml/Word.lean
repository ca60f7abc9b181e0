import Stratagem.Json.Lexer
import Stratagem.Toml.Basic

/-!
# Numbers, truth values and dates of TOML

A value that is no string, array or inline table is one word. `Toml.ofWord?` reads it:

* `true` and `false`;
* integers in base ten, with a sign and without leading zeros, or in base sixteen, eight or two
  after `0x`, `0o` or `0b`; all within 64 bits;
* floats, with a fraction, an exponent or both, and `inf` and `nan`;
* dates, times and both, with an offset or without.

Digits may be grouped by underscores, each between two digits.
-/

namespace Stratagem.Toml

/-! ## Digits -/

/-- The value of a digit in a base up to sixteen. -/
def digitIn? (base : Nat) (c : Char) : Option Nat :=
  (Uuid.hexValue? c).bind fun d => if d < base then some d else none

/-- The digits of a grouped number: at least one, and each underscore between two. -/
def groupedDigits? (base : Nat) : List Char → Option (List Nat)
  | [] => none
  | [c] => (digitIn? base c).map fun d => [d]
  | c :: '_' :: rest => do
    let d ← digitIn? base c
    (groupedDigits? base rest).map (d :: ·)
  | c :: rest => do
    let d ← digitIn? base c
    (groupedDigits? base rest).map (d :: ·)

/-- The number that digits spell in a base. -/
def numberIn (base : Nat) (digits : List Nat) : Nat := digits.foldl (fun n d => n * base + d) 0

/-- A sign, if there is one, and what follows it. -/
def takeSign : List Char → Bool × List Char
  | '-' :: rest => (true, rest)
  | '+' :: rest => (false, rest)
  | rest => (false, rest)

/-! ## Integers -/

/-- An integer within 64 bits. -/
def integer64? (i : Int) : Option Toml :=
  if Int64.minValue.toInt ≤ i ∧ i ≤ Int64.maxValue.toInt then some (.integer i) else none

/-- Grouped decimal digits without leading zeros. -/
def wholeDigits? (text : List Char) : Option (List Nat) := do
  let digits ← groupedDigits? 10 text
  if Numeral.wholeAllowed digits then pure digits else none

def integer? (word : List Char) : Option Toml :=
  match word with
  | '0' :: 'x' :: rest => (groupedDigits? 16 rest).bind fun ds => integer64? (numberIn 16 ds)
  | '0' :: 'o' :: rest => (groupedDigits? 8 rest).bind fun ds => integer64? (numberIn 8 ds)
  | '0' :: 'b' :: rest => (groupedDigits? 2 rest).bind fun ds => integer64? (numberIn 2 ds)
  | word => do
    let (negative, rest) := takeSign word
    let n : Int := numberIn 10 (← wholeDigits? rest)
    integer64? (if negative then -n else n)

/-! ## Floats -/

/-- The exponent after its mark. -/
def exponent? (text : List Char) : Option Int := do
  let (negative, rest) := takeSign text
  let n : Int := numberIn 10 (← groupedDigits? 10 rest)
  pure (if negative then -n else n)

/-- Cut a text at the first character of a kind. -/
def cutAt (p : Char → Bool) (text : List Char) : List Char × Option (List Char) :=
  match text.dropWhile (!p ·) with
  | [] => (text, none)
  | _ :: rest => (text.takeWhile (!p ·), some rest)

/-- A float in digits. A positive one beyond the doubles is refused. -/
def decimalFloat? (negative : Bool) (text : List Char) : Option Toml := do
  let (significand, mark) := cutAt (fun c => c = 'e' || c = 'E') text
  let (whole, point) := cutAt (· = '.') significand
  if mark.isNone && point.isNone then none
  else
    let whole ← wholeDigits? whole
    let fraction ← (point.map (groupedDigits? 10)).getD (some [])
    let exponent ← (mark.map exponent?).getD (some 0)
    let x := Numeral.nearest { negative, whole, fraction, exponent }
    if x = Binary64.infinity false then none else pure (.float x)

def float? (word : List Char) : Option Toml :=
  let (negative, rest) := takeSign word
  if rest = ['i', 'n', 'f'] then some (.float (Binary64.infinity negative))
  else if rest = ['n', 'a', 'n'] then some (.float Binary64.nan)
  else decimalFloat? negative rest

/-! ## Dates and times -/

/-- A number of exactly two digits. -/
def twoDigits? (a b : Char) : Option Nat := do
  pure (10 * (← decimalDigit? a) + (← decimalDigit? b))

/-- The days of a month. -/
def daysIn (year month : Nat) : Nat :=
  if month = 2 then if year % 4 = 0 ∧ (year % 100 ≠ 0 ∨ year % 400 = 0) then 29 else 28
  else if month = 4 ∨ month = 6 ∨ month = 9 ∨ month = 11 then 30
  else 31

/-- Take a date `YYYY-MM-DD` off a text. -/
def takeDate? : List Char → Option (List Char)
  | a :: b :: c :: d :: '-' :: e :: f :: '-' :: g :: h :: rest => do
    let year := 100 * (← twoDigits? a b) + (← twoDigits? c d)
    let month ← twoDigits? e f
    let day ← twoDigits? g h
    if 1 ≤ month ∧ month ≤ 12 ∧ 1 ≤ day ∧ day ≤ daysIn year month then pure rest else none
  | _ => none

/-- Take a time `HH:MM:SS`, with or without a fraction of a second, off a text. -/
def takeTime? : List Char → Option (List Char)
  | a :: b :: ':' :: c :: d :: ':' :: e :: f :: rest => do
    let hour ← twoDigits? a b
    let minute ← twoDigits? c d
    let second ← twoDigits? e f
    if hour ≤ 23 ∧ minute ≤ 59 ∧ second ≤ 60 then
      match rest with
      | '.' :: more =>
        match spanDigits more with
        | ([], _) => none
        | (_, rest) => pure rest
      | rest => pure rest
    else none
  | _ => none

/-- Whether a text is an offset from universal time. -/
def isOffset : List Char → Bool
  | ['Z'] | ['z'] => true
  | [sign, a, b, ':', c, d] =>
    (sign = '+' || sign = '-') && (twoDigits? a b).any (· ≤ 23) && (twoDigits? c d).any (· ≤ 59)
  | _ => false

/-- Whether a text is a date, a time, or a date and a time with or without an offset. -/
def isDatetime (word : List Char) : Bool :=
  match takeDate? word with
  | none => takeTime? word = some []
  | some [] => true
  | some (delimiter :: rest) =>
    (delimiter = 'T' || delimiter = 't' || delimiter = ' ') &&
      (takeTime? rest).any fun rest => rest.isEmpty || isOffset rest

/-! ## Words -/

/-- The value of a word. -/
def ofWord? (word : List Char) : Option Toml :=
  if word = ['t', 'r', 'u', 'e'] then some (.bool true)
  else if word = ['f', 'a', 'l', 's', 'e'] then some (.bool false)
  else if isDatetime word then some .datetime
  else (integer? word).or (float? word)

end Stratagem.Toml
