import Stratagem.Binary64.Shortest

/-!
# Decimal text of doubles

Texts are written from the shortest digits of a double, with a decimal point also in whole numbers
(`3.0`), and with an exponent for very large and very small ones. A `Style` holds what else there
is to decide, and there are two:

* `Binary64.documentText`: positional from `1e-5`, a sign before every exponent (`1e+16`, `1e-7`),
  ties to the even digit; NaN and the infinities are `null`.
* `Binary64.displayText`: positional from `1e-4`, no plus sign (`1e16`, `1e-7`), ties up; `NaN`,
  `inf` and `-inf`.

Numerals are read in two ways:

* `Numeral.nearest`: the double nearest to the number that is written;
* `Numeral.toBinary64?`: the leading digits that fit a 64-bit word are rounded to a double, which is
  then scaled by a power of ten with one more rounding.
-/

namespace Stratagem

/-! ## Writing -/

namespace Digits

/-- The characters of a run of digits. -/
def chars (digits : List Nat) : List Char := digits.map Nat.digitChar

/-- Positional notation, with at least one digit on each side of the point. -/
def positional (d : Digits) : String :=
  let cs := chars d.digits
  if d.point ≤ 0 then
    String.ofList ('0' :: '.' :: List.replicate (-d.point).toNat '0' ++ cs)
  else
    let n := d.point.toNat
    let whole := cs.take n ++ List.replicate (n - cs.length) '0'
    let rest := if cs.length ≤ n then ['0'] else cs.drop n
    String.ofList (whole ++ '.' :: rest)

/-- Exponent notation: one digit before the point, and a point only if digits follow it. -/
def exponential (plus : Bool) (d : Digits) : String :=
  let exponent := (if plus && 0 < d.point then "e+" else "e") ++ toString (d.point - 1)
  match chars d.digits with
  | [] => "0" ++ exponent
  | [c] => String.ofList [c] ++ exponent
  | c :: rest => String.ofList (c :: '.' :: rest) ++ exponent

end Digits

namespace Binary64

/-- How a finite double is written. -/
structure Style where
  /-- Numbers from `10 ^ least` up to, but not including, `10 ^ 16` are positional. -/
  least : Int
  /-- Whether an exponent that is not negative has a plus sign. -/
  plus : Bool
  /-- Which of two equally near decimals is written. -/
  tie : Tie
deriving DecidableEq, Repr

/-- Digits in the notation of a style. -/
def Style.digitsText (style : Style) (d : Digits) : String :=
  if style.least < d.point && d.point ≤ 16 then d.positional else d.exponential style.plus

/-- The text of a finite double. -/
def Style.text (style : Style) (x : Binary64) : String :=
  (if x.isNegative then "-" else "")
    ++ (if x.isZero then "0.0" else style.digitsText (x.shortest style.tie))

/-- The numbers of a JSON document. -/
def documentStyle : Style := { least := -5, plus := true, tie := .toEven }

/-- The numbers that are shown to a person. -/
def displayStyle : Style := { least := -4, plus := false, tie := .up }

/-- The text of a double in a JSON document, which has no spelling for NaN and infinities. -/
def documentText (x : Binary64) : String :=
  if x.isFinite then documentStyle.text x else "null"

/-- The text of a double where values are shown to a person. -/
def displayText (x : Binary64) : String :=
  if x.isNaN then "NaN"
  else if x.isInfinite then (if x.isNegative then "-inf" else "inf")
  else displayStyle.text x

/-- The bits of a double as sixteen lower-case hexadecimal digits. -/
def hexText (x : Binary64) : String :=
  let digits := Nat.toDigits 16 x.bits.toNat
  String.ofList (List.replicate (16 - digits.length) '0' ++ digits)

end Binary64

/-! ## Reading -/

/-- A decimal numeral: `whole.fraction * 10 ^ exponent`, digits most significant first. -/
structure Numeral where
  negative : Bool
  whole : List Nat
  fraction : List Nat
  exponent : Int
deriving DecidableEq, Repr

namespace Numeral

/-! ### To the nearest double -/

/-- The double nearest to a numeral, ties to even; an overflow is infinite. A number of `count`
digits before the scale is less than `10 ^ (count + scale)`, and not less than a tenth of that:
past `10 ^ 309` it exceeds the doubles, and below `10 ^ (-324)` it rounds to zero. -/
def nearest (n : Numeral) : Binary64 :=
  let digits := (n.whole ++ n.fraction).dropWhile (· == 0)
  let significand := digits.foldl (fun sum d => sum * 10 + d) 0
  let scale := n.exponent - n.fraction.length
  let size := digits.length + scale
  if digits.isEmpty || size < -323 then Binary64.zero n.negative
  else if 309 < size then Binary64.infinity n.negative
  else if 0 ≤ scale then Binary64.ofRatio n.negative (significand * Nat.pow 10 scale.toNat) 1
  else Binary64.ofRatio n.negative significand (Nat.pow 10 (-scale).toNat)

/-! ### By a word and a power of ten -/

/-- A significand in a 64-bit word together with the power of ten it is to be scaled by. -/
structure Scaled where
  significand : Nat
  scale : Int
deriving DecidableEq, Repr

/-- Whether a further digit still fits the word. -/
def Scaled.fits (s : Scaled) (digit : Nat) : Bool := s.significand * 10 + digit < UInt64.size

/-- Take in the digits before the point. From the first digit that does not fit the word on, each
digit only counts as a factor of ten. -/
def Scaled.takeWhole (s : Scaled) : List Nat → Scaled
  | [] => s
  | d :: rest =>
    if s.fits d then takeWhole { s with significand := s.significand * 10 + d } rest
    else { s with scale := s.scale + (rest.length + 1) }

/-- Take in the digits after the point. From the first digit that does not fit the word on, digits
are dropped. -/
def Scaled.takeFraction (s : Scaled) : List Nat → Scaled
  | [] => s
  | d :: rest =>
    if s.fits d then
      takeFraction { significand := s.significand * 10 + d, scale := s.scale - 1 } rest
    else s

/-- The word and the power of ten of a numeral. -/
def scaled (n : Numeral) : Scaled :=
  let s := ((Scaled.mk 0 0).takeWhole n.whole).takeFraction n.fraction
  { s with scale := s.scale + n.exponent }

/-- The double nearest to a power of ten. -/
def powerOfTen (n : Nat) : Binary64 := Binary64.ofRatio false (Nat.pow 10 n) 1

/-- Divide by `10 ^ n`, in steps of at most `10 ^ 308`, the largest power of ten among the doubles.
Zero is reached at the latest after the third step. -/
def scaleDown (x : Binary64) (n : Nat) : Binary64 :=
  if n ≤ 308 then x.divMagnitude (powerOfTen n)
  else
    let once := x.divMagnitude (powerOfTen 308)
    if n ≤ 616 then once.divMagnitude (powerOfTen (n - 308))
    else
      let twice := once.divMagnitude (powerOfTen 308)
      if n ≤ 924 then twice.divMagnitude (powerOfTen (n - 616)) else Binary64.zero false

/-- Multiply by `10 ^ n`; nothing if the result exceeds every double. -/
def scaleUp? (x : Binary64) (n : Nat) : Option Binary64 :=
  if x.isZero then some x
  else if 308 < n then none
  else
    let y := x.mulMagnitude (powerOfTen n)
    if y.isFinite then some y else none

/-- The double that a numeral stands for; nothing if it exceeds every double. -/
def toBinary64? (n : Numeral) : Option Binary64 := do
  let s := n.scaled
  let x := Binary64.ofRatio false s.significand 1
  let y ← if 0 ≤ s.scale then scaleUp? x s.scale.toNat else some (scaleDown x (-s.scale).toNat)
  pure (if n.negative then y.neg else y)

end Numeral

end Stratagem
