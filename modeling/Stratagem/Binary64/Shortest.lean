import Stratagem.Binary64.Basic

/-!
# The shortest decimal of a double

A finite double stands for every real number that rounds to it: an interval around its value,
which contains its own ends when the significand is even. `Binary64.shortest` gives the decimal
with the fewest significant digits inside that interval and, among those, the nearest one; a `Tie`
says which of two decimals equally near is meant.

The search takes the grids of one, two, … seventeen significant digits in turn and tests the two
grid points next to the value, in exact arithmetic. A grid that has any point in the interval has
one of these two there, so the first hit is the shortest; seventeen digits always suffice.
-/

namespace Stratagem

/-- A positive decimal `0.d₁d₂… * 10 ^ point`, its digits most significant first. -/
structure Digits where
  digits : List Nat
  point : Int
deriving DecidableEq, Repr

namespace Digits

/-- The decimal digits of a positive number, most significant first. -/
def ofNat (n : Nat) : List Nat := (Nat.toDigits 10 n).map fun c => c.toNat - '0'.toNat

/-- The decimal `n * 10 ^ scale`, without trailing zeros. -/
def ofScaled (n : Nat) (scale : Int) : Digits :=
  let digits := ofNat n
  { digits := (digits.reverse.dropWhile (· == 0)).reverse, point := digits.length + scale }

end Digits

namespace Binary64

/-- Which of two neighbouring decimals stands for a value half way between them. -/
inductive Tie
  /-- The one whose last digit is even. -/
  | toEven
  /-- The greater one. -/
  | up
deriving DecidableEq, Repr

/-- The choice between a number and its successor. -/
def Tie.pick (tie : Tie) (below : Nat) : Nat :=
  match tie with
  | .toEven => below + below % 2
  | .up => below + 1

/-- The reals that round to a double, as three numbers over one denominator: the value and the
two ends, each in units of `2 ^ -1076`. -/
structure Interval where
  value : Nat
  low : Nat
  high : Nat
  closed : Bool

/-- The reals that round to a finite double that is not zero. Below a power of two the doubles
lie twice as close, so that end is half as far. -/
def interval (x : Binary64) : Interval :=
  let gap := 1 <<< (x.exponent - 1)
  let value := 4 * x.units
  { value
    low := value - (if x.fraction = 0 ∧ 1 < x.exponent then gap else 2 * gap)
    high := value + 2 * gap
    closed := x.fraction % 2 = 0 }

/-- Whether `num / den` units of `2 ^ -1076` lie in the interval. -/
def Interval.contains (i : Interval) (num den : Nat) : Bool :=
  if i.closed then i.low * den ≤ num && num ≤ i.high * den
  else i.low * den < num && num < i.high * den

/-- The greatest `e` with `10 ^ e * 2 ^ 1076 ≤ value`, found from above. -/
def decimalExponent (value : Nat) : Nat → Int
  | 0 => -324
  | n + 1 =>
    let e : Int := (n : Int) - 323
    let fits := if 0 ≤ e then Nat.pow 10 e.toNat <<< 1076 ≤ value
      else 1 <<< 1076 ≤ value * Nat.pow 10 (-e).toNat
    if fits then e else decimalExponent value n

/-- The point of the grid `10 ^ scale * ℕ` that lies in the interval next to its value, the nearer
of two. -/
def Interval.onGrid? (i : Interval) (tie : Tie) (scale : Int) : Option Nat :=
  let up := if 0 ≤ scale then Nat.pow 10 scale.toNat <<< 1076 else 1 <<< 1076
  let down := if 0 ≤ scale then 1 else Nat.pow 10 (-scale).toNat
  let below := i.value * down / up
  let distance (n : Nat) : Nat :=
    if n * up ≤ i.value * down then i.value * down - n * up else n * up - i.value * down
  let inside (n : Nat) : Bool := 0 < n && i.contains (n * up) down
  match inside below, inside (below + 1) with
  | true, true =>
    if distance below < distance (below + 1) then some below
    else if distance (below + 1) < distance below then some (below + 1)
    else some (tie.pick below)
  | true, false => some below
  | false, true => some (below + 1)
  | false, false => none

/-- The first grid with a hit among those of `count`, `count + 1`, … significant digits, up to
`remaining` of them. -/
def Interval.firstHit (i : Interval) (tie : Tie) (exponent : Int) (count : Nat) : Nat → Digits
  | 0 => { digits := [], point := 0 }
  | remaining + 1 =>
    let scale := exponent + 1 - count
    match i.onGrid? tie scale with
    | some n => Digits.ofScaled n scale
    | none => i.firstHit tie exponent (count + 1) remaining

/-- The shortest decimal that rounds to a finite double other than zero, the nearest of the
shortest. -/
def shortest (tie : Tie) (x : Binary64) : Digits :=
  let i := x.interval
  i.firstHit tie (decimalExponent i.value 632) 1 17

end Binary64

end Stratagem
