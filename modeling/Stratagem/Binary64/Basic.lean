/-!
# Double-precision numbers

A `Binary64` is a 64-bit pattern in the IEEE 754 double format: a sign bit, eleven bits of
exponent and fifty-two of fraction. Every finite value is a whole multiple of `2 ^ -1074`,
its *units*; the operations here are exact arithmetic on units followed by one rounding.

* `Binary64.numEq` is numeric equality: NaN equals nothing and the two zeros are equal.
* `Binary64.ofRatio` rounds a quotient of naturals to the nearest double, ties to even.
-/

namespace Stratagem

/-- A double-precision number, as its bit pattern. Equal means equal bit for bit. -/
structure Binary64 where
  bits : UInt64
deriving DecidableEq, Repr

namespace Binary64

/-! ## Fields of the pattern -/

/-- The biased exponent, `0` to `2047`. -/
def exponent (x : Binary64) : Nat := (x.bits.toNat >>> 52) % 2048

/-- The fraction, below `2 ^ 52`. -/
def fraction (x : Binary64) : Nat := x.bits.toNat % (1 <<< 52)

/-- Whether the sign bit is set. -/
def isNegative (x : Binary64) : Bool := 1 <<< 63 ≤ x.bits.toNat

/-- Whether the pattern stands for no number. -/
def isNaN (x : Binary64) : Bool := x.exponent = 2047 && x.fraction ≠ 0

/-- Whether the pattern stands for an infinity. -/
def isInfinite (x : Binary64) : Bool := x.exponent = 2047 && x.fraction = 0

/-- Whether the pattern stands for a real number. -/
def isFinite (x : Binary64) : Bool := x.exponent ≠ 2047

/-- Whether the pattern is one of the two zeros. -/
def isZero (x : Binary64) : Bool := x.exponent = 0 && x.fraction = 0

/-- A pattern from a sign and the sixty-three bits below it. -/
def ofSign (negative : Bool) (magnitude : Nat) : Binary64 :=
  ⟨UInt64.ofNat ((if negative then 1 <<< 63 else 0) + magnitude)⟩

/-- The magnitude bits of infinity. -/
def infinityBits : Nat := 2047 <<< 52

/-- The infinity of a sign. -/
def infinity (negative : Bool) : Binary64 := ofSign negative infinityBits

/-- The quiet pattern that stands for no number. -/
def nan : Binary64 := ofSign false (infinityBits + 1 <<< 51)

/-- The zero of a sign. -/
def zero (negative : Bool) : Binary64 := ofSign negative 0

/-- The same number with the other sign. -/
def neg (x : Binary64) : Binary64 := ⟨x.bits ^^^ 0x8000000000000000⟩

/-! ## Numeric equality -/

/-- Equality of numbers: NaN differs from everything and the two zeros are one number. -/
def numEq (x y : Binary64) : Bool :=
  !x.isNaN && !y.isNaN && (x.bits = y.bits || (x.isZero && y.isZero))

/-! ## Units and rounding -/

/-- The distance of a finite number from zero in multiples of `2 ^ -1074`. -/
def units (x : Binary64) : Nat :=
  if x.exponent = 0 then x.fraction else (1 <<< 52 + x.fraction) <<< (x.exponent - 1)

/-- A quotient rounded to the nearest natural, ties to the even one. -/
def divNearest (num den : Nat) : Nat :=
  let q := num / den
  let r := num % den
  if 2 * r < den then q else if den < 2 * r then q + 1 else q + q % 2

/-- The magnitude bits of the double nearest to `num / den` units, ties to even.

With fifty-three significant bits kept and the rest, `shift` bits, rounded away, the pattern is
`shift * 2 ^ 52` plus the rounded significand: a carry out of the significand moves into the
exponent by itself. -/
def roundUnits (num den : Nat) : Nat :=
  let shift := Nat.log2 (num / den) - 52
  let magnitude := shift <<< 52 + divNearest num (den <<< shift)
  min magnitude infinityBits

/-- The double nearest to `num / den` with the given sign, ties to even; an overflow is
infinite. -/
def ofRatio (negative : Bool) (num den : Nat) : Binary64 :=
  ofSign negative (roundUnits (num <<< 1074) den)

/-- The double nearest to an integer. -/
def ofInt (i : Int) : Binary64 := ofRatio (i < 0) i.natAbs 1

/-- The product of two finite magnitudes, rounded once; signs are ignored. -/
def mulMagnitude (x y : Binary64) : Binary64 :=
  ofSign false (roundUnits (x.units * y.units) (1 <<< 1074))

/-- The quotient of two finite magnitudes, the second not zero, rounded once; signs are ignored. -/
def divMagnitude (x y : Binary64) : Binary64 :=
  ofSign false (roundUnits (x.units <<< 1074) y.units)

end Binary64

end Stratagem
