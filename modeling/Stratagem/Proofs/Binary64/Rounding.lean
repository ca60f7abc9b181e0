import Mathlib.Tactic.Ring
import Mathlib.Tactic.Linarith
import Mathlib.Tactic.Positivity
import Stratagem.Binary64.Basic

/-!
# Rounding to doubles

How far a quotient of naturals is from the double that it is rounded to.

* `Binary64.units_ofSign`: the units of a pattern that is made of a shift and a significand.
* `Binary64.Rounds` is what rounding comes to: a significand of at most fifty-three bits, shifted.
* `Binary64.isFinite_round`: a quotient below half a step past the largest double is rounded to a
  double.
-/

namespace Stratagem.Binary64

/-! ## Patterns without a sign -/

variable {magnitude shift m num den : Nat}

theorem infinityBits_eq : infinityBits = 2047 * 2 ^ 52 := Nat.shiftLeft_eq _ _

theorem toNat_bits_ofSign (small : magnitude < 2 ^ 63) :
    (ofSign false magnitude).bits.toNat = magnitude := by
  have fits : magnitude < 2 ^ 64 := by omega
  simp only [ofSign, Bool.false_eq_true, if_false, Nat.zero_add, UInt64.toNat_ofNat']
  exact Nat.mod_eq_of_lt fits

theorem exponent_ofSign (small : magnitude < 2 ^ 63) :
    (ofSign false magnitude).exponent = magnitude / 2 ^ 52 := by
  rw [exponent, toNat_bits_ofSign small, Nat.shiftRight_eq_div_pow]
  omega

theorem fraction_ofSign (small : magnitude < 2 ^ 63) :
    (ofSign false magnitude).fraction = magnitude % 2 ^ 52 := by
  rw [fraction, toNat_bits_ofSign small]
  rfl

theorem isFinite_ofSign (small : magnitude < infinityBits) :
    (ofSign false magnitude).isFinite = true := by
  rw [infinityBits_eq] at small
  rw [isFinite, exponent_ofSign (by omega), decide_eq_true_eq]
  omega

/-- A shift and a significand of at most fifty-three bits make a pattern; a significand of less than
fifty-three bits is not shifted. -/
theorem units_ofSign (small : shift * 2 ^ 52 + m < infinityBits) (short : m ≤ 2 ^ 53)
    (normal : shift = 0 ∨ 2 ^ 52 ≤ m) :
    (ofSign false (shift * 2 ^ 52 + m)).units = m * 2 ^ shift := by
  rw [infinityBits_eq] at small
  have fits : shift * 2 ^ 52 + m < 2 ^ 63 := by omega
  rw [units, exponent_ofSign fits, fraction_ofSign fits]
  -- Rounding may have carried into a fifty-fourth bit: the pattern is that of the next exponent.
  by_cases carried : m = 2 ^ 53
  · have exponent : (shift * 2 ^ 52 + m) / 2 ^ 52 = shift + 2 := by omega
    have fraction : (shift * 2 ^ 52 + m) % 2 ^ 52 = 0 := by omega
    rw [exponent, fraction, if_neg (by omega), Nat.shiftLeft_eq, carried]
    show 2 ^ 52 * 2 ^ (shift + 1) = 2 ^ 53 * 2 ^ shift
    ring
  · by_cases subnormal : m < 2 ^ 52
    · obtain rfl := normal.resolve_right (by omega)
      rw [if_pos (by omega)]
      omega
    · have exponent : (shift * 2 ^ 52 + m) / 2 ^ 52 = shift + 1 := by omega
      have fraction : (shift * 2 ^ 52 + m) % 2 ^ 52 = m - 2 ^ 52 := by omega
      rw [exponent, fraction, if_neg (by omega), Nat.shiftLeft_eq]
      have whole : 1 <<< 52 + (m - 2 ^ 52) = m := by
        rw [Nat.shiftLeft_eq]
        omega
      rw [whole, Nat.add_sub_cancel]

/-! ## The nearest natural -/

theorem div_le_divNearest (num den : Nat) : num / den ≤ divNearest num den := by
  unfold divNearest
  dsimp only
  split
  · exact Nat.le_refl _
  · split <;> omega

theorem divNearest_le (num den : Nat) : divNearest num den ≤ num / den + 1 := by
  unfold divNearest
  dsimp only
  split
  · omega
  · split <;> omega

/-- The nearest natural exceeds a quotient by a half at most. -/
theorem two_mul_divNearest_le (num den : Nat) :
    2 * (divNearest num den * den) ≤ 2 * num + den := by
  have parts := Nat.div_add_mod num den
  rw [Nat.mul_comm] at parts
  unfold divNearest
  dsimp only
  split
  · omega
  · have up : (num / den + 1) * den = num / den * den + den := by ring
    split
    · omega
    · have odd : (num / den + num / den % 2) * den ≤ (num / den + 1) * den :=
        Nat.mul_le_mul_right _ (by omega)
      omega

/-- A quotient below the middle of a natural and the next is not rounded up to the next. -/
theorem divNearest_le_of_lt {k : Nat} (below : 2 * num < (2 * k + 1) * den) :
    divNearest num den ≤ k := by
  by_contra above
  have least : (k + 1) * den ≤ divNearest num den * den := Nat.mul_le_mul_right _ (by omega)
  have most := two_mul_divNearest_le num den
  have double : 2 * ((k + 1) * den) = (2 * k + 1) * den + den := by ring
  omega

/-! ## A quotient of naturals -/

/-- How many bits of a quotient are rounded away. -/
def roundShift (num den : Nat) : Nat := Nat.log2 (num / den) - 52

/-- What a quotient is rounded to before it is shifted back. -/
def significand (num den : Nat) : Nat := divNearest num (den * 2 ^ roundShift num den)

/-- The double that a quotient of naturals, in units, is rounded to. -/
def round (num den : Nat) : Binary64 := ofSign false (roundUnits num den)

theorem roundUnits_eq (num den : Nat) :
    roundUnits num den =
      min (roundShift num den * 2 ^ 52 + significand num den) infinityBits := by
  unfold roundUnits significand roundShift
  simp only [Nat.shiftLeft_eq]

theorem div_lt_two_pow_roundShift (num den : Nat) :
    num / den < 2 ^ (roundShift num den + 53) := by
  have long : num / den < 2 ^ ((num / den).log2 + 1) := Nat.lt_log2_self
  refine Nat.lt_of_lt_of_le long (Nat.pow_le_pow_right (by decide) ?_)
  unfold roundShift
  omega

theorem significand_le (num den : Nat) : significand num den ≤ 2 ^ 53 := by
  have below := div_lt_two_pow_roundShift num den
  rw [Nat.pow_add, Nat.mul_comm, ← Nat.div_lt_iff_lt_mul (Nat.two_pow_pos _),
    Nat.div_div_eq_div_mul] at below
  exact (divNearest_le _ _).trans below

/-- A quotient of at least fifty-three bits keeps fifty-three of them. -/
theorem two_pow_roundShift_le (large : 2 ^ 52 ≤ num / den) :
    2 ^ (roundShift num den + 52) ≤ num / den := by
  have filled : num / den ≠ 0 := by omega
  have bits : 52 ≤ (num / den).log2 := (Nat.le_log2 filled).2 large
  have whole : roundShift num den + 52 = (num / den).log2 := by
    unfold roundShift
    omega
  exact whole ▸ Nat.log2_self_le filled

theorem le_significand (large : 2 ^ 52 ≤ num / den) : 2 ^ 52 ≤ significand num den := by
  have above := two_pow_roundShift_le large
  rw [Nat.pow_add, Nat.mul_comm, ← Nat.le_div_iff_mul_le (Nat.two_pow_pos _),
    Nat.div_div_eq_div_mul] at above
  exact above.trans (div_le_divNearest _ _)

theorem roundShift_eq_zero (small : ¬ 2 ^ 52 ≤ num / den) : roundShift num den = 0 := by
  rw [roundShift]
  by_cases empty : num / den = 0
  · rw [empty]
    rfl
  · have bits := (Nat.log2_lt empty).2 (Nat.lt_of_not_le small)
    omega

/-- A quotient below half a step past the largest number of an exponent keeps within it. -/
theorem pattern_lt {k : Nat} (below : num < (2 ^ 54 - 1) * 2 ^ k * den) :
    roundShift num den * 2 ^ 52 + significand num den < (k + 3) * 2 ^ 52 := by
  have short := significand_le num den
  have most : roundShift num den ≤ k + 1 := by
    by_cases large : 2 ^ 52 ≤ num / den
    · have less : num / den < 2 ^ (54 + k) := by
        refine Nat.div_lt_of_lt_mul (below.trans_le ?_)
        rw [Nat.mul_comm den, Nat.pow_add]
        exact Nat.mul_le_mul_right _ (Nat.mul_le_mul_right _ (Nat.sub_le _ _))
      have bits := (Nat.pow_lt_pow_iff_right (by decide)).1
        ((two_pow_roundShift_le large).trans_lt less)
      omega
    · rw [roundShift_eq_zero large]
      omega
  -- Only with the largest shift could a carry lead out of the range.
  rcases Nat.lt_or_eq_of_le most with lower | top
  · omega
  · have largest : significand num den ≤ 2 ^ 53 - 1 := by
      refine divNearest_le_of_lt ?_
      calc 2 * num < 2 * ((2 ^ 54 - 1) * 2 ^ k * den) := Nat.mul_lt_mul_of_pos_left below Nat.two_pos
        _ = (2 * (2 ^ 53 - 1) + 1) * (den * 2 ^ (k + 1)) := by ring
        _ = _ := by rw [top]
    rw [top]
    omega

theorem two_pow_le {k e : Nat} (few : k ≤ e + 53) : 2 ^ k ≤ (2 ^ 54 - 1) * 2 ^ e := by
  have grows : 2 ^ k ≤ 2 ^ (e + 53) := Nat.pow_le_pow_right Nat.two_pos few
  rw [Nat.pow_add, Nat.mul_comm] at grows
  exact grows.trans (Nat.mul_le_mul_right _ (by decide))

/-- Half a step past the largest double, in units. -/
@[irreducible] def overflow : Nat := (2 ^ 54 - 1) * 2 ^ 2044

theorem two_pow_le_overflow {k : Nat} (few : k ≤ 2044 + 53) : 2 ^ k ≤ overflow := by
  unfold overflow
  exact two_pow_le few

/-- A quotient below half a step past the largest double is rounded to a double. -/
theorem pattern_lt_infinityBits (below : num < overflow * den) :
    roundShift num den * 2 ^ 52 + significand num den < infinityBits := by
  rw [infinityBits_eq]
  unfold overflow at below
  exact pattern_lt below

theorem isFinite_round (below : num < overflow * den) :
    (round num den).isFinite = true := by
  have small := pattern_lt_infinityBits below
  rw [round, roundUnits_eq, Nat.min_eq_left small.le]
  exact isFinite_ofSign small

theorem units_round (below : num < overflow * den) :
    (round num den).units = significand num den * 2 ^ roundShift num den := by
  have small := pattern_lt_infinityBits below
  rw [round, roundUnits_eq, Nat.min_eq_left small.le]
  refine units_ofSign small (significand_le _ _) ?_
  by_cases large : 2 ^ 52 ≤ num / den
  · exact .inr (le_significand large)
  · exact .inl (roundShift_eq_zero large)

-- `oneUnits` and `overflow` are irreducible so that no proof evaluates these powers.

/-- One, in units. -/
@[irreducible] def oneUnits : Nat := 2 ^ 1074

theorem oneUnits_pos : 0 < oneUnits := by
  unfold oneUnits
  positivity

theorem shiftLeft_unit (n : Nat) : n <<< 1074 = n * oneUnits := by
  have generic (e : Nat) : n <<< e = n * 2 ^ e := Nat.shiftLeft_eq n e
  unfold oneUnits
  exact generic 1074

/-! ## How far a quotient is from its double -/

/-- Rounding a quotient of at least fifty-three bits adds no more than one part in `2 ^ 53`. -/
theorem units_round_mul_le (below : num < overflow * den)
    (large : 2 ^ 52 ≤ num / den) :
    (round num den).units * den * 2 ^ 53 ≤ num * (2 ^ 53 + 1) := by
  have nearest := two_mul_divNearest_le num (den * 2 ^ roundShift num den)
  have kept : den * 2 ^ roundShift num den * 2 ^ 52 ≤ num := by
    have above := Nat.mul_le_mul_left den (two_pow_roundShift_le large)
    rw [Nat.pow_add, ← Nat.mul_assoc] at above
    exact above.trans (Nat.mul_div_le num den)
  rw [units_round below]
  unfold significand
  nlinarith only [nearest, kept]

/-- Rounding does not lead below a power of two. -/
theorem le_units_round {k : Nat} (below : num < overflow * den) (bits : 52 ≤ k)
    (large : 2 ^ k ≤ num / den) : 2 ^ k ≤ (round num den).units := by
  have long : 2 ^ 52 ≤ num / den := (Nat.pow_le_pow_right (by decide) bits).trans large
  have reach : k < roundShift num den + 53 :=
    (Nat.pow_lt_pow_iff_right (by decide)).1 (large.trans_lt (div_lt_two_pow_roundShift num den))
  rw [units_round below]
  calc 2 ^ k ≤ 2 ^ (52 + roundShift num den) := Nat.pow_le_pow_right (by decide) (by omega)
    _ = 2 ^ 52 * 2 ^ roundShift num den := Nat.pow_add ..
    _ ≤ _ := Nat.mul_le_mul_right _ (le_significand long)

/-- Rounding does not lead above a power of two, which among the doubles is finite. -/
theorem units_round_le {k : Nat} (bits : 53 ≤ k) (few : k ≤ 2044 + 53) (small : num < 2 ^ k * den) :
    (round num den).isFinite = true ∧ (round num den).units ≤ 2 ^ k := by
  have below : num < overflow * den :=
    small.trans_le (Nat.mul_le_mul_right _ (two_pow_le_overflow few))
  refine ⟨isFinite_round below, ?_⟩
  have shift : roundShift num den + 53 ≤ k := by
    by_cases large : 2 ^ 52 ≤ num / den
    · have less : num / den < 2 ^ k := Nat.div_lt_of_lt_mul (by rwa [Nat.mul_comm])
      have := (Nat.pow_lt_pow_iff_right (by decide)).1
        ((two_pow_roundShift_le large).trans_lt less)
      omega
    · rw [roundShift_eq_zero large]
      omega
  rw [units_round below]
  calc significand num den * 2 ^ roundShift num den
      ≤ 2 ^ 53 * 2 ^ roundShift num den := Nat.mul_le_mul_right _ (significand_le _ _)
    _ = 2 ^ (53 + roundShift num den) := (Nat.pow_add ..).symm
    _ ≤ 2 ^ k := Nat.pow_le_pow_right (by decide) (by omega)

end Stratagem.Binary64
