import Mathlib.Algebra.Order.Field.Basic
import Mathlib.Algebra.Order.Field.Rat
import Mathlib.Tactic.FieldSimp
import Stratagem.Json.Lexer
import Stratagem.Proofs.Binary64.Rounding

/-!
# Scaling by a power of ten

A numeral is read by rounding three times: its digits are taken in as a word and rounded, the power
of ten is rounded, and so is their product or quotient. A quotient is always finite. A product is
finite if the numeral keeps a distance from the largest double that three roundings do not exceed.

* `Numeral.isFinite_scaleDown` is about quotients and `Numeral.units_mul_lt` about products.
* `Numeral.exists_toBinary64?_of_short` and `Numeral.exists_toBinary64?_of_spelled` tell numerals
  that stand for a finite double by the way they are written.
-/

namespace Stratagem

namespace Binary64

variable {x y : Binary64} {n m : Nat}

/-! ## One rounding at a time -/

theorem ofRatio_eq (num den : Nat) : ofRatio false num den = round (num * oneUnits) den := by
  rw [ofRatio, shiftLeft_unit, round]

theorem mulMagnitude_eq (x y : Binary64) : x.mulMagnitude y = round (x.units * y.units) oneUnits := by
  rw [mulMagnitude, shiftLeft_unit, Nat.one_mul, round]

theorem divMagnitude_eq (x y : Binary64) : x.divMagnitude y = round (x.units * oneUnits) y.units := by
  rw [divMagnitude, shiftLeft_unit, round]

theorem exists_oneUnits_eq : ∃ k, oneUnits = 2 ^ k ∧ k = 1074 := by
  unfold oneUnits
  exact ⟨1074, rfl, rfl⟩

/-- A number from one on, rounded to a double, grows by no more than one part in `2 ^ 53`, and does
not fall below one. -/
theorem units_ofRatio (filled : n ≠ 0) (below : n * oneUnits < overflow) :
    oneUnits ≤ (ofRatio false n 1).units ∧
      (ofRatio false n 1).units * 2 ^ 53 ≤ n * oneUnits * (2 ^ 53 + 1) := by
  obtain ⟨k, unit, places⟩ := exists_oneUnits_eq
  have small : n * oneUnits < overflow * 1 := by rwa [Nat.mul_one]
  have large : 2 ^ k ≤ n * oneUnits / 1 := by
    rw [Nat.div_one, unit]
    exact Nat.le_mul_of_pos_left _ (Nat.pos_of_ne_zero filled)
  rw [ofRatio_eq]
  constructor
  · rw [unit] at small large ⊢
    exact le_units_round small (by omega) large
  · have long : 2 ^ 52 ≤ n * oneUnits / 1 := (Nat.pow_le_pow_right (by decide) (by omega)).trans large
    have near := units_round_mul_le small long
    rwa [Nat.mul_one] at near

/-- A word is a finite double. -/
theorem units_ofRatio_word (word : n < UInt64.size) :
    (ofRatio false n 1).isFinite = true ∧ (ofRatio false n 1).units ≤ 2 ^ 64 * oneUnits := by
  obtain ⟨k, unit, places⟩ := exists_oneUnits_eq
  have small : n * oneUnits < 2 ^ (64 + k) * 1 := by
    rw [Nat.mul_one, unit, Nat.pow_add]
    exact Nat.mul_lt_mul_of_pos_right word (Nat.two_pow_pos k)
  rw [ofRatio_eq, unit, ← Nat.pow_add]
  rw [unit] at small
  exact units_round_le (by omega) (by omega) small

theorem ten_pow_lt_overflow (few : n ≤ 308) : 10 ^ n * oneUnits < overflow := by
  have most : 10 ^ 308 * oneUnits < overflow := by
    unfold oneUnits overflow
    decide +kernel
  generalize 308 = top at few most
  exact (Nat.mul_le_mul_right _ (Nat.pow_le_pow_right (by decide) few)).trans_lt most

theorem units_powerOfTen (few : n ≤ 308) :
    oneUnits ≤ (Numeral.powerOfTen n).units ∧
      (Numeral.powerOfTen n).units * 2 ^ 53 ≤ 10 ^ n * oneUnits * (2 ^ 53 + 1) :=
  units_ofRatio (Nat.pow_pos (by decide)).ne' (ten_pow_lt_overflow few)

/-- A quotient by a number from one on is finite, and not far above what is divided. -/
theorem divMagnitude_le (small : x.units ≤ 2 ^ m) (whole : oneUnits ≤ y.units) (bits : 52 ≤ m)
    (few : m < 2044 + 53) :
    (x.divMagnitude y).isFinite = true ∧ (x.divMagnitude y).units ≤ 2 ^ (m + 1) := by
  rw [divMagnitude_eq]
  refine units_round_le (by omega) few ?_
  calc x.units * oneUnits ≤ 2 ^ m * y.units := Nat.mul_le_mul small whole
    _ < 2 ^ (m + 1) * y.units :=
      Nat.mul_lt_mul_of_pos_right (Nat.pow_lt_pow_right (by decide) (Nat.lt_succ_self m))
        (oneUnits_pos.trans_le whole)

end Binary64

namespace Numeral

open Binary64

variable {x : Binary64} {n m : Nat}

/-! ## Scaling -/

/-- What is scaled down stays finite. -/
theorem isFinite_scaleDown (small : x.units ≤ 2 ^ m) (bits : 52 ≤ m) (few : m + 2 < 2044 + 53)
    (n : Nat) : (scaleDown x n).isFinite = true := by
  have power {k : Nat} (few : k ≤ 308) : oneUnits ≤ (powerOfTen k).units := (units_powerOfTen few).1
  have once := divMagnitude_le small (power (Nat.le_refl 308)) bits (by omega)
  have twice := divMagnitude_le once.2 (power (Nat.le_refl 308)) (by omega) (by omega)
  -- There are at most three divisions by a number from one on, and each adds one bit at most.
  unfold scaleDown
  split
  · next close => exact (divMagnitude_le small (power close) bits (by omega)).1
  · dsimp only
    split
    · exact (divMagnitude_le once.2 (power (by omega)) (by omega) (by omega)).1
    · split
      · exact (divMagnitude_le twice.2 (power (by omega)) (by omega) (by omega)).1
      · exact isFinite_ofSign (by decide)

/-- What is scaled up stays finite if the product does not exceed every double. -/
theorem exists_scaleUp? (finite : x.isFinite = true) (few : n ≤ 308)
    (below : x.units * (powerOfTen n).units < overflow * oneUnits) :
    ∃ y, scaleUp? x n = some y ∧ y.isFinite = true := by
  unfold scaleUp?
  split
  · exact ⟨x, rfl, finite⟩
  · have product : (x.mulMagnitude (powerOfTen n)).isFinite = true := by
      rw [mulMagnitude_eq]
      exact isFinite_round below
    rw [if_neg (Nat.not_lt.2 few)]
    exact ⟨_, if_pos product, product⟩

/-! ## Taking in digits -/

namespace Scaled

variable {s : Scaled} {digits : List Nat}

theorem takeWhole_significand_lt (word : s.significand < UInt64.size) :
    (s.takeWhole digits).significand < UInt64.size := by
  induction digits generalizing s with
  | nil => exact word
  | cons d digits ih =>
    unfold takeWhole
    split
    · next fits => exact ih (of_decide_eq_true fits)
    · exact word

theorem takeFraction_significand_lt (word : s.significand < UInt64.size) :
    (s.takeFraction digits).significand < UInt64.size := by
  induction digits generalizing s with
  | nil => exact word
  | cons d digits ih =>
    unfold takeFraction
    split
    · next fits => exact ih (of_decide_eq_true fits)
    · exact word

theorem takeFraction_scale_le : (s.takeFraction digits).scale ≤ s.scale := by
  induction digits generalizing s with
  | nil => exact Int.le_refl _
  | cons d digits ih =>
    unfold takeFraction
    split
    · exact ih.trans (Int.sub_le_self _ Int.one_nonneg)
    · exact Int.le_refl _

theorem le_takeFraction_significand (s : Scaled) (digits : List Nat) :
    s.significand ≤ (s.takeFraction digits).significand := by
  induction digits generalizing s with
  | nil => exact Nat.le_refl _
  | cons d digits ih =>
    unfold takeFraction
    split
    · refine Nat.le_trans ?_ (ih _)
      show s.significand ≤ s.significand * 10 + d
      omega
    · exact Nat.le_refl _

/-- Digits before the point that all fit the word are no factors of ten. -/
theorem takeWhole_scale (small : ∀ d ∈ digits, d < 10)
    (room : (s.significand + 1) * 10 ^ digits.length ≤ UInt64.size) :
    (s.takeWhole digits).scale = s.scale := by
  induction digits generalizing s with
  | nil => rfl
  | cons d digits ih =>
    have digit := small d List.mem_cons_self
    have room : (s.significand * 10 + d + 1) * 10 ^ digits.length ≤ UInt64.size := by
      refine Nat.le_trans ?_ room
      rw [List.length_cons, Nat.pow_succ, Nat.mul_comm (10 ^ _) 10, ← Nat.mul_assoc]
      exact Nat.mul_le_mul_right _ (by omega)
    have fits : s.fits d = true := by
      have least := Nat.le_mul_of_pos_right (s.significand * 10 + d + 1)
        (Nat.pow_pos (n := digits.length) (show 0 < 10 by decide))
      exact decide_eq_true (by omega)
    rw [takeWhole, if_pos fits]
    exact ih (fun x hx => small x (List.mem_cons_of_mem _ hx)) room

theorem mul_pow_le_foldl (n : Nat) (digits : List Nat) :
    n * 10 ^ digits.length ≤ digits.foldl (fun n d => n * 10 + d) n := by
  induction digits generalizing n with
  | nil => exact (Nat.mul_one n).le
  | cons d digits ih =>
    refine Nat.le_trans ?_ (ih (n * 10 + d))
    rw [List.length_cons, Nat.pow_succ, Nat.mul_comm (10 ^ _) 10, ← Nat.mul_assoc]
    exact Nat.mul_le_mul_right _ (Nat.le_add_right _ _)

/-- Digits after the point make a number that is never greater than they spell, for some of them may
be dropped. -/
theorem takeFraction_le (s : Scaled) (digits : List Nat) :
    ((s.takeFraction digits).significand : ℚ) * 10 ^ (s.takeFraction digits).scale ≤
      (digits.foldl (fun n d => n * 10 + d) s.significand : ℕ) *
        10 ^ (s.scale - digits.length) := by
  induction digits generalizing s with
  | nil => simp [takeFraction]
  | cons d digits ih =>
    unfold takeFraction
    split
    · have length : s.scale - 1 - digits.length = s.scale - (d :: digits).length := by
        rw [List.length_cons]
        omega
      exact (ih _).trans_eq (by rw [length, List.foldl_cons])
    · have least := mul_pow_le_foldl s.significand (d :: digits)
      have scale : (10 : ℚ) ^ s.scale =
          10 ^ (d :: digits).length * 10 ^ (s.scale - (d :: digits).length) := by
        rw [← zpow_natCast, ← zpow_add₀ (by norm_num)]
        congr 1
        omega
      rw [scale, ← mul_assoc]
      refine mul_le_mul_of_nonneg_right ?_ (zpow_nonneg (by norm_num) _)
      exact_mod_cast least

end Scaled

/-! ## What a numeral stands for -/

variable {numeral : Numeral}

theorem isFinite_neg (x : Binary64) : x.neg.isFinite = x.isFinite := by
  have same : x.neg.exponent = x.exponent := by
    show (x.bits ^^^ 0x8000000000000000).toNat >>> 52 % 2 ^ 11 = x.bits.toNat >>> 52 % 2 ^ 11
    rw [UInt64.toNat_xor, Nat.shiftRight_xor_distrib, Nat.xor_mod_two_pow]
    exact Nat.xor_zero _
  rw [isFinite, isFinite, same]

theorem scaled_significand_lt (numeral : Numeral) :
    numeral.scaled.significand < UInt64.size :=
  Scaled.takeFraction_significand_lt (Scaled.takeWhole_significand_lt (by decide))

theorem isFinite_signed {y : Binary64} (finite : y.isFinite = true) (negative : Bool) :
    (if negative then y.neg else y).isFinite = true := by
  cases negative with
  | false => exact finite
  | true => exact (isFinite_neg y).trans finite

/-- A numeral stands for a finite double unless it is scaled up and exceeds every double. -/
theorem exists_toBinary64? (up : 0 ≤ numeral.scaled.scale →
      ∃ y, scaleUp? (ofRatio false numeral.scaled.significand 1) numeral.scaled.scale.toNat = some y ∧
        y.isFinite = true) :
    ∃ z, numeral.toBinary64? = some z ∧ z.isFinite = true := by
  unfold toBinary64?
  dsimp only
  by_cases positive : 0 ≤ numeral.scaled.scale
  · obtain ⟨y, made, finite⟩ := up positive
    refine ⟨_, ?_, isFinite_signed finite numeral.negative⟩
    rw [if_pos positive, made]
    rfl
  · obtain ⟨k, unit, places⟩ := exists_oneUnits_eq
    have small := (units_ofRatio_word numeral.scaled_significand_lt).2
    rw [unit, ← Nat.pow_add] at small
    have finite := isFinite_scaleDown small (by omega) (by omega) (-numeral.scaled.scale).toNat
    refine ⟨_, ?_, isFinite_signed finite numeral.negative⟩
    rw [if_neg positive]
    rfl

theorem units_powerOfTen_zero_le : (powerOfTen 0).units ≤ 2 * oneUnits := by
  have near : (powerOfTen 0).units * 2 ^ 53 ≤ oneUnits * (2 ^ 53 + 1) := by
    simpa only [Nat.pow_zero, Nat.one_mul] using (units_powerOfTen (Nat.zero_le 308)).2
  generalize (powerOfTen 0).units = units at near ⊢
  omega

theorem word_lt_overflow : 2 ^ 64 * oneUnits * 2 < overflow := by
  obtain ⟨k, unit, places⟩ := exists_oneUnits_eq
  have most : 2 ^ (66 + k) ≤ overflow := two_pow_le_overflow (by omega)
  rw [Nat.pow_add, ← unit] at most
  have positive := oneUnits_pos
  omega

/-- A numeral with no more than sixteen digits before the point and no positive exponent stands for
a finite double. -/
theorem exists_toBinary64?_of_short (small : ∀ d ∈ numeral.whole, d < 10)
    (short : numeral.whole.length ≤ 16) (negative : numeral.exponent ≤ 0) :
    ∃ z, numeral.toBinary64? = some z ∧ z.isFinite = true := by
  refine exists_toBinary64? fun positive => ?_
  have whole : ((Scaled.mk 0 0).takeWhole numeral.whole).scale = 0 := by
    refine Scaled.takeWhole_scale small ?_
    have room : 10 ^ numeral.whole.length ≤ 10 ^ 16 := Nat.pow_le_pow_right (by decide) short
    rw [Nat.zero_add, Nat.one_mul]
    exact room.trans (by decide)
  have scale : numeral.scaled.scale ≤ 0 := by
    have fraction : (((Scaled.mk 0 0).takeWhole numeral.whole).takeFraction numeral.fraction).scale
        ≤ 0 := Scaled.takeFraction_scale_le.trans whole.le
    show _ + _ ≤ (0 : Int)
    omega
  obtain ⟨finite, word⟩ := units_ofRatio_word numeral.scaled_significand_lt
  rw [le_antisymm scale positive]
  refine exists_scaleUp? finite (by decide) ?_
  calc (ofRatio false numeral.scaled.significand 1).units * (powerOfTen (0 : Int).toNat).units
      ≤ 2 ^ 64 * oneUnits * (2 * oneUnits) := Nat.mul_le_mul word units_powerOfTen_zero_le
    _ = 2 ^ 64 * oneUnits * 2 * oneUnits := by ring
    _ < overflow * oneUnits := Nat.mul_lt_mul_of_pos_right word_lt_overflow oneUnits_pos

/-! ## Large numerals -/

/-- How many units are far enough from the overflow that three roundings do not lead there. -/
@[irreducible] def limit : Nat := (2 ^ 54 - 5) * 2 ^ 2044

theorem exists_limit_eq : ∃ k, limit = (2 ^ 54 - 5) * 2 ^ k ∧ k = 2044 := by
  unfold limit
  exact ⟨2044, rfl, rfl⟩

theorem limit_mul_lt : limit * (2 ^ 53 + 1) ^ 2 < overflow * 2 ^ 106 := by
  have generic (e : Nat) :
      (2 ^ 54 - 5) * 2 ^ e * (2 ^ 53 + 1) ^ 2 < (2 ^ 54 - 1) * 2 ^ e * 2 ^ 106 := by
    have coarse : (2 ^ 54 - 5) * (2 ^ 53 + 1) ^ 2 < (2 ^ 54 - 1) * 2 ^ 106 := by norm_num
    calc (2 ^ 54 - 5) * 2 ^ e * (2 ^ 53 + 1) ^ 2 = (2 ^ 54 - 5) * (2 ^ 53 + 1) ^ 2 * 2 ^ e := by ring
      _ < (2 ^ 54 - 1) * 2 ^ 106 * 2 ^ e := Nat.mul_lt_mul_of_pos_right coarse (Nat.two_pow_pos e)
      _ = (2 ^ 54 - 1) * 2 ^ e * 2 ^ 106 := by ring
  unfold limit overflow
  exact generic 2044

theorem limit_lt_overflow : limit < overflow := by
  have generic (e : Nat) : (2 ^ 54 - 5) * 2 ^ e < (2 ^ 54 - 1) * 2 ^ e :=
    Nat.mul_lt_mul_of_pos_right (by decide) (Nat.two_pow_pos e)
  unfold limit overflow
  exact generic 2044

theorem lt_of_ten_pow_le_limit (below : 10 ^ n * oneUnits ≤ limit) : n < 309 := by
  have most : limit < 10 ^ 309 * oneUnits := by
    unfold limit oneUnits
    decide +kernel
  generalize 309 = top at most ⊢
  exact (Nat.pow_lt_pow_iff_right (by decide)).1
    (Nat.lt_of_mul_lt_mul_right (below.trans_lt most))

/-- Below the limit, the product of a number and a power of ten, both rounded, is a double. -/
theorem units_mul_lt (filled : m ≠ 0) (below : m * 10 ^ n * oneUnits ≤ limit) :
    (ofRatio false m 1).units * (powerOfTen n).units < overflow * oneUnits := by
  have positive : 0 < 10 ^ n := Nat.pow_pos (by decide)
  have alone : m * oneUnits ≤ limit :=
    (Nat.mul_le_mul_right _ (Nat.le_mul_of_pos_right m positive)).trans below
  have power : 10 ^ n * oneUnits ≤ limit := by
    rw [Nat.mul_assoc] at below
    exact (Nat.le_mul_of_pos_left _ (Nat.pos_of_ne_zero filled)).trans below
  have first := (units_ofRatio filled (alone.trans_lt limit_lt_overflow)).2
  have second := (units_powerOfTen (Nat.le_of_lt_succ (lt_of_ten_pow_le_limit power))).2
  -- Both factors are rounded, each by one part in `2 ^ 53` at most.
  generalize (ofRatio false m 1).units = x at first ⊢
  generalize (powerOfTen n).units = y at second ⊢
  refine Nat.lt_of_mul_lt_mul_right (a := 2 ^ 106) ?_
  calc x * y * 2 ^ 106 = x * 2 ^ 53 * (y * 2 ^ 53) := by ring
    _ ≤ m * oneUnits * (2 ^ 53 + 1) * (10 ^ n * oneUnits * (2 ^ 53 + 1)) := Nat.mul_le_mul first second
    _ = m * 10 ^ n * oneUnits * (oneUnits * (2 ^ 53 + 1) ^ 2) := by ring
    _ ≤ limit * (oneUnits * (2 ^ 53 + 1) ^ 2) := Nat.mul_le_mul_right _ below
    _ = limit * (2 ^ 53 + 1) ^ 2 * oneUnits := by ring
    _ < overflow * 2 ^ 106 * oneUnits := Nat.mul_lt_mul_of_pos_right limit_mul_lt oneUnits_pos
    _ = overflow * oneUnits * 2 ^ 106 := by ring

/-- A numeral that is not above the limit stands for a finite double. -/
theorem exists_toBinary64?_of_le (filled : numeral.scaled.significand ≠ 0)
    (below : (numeral.scaled.significand : ℚ) * 10 ^ numeral.scaled.scale * oneUnits ≤ limit) :
    ∃ z, numeral.toBinary64? = some z ∧ z.isFinite = true := by
  refine exists_toBinary64? fun positive => ?_
  have finite := (units_ofRatio_word numeral.scaled_significand_lt).1
  generalize numeral.scaled.scale = scale at positive below ⊢
  obtain ⟨n, rfl⟩ := Int.eq_ofNat_of_zero_le positive
  have below : numeral.scaled.significand * 10 ^ n * oneUnits ≤ limit := by exact_mod_cast below
  have power : 10 ^ n * oneUnits ≤ limit := by
    rw [Nat.mul_assoc] at below
    exact (Nat.le_mul_of_pos_left _ (Nat.pos_of_ne_zero filled)).trans below
  exact exists_scaleUp? finite (Nat.le_of_lt_succ (lt_of_ten_pow_le_limit power))
    (units_mul_lt filled below)

/-- A numeral with a single digit before the point stands for a finite double if the number that it
spells is not above the limit. -/
theorem exists_toBinary64?_of_spelled {first : Nat} (one : numeral.whole = [first])
    (small : first < 10) (nonzero : first ≠ 0)
    (below : (decimalNumber (first :: numeral.fraction) : ℚ) *
      10 ^ (numeral.exponent - numeral.fraction.length) * oneUnits ≤ limit) :
    ∃ z, numeral.toBinary64? = some z ∧ z.isFinite = true := by
  have fits : (Scaled.mk 0 0).fits first = true :=
    decide_eq_true (show 0 * 10 + first < 2 ^ 64 by omega)
  have whole : (Scaled.mk 0 0).takeWhole numeral.whole = ⟨first, 0⟩ := by
    rw [one, Scaled.takeWhole, if_pos fits, Scaled.takeWhole, Nat.zero_mul, Nat.zero_add]
  have scaled : numeral.scaled =
      { (Scaled.mk first 0).takeFraction numeral.fraction with
        scale := ((Scaled.mk first 0).takeFraction numeral.fraction).scale + numeral.exponent } := by
    rw [Numeral.scaled, whole]
  have kept := Scaled.takeFraction_le ⟨first, 0⟩ numeral.fraction
  have spelled : decimalNumber (first :: numeral.fraction) =
      numeral.fraction.foldl (fun n d => n * 10 + d) first := by
    rw [decimalNumber, List.foldl_cons, Nat.zero_mul, Nat.zero_add]
  apply exists_toBinary64?_of_le
  · have least := Scaled.le_takeFraction_significand ⟨first, 0⟩ numeral.fraction
    rw [scaled]
    exact Nat.ne_of_gt (Nat.lt_of_lt_of_le (Nat.pos_of_ne_zero nonzero) least)
  · rw [scaled]
    refine le_trans (mul_le_mul_of_nonneg_right ?_ (Nat.cast_nonneg _)) below
    have shift (e : Int) : (10 : ℚ) ^ (e + numeral.exponent) = 10 ^ e * 10 ^ numeral.exponent :=
      zpow_add₀ (by norm_num) ..
    have length : numeral.exponent - numeral.fraction.length =
        (0 - (numeral.fraction.length : Int)) + numeral.exponent := by omega
    rw [length, shift, shift, ← mul_assoc, ← mul_assoc, spelled]
    exact mul_le_mul_of_nonneg_right kept (zpow_nonneg (by norm_num) _)

end Numeral

end Stratagem
