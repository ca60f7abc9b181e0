import Mathlib.Algebra.Order.Field.Basic
import Mathlib.Data.List.TakeWhile
import Stratagem.Proofs.Binary64.Scaling
import Stratagem.Proofs.Binary64.Shortest
import Stratagem.Proofs.Json.Numeral

/-!
# Reading back the text of a double

The text of a finite double is the shortest decimal that rounds to it, in positional notation if it
is neither too large nor too small, and in exponent notation otherwise. It is read as a finite
double, which need not be the same one.

* `Binary64.value_shortest_le`: the shortest decimal does not lie above the reals that round to the
  double.
* `Binary64.high_le_limit`: for all but the two largest doubles these reals are far enough from the
  overflow; `Binary64.shortest_of_largest` has the digits of these two.
* `Binary64.readFinite_documentText` is the result.
-/

namespace Stratagem

/-! ## Digits without trailing zeros -/

theorem decimalNumber_append_zeros (digits : List Nat) (n : Nat) :
    decimalNumber (digits ++ List.replicate n 0) = decimalNumber digits * 10 ^ n := by
  induction n with
  | zero => simp
  | succ n ih =>
    rw [List.replicate_succ', ← List.append_assoc]
    unfold decimalNumber at ih ⊢
    rw [List.foldl_append, ih, List.foldl_cons, List.foldl_nil, Nat.pow_succ]
    ring

namespace Digits

/-- The number that a decimal stands for. -/
def value (d : Digits) : ℚ := decimalNumber d.digits * 10 ^ (d.point - d.digits.length)

theorem ofNat_eq {n : Nat} {digits : List Nat} (same : Nat.toDigits 10 n = digits.map Nat.digitChar)
    (small : ∀ d ∈ digits, d < 10) : ofNat n = digits := by
  have digit : ∀ d < 10, (Nat.digitChar d).toNat - '0'.toNat = d := by decide
  rw [ofNat, same, List.map_map]
  exact (List.map_congr_left fun d hd => digit d (small d hd)).trans (List.map_id _)

/-- A list is what is left without its trailing zeros, and these zeros. -/
theorem exists_trailing_zeros (digits : List Nat) :
    ∃ n, digits = (digits.reverse.dropWhile (· == 0)).reverse ++ List.replicate n 0 := by
  refine ⟨(digits.reverse.takeWhile (· == 0)).length, ?_⟩
  have zeros : digits.reverse.takeWhile (· == 0) =
      List.replicate (digits.reverse.takeWhile (· == 0)).length 0 :=
    List.eq_replicate_of_mem fun d hd => by simpa using List.mem_takeWhile_imp hd
  rw [← List.reverse_inj, List.reverse_append, List.reverse_reverse, List.reverse_replicate, ← zeros,
    List.takeWhile_append_dropWhile]

/-- Trimming the digits of a scaled number leaves the number as it is. -/
theorem value_ofScaled {n zeros : Nat} {scale : Int} {digits kept : List Nat}
    (number : decimalNumber digits = n) (parts : digits = kept ++ List.replicate zeros 0) :
    value ⟨kept, digits.length + scale⟩ = n * 10 ^ scale := by
  have point : (digits.length : Int) + scale - kept.length = zeros + scale := by
    rw [parts, List.length_append, List.length_replicate]
    omega
  rw [value, point, zpow_add₀ (by norm_num), zpow_natCast, ← number, parts,
    decimalNumber_append_zeros]
  push_cast
  ring

/-- The digits of a scaled number do not begin with a zero. -/
theorem proper_ofScaled {n : Nat} (filled : n ≠ 0) (scale : Int) :
    (ofScaled n scale).Proper ∧ (ofScaled n scale).value = n * 10 ^ scale := by
  obtain ⟨digits, same, small, number, allowed⟩ := exists_decimalDigits n
  obtain ⟨zeros, parts⟩ := exists_trailing_zeros digits
  have scaled : ofScaled n scale =
      ⟨(digits.reverse.dropWhile (· == 0)).reverse, digits.length + scale⟩ := by
    rw [ofScaled, ofNat_eq same small]
  rw [scaled]
  generalize (digits.reverse.dropWhile (· == 0)).reverse = kept at parts
  refine ⟨⟨fun d hd => small d (parts ▸ List.mem_append_left _ hd), ?_⟩,
    value_ofScaled number parts⟩
  obtain ⟨first, rest, begins, nonzero⟩ : ∃ first rest, digits = first :: rest ∧ first ≠ 0 := by
    match digits, number, allowed with
    | [d], number, _ => exact ⟨d, [], rfl, by rintro rfl; exact filled number.symm⟩
    | d :: e :: more, _, allowed => exact ⟨d, e :: more, rfl, of_decide_eq_true allowed⟩
  rw [begins] at parts
  cases kept with
  | nil =>
    have zero : first ∈ List.replicate zeros 0 := by
      rw [← List.nil_append (List.replicate zeros 0), ← parts]
      exact List.mem_cons_self
    exact absurd (List.eq_of_mem_replicate zero) nonzero
  | cons d kept =>
    obtain ⟨rfl, -⟩ := List.cons.inj parts
    exact ⟨first, kept, rfl, nonzero⟩

end Digits

namespace Binary64

variable {x : Binary64}

/-- The shortest digits of a double do not begin with a zero, and the number that they stand for is
not above the reals that round to it. -/
theorem value_shortest_le (tie : Tie) (filled : x.units ≠ 0) :
    (x.shortest tie).Proper ∧
      (x.shortest tie).value * (4 * oneUnits) ≤ 4 * x.units + 2 * x.gap := by
  obtain ⟨n, scale, found, positive, inside⟩ := exists_shortest tie filled
  obtain ⟨proper, value⟩ := Digits.proper_ofScaled positive.ne' scale
  rw [found]
  refine ⟨proper, ?_⟩
  have high : x.interval.high = 4 * x.units + 2 * x.gap := rfl
  have below := le_of_contains inside
  rw [high, ← Nat.cast_le (α := ℚ)] at below
  push_cast at below
  rw [stepNum_eq, ← mul_assoc] at below
  have bound := le_of_mul_le_mul_right below (Nat.cast_pos.2 (stepDen_pos scale))
  rw [value, mul_assoc]
  exact bound

/-! ## The largest doubles -/

theorem exponent_le (finite : x.isFinite = true) : x.exponent ≤ 2046 := by
  have word : x.exponent < 2048 := Nat.mod_lt _ (by decide)
  have proper : x.exponent ≠ 2047 := of_decide_eq_true finite
  omega

theorem gap_eq (x : Binary64) : x.gap = 2 ^ (x.exponent - 1) := by
  rw [gap, Nat.shiftLeft_eq, Nat.one_mul]

/-- The reals that round to a double do not exceed the limit, the two largest doubles apart. -/
theorem high_le_limit (finite : x.isFinite = true)
    (smaller : x.exponent = 2046 → x.fraction + 3 ≤ 2 ^ 52) :
    4 * x.units + 2 * x.gap ≤ 4 * Numeral.limit := by
  obtain ⟨k, limit, places⟩ := Numeral.exists_limit_eq
  have most := exponent_le finite
  have large := x.units_lt
  rw [limit]
  by_cases top : x.exponent = 2046
  · have gap : x.gap = 2 * 2 ^ k := by
      rw [gap_eq, top, ← Nat.pow_succ', places]
    have units : x.units ≤ (2 ^ 53 - 3) * x.gap := by
      rw [units_of_exponent_ne_zero (by omega)]
      have := smaller top
      exact Nat.mul_le_mul_right _ (by omega)
    omega
  · have gap : x.gap ≤ 2 ^ k := by
      rw [gap_eq]
      exact Nat.pow_le_pow_right (by decide) (by omega)
    omega

theorem interval_congr {y : Binary64} (exponent : x.exponent = y.exponent)
    (fraction : x.fraction = y.fraction) : x.interval = y.interval := by
  unfold interval units
  rw [exponent, fraction]

/-- The two largest doubles have seventeen digits each. -/
theorem shortest_of_largest (top : x.exponent = 2046) (larger : 2 ^ 52 < x.fraction + 3) :
    x.shortest .toEven = ⟨[1, 7, 9, 7, 6, 9, 3, 1, 3, 4, 8, 6, 2, 3, 1, 5, 7], 309⟩ ∨
      x.shortest .toEven = ⟨[1, 7, 9, 7, 6, 9, 3, 1, 3, 4, 8, 6, 2, 3, 1, 5, 5], 309⟩ := by
  have below := x.fraction_lt
  have choice : x.fraction = 2 ^ 52 - 1 ∨ x.fraction = 2 ^ 52 - 2 := by omega
  unfold shortest
  rcases choice with last | last
  · rw [interval_congr (y := ⟨0x7FEFFFFFFFFFFFFF⟩) (top.trans (by decide)) (last.trans (by decide))]
    exact .inl (by decide +kernel)
  · rw [interval_congr (y := ⟨0x7FEFFFFFFFFFFFFE⟩) (top.trans (by decide)) (last.trans (by decide))]
    exact .inr (by decide +kernel)

/-! ## The text of a double -/

open Numeral

/-- Whether a text is one word that is read as a finite double. -/
def ReadFinite (text : List Char) : Prop :=
  ∃ n : Numeral, n.Spells text ∧ ∃ z, n.toBinary64? = some z ∧ z.isFinite = true

/-- The two largest doubles are read as finite ones. -/
theorem exists_toBinary64?_of_largest (negative : Bool) (last : Nat) (choice : last = 7 ∨ last = 5) :
    ∃ z, (Numeral.mk negative [1] [7, 9, 7, 6, 9, 3, 1, 3, 4, 8, 6, 2, 3, 1, 5, last] 308).toBinary64?
      = some z ∧ z.isFinite = true := by
  have some_of_any {z? : Option Binary64} (any : z?.any isFinite = true) :
      ∃ z, z? = some z ∧ z.isFinite = true := by
    obtain ⟨z, made, finite⟩ := (Option.any_eq_true _ _).1 any
    exact ⟨z, made, finite⟩
  rcases choice with rfl | rfl <;> cases negative <;> exact some_of_any (by decide +kernel)

/-- Large doubles are written in exponent notation, and do not exceed the doubles when read. -/
theorem exists_toBinary64?_of_shortest {first : Nat} {rest : List Nat} (negative : Bool)
    (finite : x.isFinite = true) (filled : x.units ≠ 0)
    (same : (x.shortest .toEven).digits = first :: rest) :
    ∃ z, (Numeral.mk negative [first] rest ((x.shortest .toEven).point - 1)).toBinary64? = some z ∧
      z.isFinite = true := by
  -- The two largest doubles come too close to the overflow for any bound, so they are read.
  by_cases largest : x.exponent = 2046 ∧ 2 ^ 52 < x.fraction + 3
  · rcases shortest_of_largest largest.1 largest.2 with shortest | shortest <;>
      rw [shortest] at same ⊢ <;> cases same
    · exact exists_toBinary64?_of_largest negative 7 (.inl rfl)
    · exact exists_toBinary64?_of_largest negative 5 (.inr rfl)
  · obtain ⟨proper, bound⟩ := value_shortest_le .toEven filled
    have limited := high_le_limit finite fun top => Nat.le_of_not_lt fun larger =>
      largest ⟨top, larger⟩
    have small : first < 10 := proper.small first (same ▸ List.mem_cons_self)
    obtain ⟨first', rest', same', nonzero⟩ := proper.leading
    obtain ⟨rfl, rfl⟩ := List.cons.inj (same.symm.trans same')
    refine exists_toBinary64?_of_spelled rfl small nonzero ?_
    have length : (x.shortest .toEven).point - 1 - rest.length =
        (x.shortest .toEven).point - (first :: rest).length := by
      rw [List.length_cons]
      omega
    rw [Digits.value, same] at bound
    rw [← Nat.cast_le (α := ℚ)] at limited
    push_cast at limited
    show (decimalNumber (first :: rest) : ℚ) *
      10 ^ ((x.shortest .toEven).point - 1 - rest.length) * oneUnits ≤ limit
    rw [length]
    linarith only [bound, limited]

theorem isZero_of_units_eq_zero (empty : x.units = 0) : x.isZero = true := by
  by_cases normal : x.exponent = 0
  · rw [units, if_pos normal] at empty
    simp [isZero, normal, empty]
  · have least : x.gap ≤ x.units := by
      rw [units_of_exponent_ne_zero normal]
      exact Nat.le_mul_of_pos_left _ (by omega)
    have positive := x.gap_pos
    omega

/-- Digits in positional notation are read as a finite double. -/
theorem readFinite_positional {d : Digits} (negative : Bool) (proper : d.Proper)
    (few : d.point ≤ 16) : ReadFinite (signChars negative ++ d.positional.toList) := by
  by_cases low : d.point ≤ 0
  · exact ⟨_, Digits.spells_positional_low negative proper low,
      exists_toBinary64?_of_short (by simp) (by simp) (Int.le_refl 0)⟩
  · obtain ⟨n, high⟩ : ∃ n : Nat, d.point = (n + 1 : Nat) := ⟨d.point.toNat - 1, by omega⟩
    obtain ⟨small, spells⟩ := Digits.spells_positional_high negative proper high
    refine ⟨_, spells, exists_toBinary64?_of_short small ?_ (Int.le_refl 0)⟩
    rw [List.length_append, List.length_take, List.length_replicate]
    omega

/-- The text of a finite double is one word, and is read as a finite double. -/
theorem readFinite_documentText (finite : x.isFinite = true) :
    ReadFinite x.documentText.toList := by
  have sign : (if x.isNegative then "-" else "").toList = signChars x.isNegative := by
    cases x.isNegative <;> rfl
  rw [documentText, if_pos finite, Style.text, String.toList_append, sign]
  split
  · have small : ∀ d ∈ [0], d < 10 := by simp
    have spells := spells_fraction x.isNegative small rfl small nofun
      (show ∀ c ∈ [], _ from nofun) rfl rfl
    exact ⟨_, spells, exists_toBinary64?_of_short (by simp) (by simp) (Int.le_refl 0)⟩
  · next nonzero =>
    have filled : x.units ≠ 0 := fun empty => nonzero (isZero_of_units_eq_zero empty)
    obtain ⟨proper, -⟩ := value_shortest_le .toEven filled
    unfold Style.digitsText
    split
    · next middle =>
      have few : (x.shortest .toEven).point ≤ 16 :=
        of_decide_eq_true ((Bool.and_eq_true_iff.1 middle).2)
      exact readFinite_positional x.isNegative proper few
    · next outer =>
      obtain ⟨first, rest, same, nonzero⟩ := proper.leading
      exact ⟨_, Digits.spells_exponential x.isNegative proper same,
        exists_toBinary64?_of_shortest x.isNegative finite filled same⟩

end Binary64

end Stratagem
