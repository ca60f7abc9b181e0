import Mathlib.Algebra.Order.Field.Basic
import Mathlib.Algebra.Order.Field.Rat
import Mathlib.Tactic.FieldSimp
import Mathlib.Tactic.Positivity
import Stratagem.Binary64.Shortest
import Stratagem.Proofs.Binary64.Rounding

/-!
# Seventeen digits suffice

The shortest decimal of a double is looked for on one grid after the other, each ten times finer
than the last. The reals that round to a double spread so far around it that the last grid has a
point among them, so the search never ends without one.

* `Binary64.step` is the distance of two points of a grid, and `Binary64.Hits` says that a point of
  it rounds to a double.
* `Binary64.interval_spread` is how far the reals that round to a double spread.
* `Binary64.exists_shortest` is the result of the search.
-/

namespace Stratagem.Binary64

/-! ## Grids -/

/-- The step of the grid `10 ^ scale * ℕ`, in quarters of a unit: what is to be divided. -/
def stepNum (scale : Int) : Nat := if 0 ≤ scale then 10 ^ scale.toNat <<< 1076 else 1 <<< 1076

/-- The step of the grid `10 ^ scale * ℕ`, in quarters of a unit: what it is to be divided by. -/
def stepDen (scale : Int) : Nat := if 0 ≤ scale then 1 else 10 ^ (-scale).toNat

/-- The step of the grid `10 ^ scale * ℕ`, in quarters of a unit. -/
def step (scale : Int) : ℚ := 10 ^ scale * (4 * oneUnits)

theorem shiftLeft_quarter (n : Nat) : n <<< 1076 = n * (4 * oneUnits) := by
  rw [Nat.shiftLeft_add n 1074 2, shiftLeft_unit, Nat.shiftLeft_eq]
  ring

theorem stepDen_pos (scale : Int) : 0 < stepDen scale := by
  unfold stepDen
  split
  · exact Nat.one_pos
  · exact Nat.pow_pos (by decide)

theorem stepNum_eq (scale : Int) : (stepNum scale : ℚ) = step scale * stepDen scale := by
  unfold stepNum stepDen step
  simp only [shiftLeft_quarter]
  split
  · next positive =>
    obtain ⟨n, rfl⟩ := Int.eq_ofNat_of_zero_le positive
    simp
  · next negative =>
    obtain ⟨n, rfl⟩ : ∃ n : ℕ, scale = -n := ⟨(-scale).toNat, by omega⟩
    simp only [Int.neg_neg, Int.toNat_natCast, one_mul, zpow_neg, zpow_natCast]
    push_cast
    field_simp

theorem step_add (scale : Int) (n : ℕ) : step (scale + n) = step scale * 10 ^ n := by
  unfold step
  rw [zpow_add₀ (by norm_num), zpow_natCast]
  ring

variable {i : Interval} {tie : Tie} {scale : Int} {n num den : Nat}

theorem contains_of_lt (above : i.low * den < num) (below : num < i.high * den) :
    i.contains num den = true := by
  unfold Interval.contains
  split <;> simp only [Bool.and_eq_true, decide_eq_true_eq] <;> omega

theorem le_of_contains (inside : i.contains num den = true) : num ≤ i.high * den := by
  unfold Interval.contains at inside
  split at inside <;> simp only [Bool.and_eq_true, decide_eq_true_eq] at inside <;> omega

/-- Whether a grid point is positive and lies in an interval. -/
def Hits (i : Interval) (scale : Int) (n : Nat) : Prop :=
  0 < n ∧ i.contains (n * stepNum scale) (stepDen scale) = true

/-- The grid point that does not lie above the value of an interval. -/
def gridBelow (i : Interval) (scale : Int) : Nat := i.value * stepDen scale / stepNum scale

theorem hits_iff :
    (decide (0 < n) && i.contains (n * stepNum scale) (stepDen scale)) = true ↔ Hits i scale n := by
  rw [Bool.and_eq_true, decide_eq_true_eq, Hits]

theorem Tie.pick_eq (tie : Tie) (below : Nat) :
    tie.pick below = below ∨ tie.pick below = below + 1 := by
  cases tie with
  | toEven =>
    show below + below % 2 = below ∨ below + below % 2 = below + 1
    omega
  | up => exact .inr rfl

/-- A grid point that is found is positive and lies in the interval. -/
theorem hits_of_onGrid? (found : i.onGrid? tie scale = some n) : Hits i scale n := by
  unfold Interval.onGrid? at found
  extract_lets up down below distance inside at found
  have hits {m : Nat} (met : inside m = true) : Hits i scale m := hits_iff.1 met
  split at found
  · next lower upper =>
    split at found
    · exact Option.some.inj found ▸ hits lower
    · split at found
      · exact Option.some.inj found ▸ hits upper
      · rw [← Option.some.inj found]
        rcases tie.pick_eq below with same | same <;> rw [same]
        · exact hits lower
        · exact hits upper
  · next lower _ => exact Option.some.inj found ▸ hits lower
  · next _ upper => exact Option.some.inj found ▸ hits upper
  · cases found

/-- If no grid point is found, the two next to the value do not lie in the interval. -/
theorem not_hits_of_onGrid? (lost : i.onGrid? tie scale = none) :
    ¬ Hits i scale (gridBelow i scale) ∧ ¬ Hits i scale (gridBelow i scale + 1) := by
  unfold Interval.onGrid? at lost
  extract_lets up down below distance inside at lost
  have misses {m : Nat} (met : inside m = false) : ¬ Hits i scale m := fun hits => by
    rw [show inside m = true from hits_iff.2 hits] at met
    cases met
  split at lost
  · split at lost
    · cases lost
    · split at lost <;> cases lost
  · cases lost
  · cases lost
  · next lower upper => exact ⟨misses lower, misses upper⟩

theorem stepNum_pos (scale : Int) : 0 < stepNum scale := by
  have unit := oneUnits_pos
  unfold stepNum
  simp only [shiftLeft_quarter]
  split
  · exact Nat.mul_pos (Nat.pow_pos (by decide)) (by omega)
  · omega

/-- A grid that is finer than an interval is wide has a point in it next to its value. -/
theorem exists_onGrid? (tie : Tie) (below : i.low < i.value) (above : i.value < i.high)
    (fine : stepNum scale + i.low * stepDen scale < i.high * stepDen scale) :
    ∃ n, i.onGrid? tie scale = some n := by
  rw [← Option.isSome_iff_exists, Option.isSome_iff_ne_none]
  intro lost
  obtain ⟨lower, upper⟩ := not_hits_of_onGrid? lost
  have under : gridBelow i scale * stepNum scale ≤ i.value * stepDen scale := Nat.div_mul_le_self ..
  have beyond : i.value * stepDen scale < (gridBelow i scale + 1) * stepNum scale :=
    (Nat.div_lt_iff_lt_mul (stepNum_pos scale)).1 (Nat.lt_succ_self _)
  have low := Nat.mul_lt_mul_of_pos_right below (stepDen_pos scale)
  have high := Nat.mul_lt_mul_of_pos_right above (stepDen_pos scale)
  by_cases near : i.low * stepDen scale < gridBelow i scale * stepNum scale
  · refine lower ⟨Nat.pos_of_ne_zero fun empty => ?_, contains_of_lt near (under.trans_lt high)⟩
    rw [empty, Nat.zero_mul] at near
    exact Nat.not_lt_zero _ near
  · refine upper ⟨Nat.succ_pos _, contains_of_lt (low.trans beyond) ?_⟩
    rw [Nat.add_mul, Nat.one_mul]
    omega

/-! ## The decimal exponent -/

theorem step_le_iff {value : Nat} : step scale ≤ value ↔ stepNum scale ≤ value * stepDen scale := by
  have positive : (0 : ℚ) < stepDen scale := Nat.cast_pos.2 (stepDen_pos scale)
  rw [← mul_le_mul_iff_of_pos_right positive, ← stepNum_eq]
  exact_mod_cast Iff.rfl

/-- The greatest power of ten that does not exceed a value does not exceed it. -/
theorem step_decimalExponent_le {value : Nat} (least : 4 ≤ value) (n : Nat) :
    step (decimalExponent value n) ≤ value := by
  induction n with
  | zero =>
    have smallest : stepNum (-324) ≤ 4 * stepDen (-324) := by decide +kernel
    exact step_le_iff.2 (smallest.trans (Nat.mul_le_mul_right _ least))
  | succ n ih =>
    unfold decimalExponent
    extract_lets e fits
    split
    · next fit =>
      refine step_le_iff.2 ?_
      unfold stepNum stepDen
      by_cases positive : 0 ≤ e
      · rw [if_pos positive, if_pos positive, Nat.mul_one]
        exact (if_pos positive).mp fit
      · rw [if_neg positive, if_neg positive]
        exact (if_neg positive).mp fit
    · exact ih

/-! ## The reals that round to a double -/

variable {x : Binary64}

/-- The distance from a double of the larger exponent to the end of the reals that round to it, in
halves. -/
def gap (x : Binary64) : Nat := 1 <<< (x.exponent - 1)

theorem gap_pos (x : Binary64) : 0 < x.gap := by
  rw [gap, Nat.shiftLeft_eq, Nat.one_mul]
  exact Nat.two_pow_pos _

theorem fraction_lt (x : Binary64) : x.fraction < 2 ^ 52 := Nat.mod_lt _ (by decide)

theorem units_of_exponent_ne_zero (normal : x.exponent ≠ 0) :
    x.units = (2 ^ 52 + x.fraction) * x.gap := by
  rw [units, if_neg normal, gap, Nat.shiftLeft_eq, Nat.shiftLeft_eq (a := 1), Nat.one_mul,
    Nat.shiftLeft_eq, Nat.one_mul]

theorem units_lt (x : Binary64) : x.units < 2 ^ 53 * x.gap := by
  have fraction := x.fraction_lt
  by_cases normal : x.exponent = 0
  · have one : x.gap = 1 := by
      rw [gap, normal]
      rfl
    rw [units, if_pos normal, one]
    omega
  · rw [units_of_exponent_ne_zero normal]
    exact Nat.mul_lt_mul_of_pos_right (by omega) x.gap_pos

/-- The reals that round to a double spread around it by more than one part in `10 ^ 16`. -/
theorem interval_spread (filled : x.units ≠ 0) :
    x.interval.low < x.interval.value ∧ x.interval.value < x.interval.high ∧
      x.interval.value + 10 ^ 16 * x.interval.low < 10 ^ 16 * x.interval.high := by
  have large := x.units_lt
  have positive := x.gap_pos
  have low : x.interval.low = 4 * x.units -
      (if x.fraction = 0 ∧ 1 < x.exponent then x.gap else 2 * x.gap) := rfl
  have high : x.interval.high = 4 * x.units + 2 * x.gap := rfl
  have value : x.interval.value = 4 * x.units := rfl
  rw [low, high, value]
  -- The double below a power of two is only half as far away as the one above it.
  split
  · next power =>
    rw [units_of_exponent_ne_zero (by omega), power.1]
    omega
  · have least : x.gap ≤ x.units := by
      by_cases normal : x.exponent ≤ 1
      · have one : x.gap = 1 := by
          rw [gap, Nat.sub_eq_zero_of_le normal]
          rfl
        omega
      · rw [units_of_exponent_ne_zero (by omega)]
        exact Nat.le_mul_of_pos_left _ (by omega)
    omega

/-! ## The first hit -/

/-- The search ends with a point of some grid if the last grid has one. -/
theorem exists_firstHit {exponent : Int} {count remaining : Nat}
    (last : ∃ n, i.onGrid? tie (exponent + 1 - (count + remaining : Nat)) = some n) :
    ∃ n scale, i.firstHit tie exponent count (remaining + 1) = Digits.ofScaled n scale ∧
      Hits i scale n := by
  -- Only the last grid is known to have a point; a search that ends before has found another.
  induction remaining generalizing count with
  | zero =>
    obtain ⟨n, found⟩ := last
    rw [Nat.add_zero] at found
    refine ⟨n, exponent + 1 - count, ?_, hits_of_onGrid? found⟩
    simp only [Interval.firstHit, found]
  | succ remaining ih =>
    cases here : i.onGrid? tie (exponent + 1 - count) with
    | some n =>
      refine ⟨n, _, ?_, hits_of_onGrid? here⟩
      simp only [Interval.firstHit, here]
    | none =>
      have later : ∃ n, i.onGrid? tie (exponent + 1 - (count + 1 + remaining : Nat)) = some n := by
        rwa [Nat.add_right_comm]
      simpa only [Interval.firstHit, here] using ih later

/-- The shortest decimal of a double other than zero is a grid point that rounds to it: seventeen
digits suffice. -/
theorem exists_shortest (tie : Tie) (filled : x.units ≠ 0) :
    ∃ n scale, x.shortest tie = Digits.ofScaled n scale ∧ Hits x.interval scale n := by
  obtain ⟨below, above, spread⟩ := interval_spread filled
  refine exists_firstHit (exists_onGrid? tie below above ?_)
  have least : 4 ≤ x.interval.value := by
    show 4 ≤ 4 * x.units
    omega
  have under := step_decimalExponent_le least 632
  -- Sixteen places behind its first digit, the steps are smaller than the spread of the double.
  set e := decimalExponent x.interval.value 632
  have finer : step e = step (e + 1 - (1 + 16 : Nat)) * 10 ^ 16 := by
    rw [← step_add]
    congr 1
    omega
  generalize e + 1 - (1 + 16 : Nat) = scale at finer
  have positive : (0 : ℚ) < stepDen scale := Nat.cast_pos.2 (stepDen_pos _)
  have wide : (x.interval.value : ℚ) + 10 ^ 16 * x.interval.low < 10 ^ 16 * x.interval.high := by
    exact_mod_cast spread
  have fits : step scale + x.interval.low < x.interval.high := by linarith only [under, finer, wide]
  rw [← Nat.cast_lt (α := ℚ)]
  push_cast
  rw [stepNum_eq, ← add_mul]
  exact mul_lt_mul_of_pos_right fits positive

end Stratagem.Binary64
