import Mathlib.Algebra.Group.Nat.Defs
import Stratagem.Total
import Stratagem.Uuid

/-!
# The text of an identifier

An identifier is read back from its written form.

* `Uuid.hexNumber?_hexDigits`: hexadecimal digits spell the number that they were made of.
* `Uuid.ungroup?_group`: grouping a run of digits loses none of them.
* `Id.ofString?_toString` is the result for identifiers of every kind.
-/

namespace Stratagem.Uuid

/-! ## Digits -/

theorem hexValue?_digitChar : ∀ d < 16, hexValue? (Nat.digitChar d) = some d := by decide

theorem length_hexDigits (width n : Nat) : (hexDigits width n).length = width := by
  induction width generalizing n with
  | zero => rfl
  | succ width ih => rw [hexDigits, List.length_append, ih, List.length_singleton]

theorem hexNumber?_hexDigits {width n : Nat} (fits : n < 16 ^ width) :
    hexNumber? (hexDigits width n) = some n := by
  induction width generalizing n with
  | zero =>
    obtain rfl : n = 0 := by simpa using fits
    rfl
  | succ width ih =>
    have fewer : n / 16 < 16 ^ width := by
      rw [Nat.div_lt_iff_lt_mul (by decide), ← Nat.pow_succ]
      exact fits
    have before : hexNumber? (hexDigits width (n / 16)) = some (n / 16) := ih fewer
    have last : hexValue? (Nat.digitChar (n % 16)) = some (n % 16) :=
      hexValue?_digitChar _ (Nat.mod_lt _ (by decide))
    have whole : n / 16 * 16 + n % 16 = n := Nat.div_add_mod' n 16
    unfold hexNumber? at before ⊢
    rw [hexDigits, List.foldlM_append, before]
    simp [last, whole]

/-! ## Groups -/

/-- Cutting a run of digits into groups and joining them again changes nothing. -/
theorem ungroup?_group {sizes : List Nat} {digits : List Char}
    (all : digits.length = total (fun n => n) sizes) :
    ungroup? sizes (group sizes digits) = some digits := by
  induction sizes generalizing digits with
  | nil =>
    obtain rfl : digits = [] := List.eq_nil_of_length_eq_zero all
    rfl
  | cons n sizes ih =>
    cases sizes with
    | nil =>
      have all : digits.length = n := all
      simp only [group, ungroup?, all, if_true]
    | cons m sizes =>
      rw [total_cons] at all
      have whole : (digits.take n).length = n := by
        rw [List.length_take]
        omega
      have rest : ungroup? (m :: sizes) (group (m :: sizes) (digits.drop n)) =
          some (digits.drop n) := by
        refine ih ?_
        rw [List.length_drop]
        omega
      have taken : (digits.take n ++ '-' :: group (m :: sizes) (digits.drop n)).take n =
          digits.take n := List.take_left' whole
      have dropped : (digits.take n ++ '-' :: group (m :: sizes) (digits.drop n)).drop n =
          '-' :: group (m :: sizes) (digits.drop n) := List.drop_left' whole
      simp only [group, ungroup?, taken, dropped, rest, Option.map_some, List.take_append_drop]

/-! ## The written form -/

theorem ofString?_toString (id : Uuid) : ofString? (toString id) = some id := by
  have digits : (hexDigits 32 id.bits.toNat).length = total (fun n => n) groupSizes := length_hexDigits 32 _
  have written : (toString id).toList = group groupSizes (hexDigits 32 id.bits.toNat) :=
    String.toList_ofList
  have long : (group groupSizes (hexDigits 32 id.bits.toNat)).length = 36 := by
    simp [groupSizes, group, length_hexDigits]
  have number : hexNumber? (hexDigits 32 id.bits.toNat) = some id.bits.toNat :=
    hexNumber?_hexDigits id.bits.isLt
  unfold ofString? digits?
  rw [written, long]
  simp [ungroup?_group digits, number]

end Uuid

/-- An identifier is read back from its text. -/
theorem Id.ofString?_toString {kind : IdKind} (id : Id kind) :
    Id.ofString? (toString id) = some id := by
  unfold Id.ofString?
  show (Uuid.ofString? (Uuid.toString id.uuid)).map Id.mk = some id
  rw [Uuid.ofString?_toString]
  rfl

end Stratagem
