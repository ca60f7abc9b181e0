import Stratagem.Proofs.Json.Scalar

/-!
# Numerals with a fraction or an exponent

A number is written in digits as a whole part with a fraction, or in exponent notation, and either
is one word that is read as a numeral.

* `Numeral.Spells` tells which numeral a text spells.
* `Numeral.spells_fraction` and `Numeral.spells_exponent` give the texts of the two notations.
* `Digits.Proper` tells which digits can be written, and `Digits.exists_spells` what they are read
  as.
-/

namespace Stratagem

/-! ## Digits before other characters -/

theorem spanDigits_append {digits : List Nat} {rest : List Char} (small : ∀ d ∈ digits, d < 10)
    (stop : spanDigits rest = ([], rest)) :
    spanDigits (digits.map Nat.digitChar ++ rest) = (digits, rest) := by
  induction digits with
  | nil => exact stop
  | cons d digits ih =>
    have first := decimalDigit?_digitChar d (small d List.mem_cons_self)
    have later := ih fun x hx => small x (List.mem_cons_of_mem _ hx)
    simp only [List.map_cons, List.cons_append, spanDigits, first, later]

theorem isWordChar_digitChar : ∀ d < 10, Json.isWordChar (Nat.digitChar d) = true := by decide

theorem isWordChar_of_mem_digits {digits : List Nat} (small : ∀ d ∈ digits, d < 10) :
    ∀ c ∈ digits.map Nat.digitChar, Json.isWordChar c = true := by
  intro c hc
  obtain ⟨d, hd, rfl⟩ := List.mem_map.1 hc
  exact isWordChar_digitChar d (small d hd)

namespace Numeral

/-! ## The sign -/

/-- The sign of a numeral as it is written. -/
def signChars (negative : Bool) : List Char := if negative then ['-'] else []

/-- The first digit of a number is no sign. -/
theorem digitChar_ne_minus : ∀ d < 10, Nat.digitChar d ≠ '-' := by decide

/-- A number with a fraction is read as such. -/
theorem ofWord?_fraction {whole fraction : List Nat} {tail : List Char} {exponent : Option Int}
    (negative : Bool) (small : ∀ d ∈ whole, d < 10) (allowed : wholeAllowed whole = true)
    (small' : ∀ d ∈ fraction, d < 10) (filled : fraction ≠ [])
    (stop : spanDigits tail = ([], tail)) (scale : exponent? tail = some exponent) :
    ofWord? (signChars negative ++ (whole.map Nat.digitChar ++
        '.' :: (fraction.map Nat.digitChar ++ tail))) =
      some (toScalar negative whole (some fraction) exponent) := by
  have point : spanDigits ('.' :: (fraction.map Nat.digitChar ++ tail)) =
      ([], '.' :: (fraction.map Nat.digitChar ++ tail)) := rfl
  have spanned := spanDigits_append small point
  have spanned' := spanDigits_append small' stop
  generalize fraction.map Nat.digitChar ++ tail = more at spanned spanned' ⊢
  obtain ⟨f, fraction, rfl⟩ := List.exists_cons_of_ne_nil filled
  match whole, allowed with
  | d :: others, allowed =>
    have first := digitChar_ne_minus d (small d List.mem_cons_self)
    rw [List.map_cons, List.cons_append] at spanned
    cases negative <;> simp [signChars, ofWord?, first, spanned, spanned', allowed, scale]

/-- A whole number with an exponent is read as such. -/
theorem ofWord?_exponent {whole : List Nat} {more : List Char} {exponent : Option Int}
    (negative : Bool) (small : ∀ d ∈ whole, d < 10) (allowed : wholeAllowed whole = true)
    (scale : exponent? ('e' :: more) = some exponent) :
    ofWord? (signChars negative ++ (whole.map Nat.digitChar ++ 'e' :: more)) =
      some (toScalar negative whole none exponent) := by
  have mark : spanDigits ('e' :: more) = ([], 'e' :: more) := rfl
  have spanned := spanDigits_append small mark
  match whole, allowed with
  | d :: others, allowed =>
    have first := digitChar_ne_minus d (small d List.mem_cons_self)
    rw [List.map_cons, List.cons_append] at spanned
    cases negative <;> simp [signChars, ofWord?, first, spanned, allowed, scale]

/-! ## Exponents -/

theorem toList_toString_natCast (n : Nat) :
    (toString (n : Int)).toList = Nat.toDigits 10 n := by
  show (Nat.repr n).toList = _
  rw [Nat.repr_eq_ofList_toDigits, String.toList_ofList]

theorem toList_toString_negSucc (n : Nat) :
    (toString (Int.negSucc n)).toList = '-' :: Nat.toDigits 10 (n + 1) := by
  show ("-" ++ Nat.repr (n + 1)).toList = _
  simp only [Nat.repr_eq_ofList_toDigits, String.toList_append, String.toList_ofList]
  rfl

theorem exists_spanDigits_toDigits (n : Nat) :
    ∃ d digits, spanDigits (Nat.toDigits 10 n) = (d :: digits, []) ∧
      decimalNumber (d :: digits) = n := by
  obtain ⟨digits, same, small, number, allowed⟩ := exists_decimalDigits n
  match digits, allowed with
  | d :: digits, _ => exact ⟨d, digits, same ▸ spanDigits_map_digitChar small, number⟩

theorem exponent?_plus (n : Nat) :
    exponent? ('e' :: '+' :: Nat.toDigits 10 n) = some (some (n : Int)) := by
  obtain ⟨d, digits, spanned, number⟩ := exists_spanDigits_toDigits n
  simp [exponent?, spanned, number]

theorem exponent?_minus (n : Nat) :
    exponent? ('e' :: '-' :: Nat.toDigits 10 n) = some (some (-n : Int)) := by
  obtain ⟨d, digits, spanned, number⟩ := exists_spanDigits_toDigits n
  simp [exponent?, spanned, number]

/-! ## What a text spells -/

/-- The scalar that a numeral stands for if it is not read as an integer. -/
def toDouble (n : Numeral) : Json.Scalar := (n.toBinary64?.map .float).getD (.unreadable false)

/-- Whether a text is one word that is read as a numeral, and not as an integer. -/
structure Spells (n : Numeral) (text : List Char) : Prop where
  word : ∀ c ∈ text, Json.isWordChar c = true
  read : ofWord? text = some n.toDouble

theorem isWordChar_of_mem_signChars {negative : Bool} :
    ∀ c ∈ signChars negative, Json.isWordChar c = true := by
  cases negative <;> simp [signChars, Json.isWordChar]

/-- Fraction notation, with an exponent or without. -/
theorem spells_fraction {whole fraction : List Nat} {tail : List Char} {exponent : Option Int}
    (negative : Bool) (small : ∀ d ∈ whole, d < 10) (allowed : wholeAllowed whole = true)
    (small' : ∀ d ∈ fraction, d < 10) (filled : fraction ≠ [])
    (word : ∀ c ∈ tail, Json.isWordChar c = true) (stop : spanDigits tail = ([], tail))
    (scale : exponent? tail = some exponent) :
    Spells ⟨negative, whole, fraction, exponent.getD 0⟩ (signChars negative ++
      (whole.map Nat.digitChar ++ '.' :: (fraction.map Nat.digitChar ++ tail))) where
  word := by
    simp only [List.forall_mem_append, List.forall_mem_cons]
    exact ⟨isWordChar_of_mem_signChars, isWordChar_of_mem_digits small, rfl,
      isWordChar_of_mem_digits small', word⟩
  read := ofWord?_fraction negative small allowed small' filled stop scale

/-- Exponent notation without a fraction. -/
theorem spells_exponent {whole : List Nat} {more : List Char} {exponent : Int} (negative : Bool)
    (small : ∀ d ∈ whole, d < 10) (allowed : wholeAllowed whole = true)
    (word : ∀ c ∈ more, Json.isWordChar c = true)
    (scale : exponent? ('e' :: more) = some (some exponent)) :
    Spells ⟨negative, whole, [], exponent⟩
      (signChars negative ++ (whole.map Nat.digitChar ++ 'e' :: more)) where
  word := by
    simp only [List.forall_mem_append, List.forall_mem_cons]
    exact ⟨isWordChar_of_mem_signChars, isWordChar_of_mem_digits small, rfl, word⟩
  read := ofWord?_exponent negative small allowed scale

end Numeral

/-! ## Digits in the two notations -/

namespace Digits

open Numeral

/-- Decimal digits of which the first is not zero. -/
structure Proper (d : Digits) : Prop where
  small : ∀ x ∈ d.digits, x < 10
  leading : ∃ first rest, d.digits = first :: rest ∧ first ≠ 0

variable {d : Digits}

/-- The exponent of exponent notation is read back. -/
theorem exists_exponent (point : Int) :
    ∃ more, ((if true && 0 < point then "e+" else "e") ++ toString (point - 1)).toList = 'e' :: more ∧
      (∀ c ∈ more, Json.isWordChar c = true) ∧
      exponent? ('e' :: more) = some (some (point - 1)) := by
  by_cases positive : 0 < point
  · obtain ⟨n, same⟩ : ∃ n : Nat, point - 1 = n := ⟨(point - 1).toNat, by omega⟩
    refine ⟨'+' :: Nat.toDigits 10 n, ?_,
      List.forall_mem_cons.2 ⟨rfl, fun c hc => Json.isWordChar_of_mem_toDigits hc⟩, ?_⟩
    · rw [same, String.toList_append, toList_toString_natCast]
      simp [positive]
    · rw [same, exponent?_plus]
  · obtain ⟨n, same⟩ : ∃ n : Nat, point - 1 = Int.negSucc n := ⟨(-point).toNat, by omega⟩
    refine ⟨'-' :: Nat.toDigits 10 (n + 1), ?_,
      List.forall_mem_cons.2 ⟨rfl, fun c hc => Json.isWordChar_of_mem_toDigits hc⟩, ?_⟩
    · rw [same, String.toList_append, toList_toString_negSucc]
      simp [positive]
    · rw [same, exponent?_minus]
      rfl

/-- What digits in exponent notation spell. -/
theorem spells_exponential {first : Nat} {rest : List Nat} (negative : Bool) (proper : d.Proper)
    (same : d.digits = first :: rest) :
    Spells ⟨negative, [first], rest, d.point - 1⟩
      (signChars negative ++ (d.exponential true).toList) := by
  have small := proper.small
  rw [same, List.forall_mem_cons] at small
  obtain ⟨more, text, word, scale⟩ := exists_exponent d.point
  unfold exponential
  dsimp only
  rw [chars, same]
  cases rest with
  | nil =>
    simp only [List.map_cons, List.map_nil, String.toList_append, String.toList_ofList, text]
    exact spells_exponent negative (by simpa using small.1) rfl word scale
  | cons second rest =>
    simp only [List.map_cons, String.toList_append, String.toList_ofList, text]
    exact spells_fraction negative (by simpa using small.1) rfl small.2 nofun
      (List.forall_mem_cons.2 ⟨rfl, word⟩) rfl scale

theorem wholeAllowed_cons {first : Nat} (nonzero : first ≠ 0) (rest : List Nat) :
    wholeAllowed (first :: rest) = true := by
  cases rest with
  | nil => rfl
  | cons _ _ => simpa [wholeAllowed] using nonzero

theorem small_append_zeros {digits : List Nat} (small : ∀ x ∈ digits, x < 10) (n : Nat) :
    (∀ x ∈ digits ++ List.replicate n 0, x < 10) ∧ ∀ x ∈ List.replicate n 0 ++ digits, x < 10 := by
  have zeros : ∀ x ∈ List.replicate n 0, x < 10 := by
    intro x hx
    rw [(List.mem_replicate.1 hx).2]
    decide
  exact ⟨List.forall_mem_append.2 ⟨small, zeros⟩, List.forall_mem_append.2 ⟨zeros, small⟩⟩

/-- What digits spell that all stand behind the point. -/
theorem spells_positional_low (negative : Bool) (proper : d.Proper) (low : d.point ≤ 0) :
    Spells ⟨negative, [0], List.replicate (-d.point).toNat 0 ++ d.digits, 0⟩
      (signChars negative ++ d.positional.toList) := by
  obtain ⟨first, rest, same, -⟩ := proper.leading
  have zero : Nat.digitChar 0 = '0' := rfl
  have small := (small_append_zeros proper.small (-d.point).toNat).2
  have spells := spells_fraction negative (show ∀ x ∈ [0], x < 10 by simp) rfl small
    (by simp [same]) (show ∀ c ∈ [], _ from nofun) rfl rfl
  unfold positional
  dsimp only
  rw [if_pos low]
  simpa [chars, zero] using spells

/-- The digits that stand behind the point if others stand before it; a single zero if none do. -/
def behindPoint (d : Digits) (n : Nat) : List Nat :=
  if d.digits.length ≤ n then [0] else d.digits.drop n

/-- What digits spell that do not all stand behind the point. -/
theorem spells_positional_high {n : Nat} (negative : Bool) (proper : d.Proper)
    (high : d.point = (n + 1 : Nat)) :
    (∀ x ∈ d.digits.take (n + 1) ++ List.replicate (n + 1 - d.digits.length) 0, x < 10) ∧
      Spells ⟨negative, d.digits.take (n + 1) ++ List.replicate (n + 1 - d.digits.length) 0,
        d.behindPoint (n + 1), 0⟩ (signChars negative ++ d.positional.toList) := by
  obtain ⟨first, rest, same, nonzero⟩ := proper.leading
  have zero : Nat.digitChar 0 = '0' := rfl
  have taken : ∀ x ∈ d.digits.take (n + 1), x < 10 := fun x hx =>
    proper.small x (List.mem_of_mem_take hx)
  have small := (small_append_zeros taken (n + 1 - d.digits.length)).1
  have allowed : wholeAllowed
      (d.digits.take (n + 1) ++ List.replicate (n + 1 - d.digits.length) 0) = true := by
    rw [same, List.take_succ_cons, List.cons_append]
    exact wholeAllowed_cons nonzero _
  have small' : ∀ x ∈ d.behindPoint (n + 1), x < 10 := by
    unfold behindPoint
    split
    · simp
    · exact fun x hx => proper.small x (List.mem_of_mem_drop hx)
  have filled : d.behindPoint (n + 1) ≠ [] := by
    unfold behindPoint
    split
    · exact nofun
    · next longer => simpa using longer
  have behind : (if (chars d.digits).length ≤ n + 1 then ['0'] else (chars d.digits).drop (n + 1)) =
      (d.behindPoint (n + 1)).map Nat.digitChar := by
    unfold behindPoint chars
    rw [List.length_map]
    split
    · rfl
    · exact List.map_drop.symm
  have spells := spells_fraction negative small allowed small' filled
    (show ∀ c ∈ [], _ from nofun) rfl rfl
  refine ⟨small, ?_⟩
  unfold positional
  dsimp only
  rw [if_neg (by omega), high, Int.toNat_natCast, behind]
  simpa [chars, zero] using spells

end Digits

end Stratagem
