import Stratagem.Json.Printer
import Stratagem.Json.Lexer
import Stratagem.Proofs.Uuid

/-!
# The text of a scalar

A scalar is read back from its text: a string from between its quotes, anything else from its word.

* `Json.Scalar.ReadsAs` tells what the text of a scalar is read as, and `Json.Scalar.Writable` which
  scalars have a text of their own.
* `Json.codes?_flatMap_escapeChar` and `Json.stringOfCodes_toNat`: escaping is undone.
* `Numeral.ofWord?_toString`: an integer that fits a 64-bit word is read back from its digits.
* `Json.Scalar.Writable.readsAs`: a writable scalar is read back from its text.
-/

namespace Stratagem

/-! ## Decimal digits -/

theorem decimalDigit?_digitChar : ∀ d < 10, decimalDigit? (Nat.digitChar d) = some d := by decide

theorem spanDigits_map_digitChar {digits : List Nat} (small : ∀ d ∈ digits, d < 10) :
    spanDigits (digits.map Nat.digitChar) = (digits, []) := by
  induction digits with
  | nil => rfl
  | cons d digits ih =>
    have first := decimalDigit?_digitChar d (small d List.mem_cons_self)
    have rest := ih fun x hx => small x (List.mem_cons_of_mem _ hx)
    simp only [List.map_cons, spanDigits, first, rest]

/-- The digits of a number spell it, and begin with a zero only if they are this zero. -/
theorem exists_decimalDigits (n : Nat) :
    ∃ digits, Nat.toDigits 10 n = digits.map Nat.digitChar ∧ (∀ d ∈ digits, d < 10) ∧
      decimalNumber digits = n ∧ Numeral.wholeAllowed digits = true := by
  induction n using Nat.strongRecOn with
  | ind n ih =>
    rw [Nat.toDigits_eq_if (by decide)]
    split
    · next small =>
      exact ⟨[n], rfl, by simpa using small, by simp [decimalNumber], rfl⟩
    · next large =>
      obtain ⟨digits, same, small, number, allowed⟩ := ih (n / 10) (by omega)
      refine ⟨digits ++ [n % 10], by rw [same]; simp, ?_, ?_, ?_⟩
      · intro d hd
        rcases List.mem_append.1 hd with hd | hd
        · exact small d hd
        · rw [List.mem_singleton.1 hd]
          omega
      · unfold decimalNumber at number ⊢
        rw [List.foldl_append, number]
        simp only [List.foldl_cons, List.foldl_nil]
        omega
      · -- a single digit before the last is that of a number above zero
        match digits, number, allowed with
        | [d], number, _ =>
          have number : d = n / 10 := by simpa [decimalNumber] using number
          have : d ≠ 0 := by omega
          simpa [Numeral.wholeAllowed] using this
        | d :: e :: more, _, allowed => simpa [Numeral.wholeAllowed] using allowed

namespace Numeral

theorem ofWord?_of_digits {digits : List Nat} (negative : Bool) (small : ∀ d ∈ digits, d < 10)
    (allowed : wholeAllowed digits = true) :
    ofWord? ((if negative then ['-'] else []) ++ digits.map Nat.digitChar) =
      some (toScalar negative digits none none) := by
  have spanned := spanDigits_map_digitChar small
  cases negative with
  | true => simp [ofWord?, spanned, allowed, exponent?]
  | false =>
    match digits, allowed with
    | d :: rest, allowed =>
      have digit : decimalDigit? (Nat.digitChar d) = some d :=
        decimalDigit?_digitChar d (small d List.mem_cons_self)
      have first : Nat.digitChar d ≠ '-' := by
        intro same
        rw [same] at digit
        cases digit
      rw [List.map_cons] at spanned
      simp [ofWord?, first, spanned, allowed, exponent?]

/-- An integer that fits a 64-bit word, signed or unsigned, is read back from its digits. -/
theorem ofWord?_toString {i : Int} (low : Int64.minValue.toInt ≤ i) (high : i < UInt64.size) :
    ofWord? (toString i).toList = some (.integer i) := by
  cases i with
  | ofNat n =>
    obtain ⟨digits, same, small, number, allowed⟩ := exists_decimalDigits n
    have text : (toString (Int.ofNat n)).toList = digits.map Nat.digitChar := by
      rw [← same]
      show (Nat.repr n).toList = _
      rw [Nat.repr_eq_ofList_toDigits, String.toList_ofList]
    have fits : n < UInt64.size := Int.ofNat_lt.1 high
    rw [text]
    refine (ofWord?_of_digits false small allowed).trans ?_
    simp [toScalar, number, fits]
  | negSucc m =>
    obtain ⟨digits, same, small, number, allowed⟩ := exists_decimalDigits (m + 1)
    have text : (toString (Int.negSucc m)).toList = '-' :: digits.map Nat.digitChar := by
      rw [← same]
      show ("-" ++ Nat.repr (m + 1)).toList = _
      simp only [Nat.repr_eq_ofList_toDigits, String.toList_append, String.toList_ofList]
      rfl
    have fits : Int64.minValue.toInt ≤ -((m + 1 : Nat) : Int) := low
    rw [text]
    refine (ofWord?_of_digits true small allowed).trans ?_
    simp only [toScalar, number, Option.isNone_none, Bool.and_self, if_true]
    rw [if_pos ⟨Nat.succ_pos m, fits⟩]
    rfl

end Numeral

namespace Json

/-! ## Strings -/

theorem hexWord?_hexDigits {n : Nat} (fits : n < 16 ^ 4) :
    ∃ a b c d, Uuid.hexDigits 4 n = [a, b, c, d] ∧ hexWord? a b c d = some n := by
  have number := Uuid.hexNumber?_hexDigits fits
  have long := Uuid.length_hexDigits 4 n
  match Uuid.hexDigits 4 n, long, number with
  | [a, b, c, d], _, number => exact ⟨a, b, c, d, rfl, number⟩

/-- A character that needs no escape stands for itself. -/
theorem codes?_cons {c : Char} (plain : c ≠ '\\') (visible : ¬ c.toNat < 0x20) (rest : List Char) :
    codes? (c :: rest) = (codes? rest).map (c.toNat :: ·) := by
  rw [codes?.eq_def]
  split
  · next h => cases h
  · next h => exact absurd (List.cons.inj h).1 plain
  · next h => exact absurd (List.cons.inj h).1 plain
  · next h =>
    obtain ⟨rfl, rfl⟩ := List.cons.inj h
    rw [if_neg (by simp [plain, visible])]

theorem codes?_escapeChar (c : Char) (rest : List Char) :
    codes? (escapeChar c ++ rest) = (codes? rest).map (c.toNat :: ·) := by
  unfold escapeChar
  iterate 7
    split
    · next h => subst h; rfl
  split
  · next control =>
    obtain ⟨x, y, z, w, digits, word⟩ := hexWord?_hexDigits (n := c.toNat) (by omega)
    rw [hexEscape, digits]
    show (hexWord? x y z w >>= fun code => (codes? rest).map (code :: ·)) = _
    rw [word]
    rfl
  · next _ plain _ _ _ _ _ visible => exact codes?_cons plain visible rest

theorem codes?_flatMap_escapeChar (chars : List Char) :
    codes? (chars.flatMap escapeChar) = some (chars.map Char.toNat) := by
  induction chars with
  | nil => rfl
  | cons c chars ih =>
    rw [List.flatMap_cons, codes?_escapeChar, ih]
    rfl

/-- No character is half of a surrogate pair. -/
theorem ofCodes?_toNat (chars : List Char) : ofCodes? (chars.map Char.toNat) = some chars := by
  induction chars with
  | nil => rfl
  | cons c chars ih =>
    have valid : c.toNat < 0xD800 ∨ 0xDFFF < c.toNat := by
      rcases c.valid with low | ⟨high, -⟩
      · exact .inl low
      · exact .inr high
    have first : isHighSurrogate c.toNat = false := by
      simp only [isHighSurrogate, Bool.and_eq_false_iff, decide_eq_false_iff_not]
      omega
    have second : isLowSurrogate c.toNat = false := by
      simp only [isLowSurrogate, Bool.and_eq_false_iff, decide_eq_false_iff_not]
      omega
    rw [List.map_cons, ofCodes?.eq_def]
    simp [first, second, ih]

theorem stringOfCodes_toNat (s : String) : stringOfCodes (s.toList.map Char.toNat) = .string s := by
  simp [stringOfCodes, ofCodes?_toNat]

/-! ## Words -/

/-- Whether the text of a scalar is read as another scalar, and is not unreadable. -/
inductive Scalar.ReadsAs : Scalar → Scalar → Prop
  | string (text : String) : ReadsAs (.string text) (.string text)
  | word {s t : Scalar} : (∀ c ∈ s.text.toList, isWordChar c = true) →
      ofWord? s.text.toList = some t → (Json.scalar t).isReadable = true → ReadsAs s t

/-- Whether a scalar has a text of its own that it is read back from. Of the doubles these are the
finite ones that their shortest digits lead back to. -/
def Scalar.Writable : Scalar → Prop
  | .null | .bool _ | .string _ => True
  | .integer i => Int64.minValue.toInt ≤ i ∧ i < UInt64.size
  | .float x =>
    (∀ c ∈ x.documentText.toList, isWordChar c = true) ∧
      ofWord? x.documentText.toList = some (.float x)
  | .unreadable _ => False

theorem isWordChar_of_mem_toDigits {n : Nat} {c : Char} (hc : c ∈ Nat.toDigits 10 n) :
    isWordChar c = true := by
  have digit : c.isDigit = true := Nat.isDigit_of_mem_toDigits (by decide) (by decide) hc
  simp [isWordChar, Char.isAlphanum, digit]

theorem isWordChar_of_mem_toString {i : Int} {c : Char} (hc : c ∈ (toString i).toList) :
    isWordChar c = true := by
  cases i with
  | ofNat n =>
    have hc : c ∈ (Nat.repr n).toList := hc
    rw [Nat.repr_eq_ofList_toDigits, String.toList_ofList] at hc
    exact isWordChar_of_mem_toDigits hc
  | negSucc m =>
    have hc : c ∈ ("-" ++ Nat.repr (m + 1)).toList := hc
    simp only [Nat.repr_eq_ofList_toDigits, String.toList_append, String.toList_ofList] at hc
    rcases List.mem_append.1 hc with hc | hc
    · obtain rfl := List.mem_singleton.1 hc
      rfl
    · exact isWordChar_of_mem_toDigits hc

/-- A word that is no literal is a numeral. -/
theorem ofWord?_of_numeral {word : List Char} {s : Scalar} (read : Numeral.ofWord? word = some s) :
    ofWord? word = some s := by
  have literal : ∀ text : List Char, Numeral.ofWord? text = none → word ≠ text := by
    rintro text refused rfl
    rw [refused] at read
    cases read
  unfold ofWord?
  rw [if_neg (literal _ rfl), if_neg (literal _ rfl), if_neg (literal _ rfl), read]

/-- A writable scalar is read back from its text. -/
theorem Scalar.Writable.readsAs {s : Scalar} (writable : s.Writable) : s.ReadsAs s := by
  cases s with
  | null => exact .word (List.all_eq_true.1 rfl) rfl rfl
  | bool b => cases b <;> exact .word (List.all_eq_true.1 rfl) rfl rfl
  | integer i =>
    exact .word (fun c hc => isWordChar_of_mem_toString hc)
      (ofWord?_of_numeral (Numeral.ofWord?_toString writable.1 writable.2)) rfl
  | float x => exact .word writable.1 writable.2 rfl
  | string text => exact .string text
  | unreadable quoted => exact writable.elim

end Json

end Stratagem
