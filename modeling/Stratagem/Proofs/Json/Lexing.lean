import Mathlib.Data.List.Forall2
import Stratagem.Proofs.Json.Scalar

/-!
# The tokens of an indented text

The indented text of a value is cut into the tokens of a value of the same brackets and keys, in
which each scalar is what its text is read as. A word ends only where the next character is none of
it, so the scanner is followed up to "behind these tokens", with the last word perhaps still open.

* `Json.ReadsAs` tells what the text of a value is read as.
* `Json.Writable` tells which values are read back as they are: their scalars have texts of their
  own, and their brackets nest within a depth.
* `Json.Scanner.Takes` follows the scanner over a part of a text.
* `Json.LexesAs` follows it over the text of a value, and `Json.lex?_pretty` is the result.
-/

namespace Stratagem.Json

/-- Whether the text of a value is read as another value: they have the same brackets, which nest
within a depth, and the same keys, and the scalars of one are read as those of the other. -/
def ReadsAs : Nat → Json → Json → Prop
  | _, .scalar s, .scalar t => s.ReadsAs t
  | depth + 1, .array items, .array items' => List.Forall₂ (ReadsAs depth) items items'
  | depth + 1, .object fields, .object fields' =>
    List.Forall₂ (fun field field' => field.1 = field'.1 ∧ ReadsAs depth field.2 field'.2)
      fields fields'
  | _, _, _ => False

/-- Whether the scalars of a value have texts of their own and its brackets nest within a depth. -/
def Writable : Nat → Json → Prop
  | _, .scalar s => s.Writable
  | 0, .array _ => False
  | 0, .object _ => False
  | depth + 1, .array items => ∀ v ∈ items, Writable depth v
  | depth + 1, .object fields => ∀ field ∈ fields, Writable depth field.2

theorem Writable.mono {m n : Nat} {v : Json} (writable : v.Writable m) (le : m ≤ n) :
    v.Writable n := by
  induction m generalizing n v with
  | zero =>
    cases v with
    | scalar s => cases n <;> exact writable
    | array | object => exact writable.elim
  | succ m ih =>
    obtain ⟨n, rfl⟩ : ∃ k, n = k + 1 := ⟨n - 1, by omega⟩
    have le : m ≤ n := Nat.le_of_succ_le_succ le
    cases v with
    | scalar s => exact writable
    | array items => exact fun v hv => ih (writable v hv) le
    | object fields => exact fun field hf => ih (writable field hf) le

/-- A writable value is read as itself. -/
theorem Writable.readsAs {n : Nat} {v : Json} (writable : v.Writable n) : ReadsAs n v v := by
  induction n generalizing v with
  | zero =>
    cases v with
    | scalar s => exact Scalar.Writable.readsAs writable
    | array | object => exact writable.elim
  | succ n ih =>
    cases v with
    | scalar s => exact Scalar.Writable.readsAs writable
    | array items => exact List.forall₂_same.2 fun v hv => ih (writable v hv)
    | object fields => exact List.forall₂_same.2 fun field hf => ⟨rfl, ih (writable field hf)⟩

variable {found found' : List Token} {text : List Char} {c : Char}

/-! ## Following the scanner -/

namespace Scanner

variable {s s' : Scanner}

/-- The scanner has these tokens behind it, last first; the last of them may be a word that is still
open. -/
inductive Behind (found : List Token) : Scanner → Prop
  | blank : Behind found ⟨found, .blank⟩
  | word {earlier : List Token} {taken : List Char} : endWord? earlier taken = some found →
      Behind found ⟨earlier, .word taken⟩

theorem Behind.feed?_eq (behind : Behind found s) (ends : isWordChar c = false) :
    s.feed? c = begin? found c := by
  cases behind with
  | blank => rfl
  | word ended => simp only [feed?, ends, ended, Bool.false_eq_true, if_false, Option.bind_some]

theorem Behind.finish?_eq (behind : Behind found s) : s.finish? = some found.reverse := by
  cases behind with
  | blank => rfl
  | word ended => simp only [finish?, ended, Option.map_some]

/-- From here the scanner takes a part of a text and then has these tokens behind it. -/
def Takes (s : Scanner) (text : List Char) (found : List Token) : Prop :=
  ∃ s', text.foldlM feed? s = some s' ∧ Behind found s'

theorem Takes.append {more : List Char} (first : Takes s text found)
    (second : ∀ s', Behind found s' → Takes s' more found') : Takes s (text ++ more) found' := by
  obtain ⟨middle, taken, behind⟩ := first
  obtain ⟨last, taken', behind'⟩ := second middle behind
  refine ⟨last, ?_, behind'⟩
  rw [List.foldlM_append, taken]
  exact taken'

theorem takes_nil (behind : Behind found s) : Takes s [] found := ⟨s, rfl, behind⟩

theorem takes_punctuation {t : Token} (behind : Behind found s) (mark : punctuation? c = some t) :
    Takes s [c] (t :: found) := by
  have begins : isWordChar c = false ∧ begin? found c = some ⟨t :: found, .blank⟩ := by
    unfold punctuation? at mark
    split at mark <;> cases mark <;> exact ⟨rfl, rfl⟩
  refine ⟨_, ?_, .blank⟩
  rw [List.foldlM_cons, behind.feed?_eq begins.1, begins.2]
  rfl

theorem isWordChar_of_isBlank (blank : isBlank c = true) : isWordChar c = false := by
  simp only [isBlank, Bool.or_eq_true, decide_eq_true_eq] at blank
  rcases blank with ((rfl | rfl) | rfl) | rfl <;> rfl

theorem begin?_of_isBlank (blank : isBlank c = true) : begin? found c = some ⟨found, .blank⟩ :=
  if_pos blank

theorem feedAll_blanks (blanks : ∀ c ∈ text, isBlank c = true) :
    text.foldlM feed? ⟨found, .blank⟩ = some ⟨found, .blank⟩ := by
  induction text with
  | nil => rfl
  | cons c text ih =>
    have first : feed? ⟨found, .blank⟩ c = some ⟨found, .blank⟩ :=
      begin?_of_isBlank (blanks c List.mem_cons_self)
    rw [List.foldlM_cons, first]
    exact ih fun x hx => blanks x (List.mem_cons_of_mem _ hx)

/-- Blanks close an open word and are skipped. -/
theorem Takes.of_blanks (behind : Behind found s) (blank : isBlank c = true)
    (blanks : ∀ c ∈ text, isBlank c = true) {more : List Char}
    (after : Takes ⟨found, .blank⟩ more found') : Takes s (c :: text ++ more) found' := by
  obtain ⟨last, taken, behind'⟩ := after
  refine ⟨last, ?_, behind'⟩
  rw [List.foldlM_append, List.foldlM_cons, behind.feed?_eq (isWordChar_of_isBlank blank),
    begin?_of_isBlank blank]
  show (text.foldlM feed? ⟨found, .blank⟩ >>= fun s => more.foldlM feed? s) = _
  rw [feedAll_blanks blanks]
  exact taken

theorem Takes.newline (behind : Behind found s) (depth : Nat) {more : List Char}
    (after : Takes ⟨found, .blank⟩ more found') :
    Takes s ((newline depth).toList ++ more) found' := by
  have gap : (Json.newline depth).toList = '\n' :: List.replicate (2 * depth) ' ' := by
    unfold Json.newline
    simp only [String.toList_append, String.toList_ofList]
    rfl
  rw [gap]
  refine .of_blanks behind rfl (fun c hc => ?_) after
  rw [(List.mem_replicate.1 hc).2]
  rfl

/-! ## Scalars -/

/-- Word characters are taken into the open word. -/
theorem feedAll_word (taken : List Char) (word : ∀ c ∈ text, isWordChar c = true) :
    text.foldlM feed? ⟨found, .word taken⟩ = some ⟨found, .word (text.reverse ++ taken)⟩ := by
  induction text generalizing taken with
  | nil => rfl
  | cons c text ih =>
    have first : feed? ⟨found, .word taken⟩ c = some ⟨found, .word (c :: taken)⟩ :=
      if_pos (word c List.mem_cons_self)
    rw [List.foldlM_cons, first]
    refine (ih (c :: taken) fun x hx => word x (List.mem_cons_of_mem _ hx)).trans ?_
    rw [List.reverse_cons, List.append_assoc, List.singleton_append]

theorem begin?_of_isWordChar (word : isWordChar c = true) :
    begin? found c = some ⟨found, .word [c]⟩ := by
  have solid : isBlank c = false := by
    cases blank : isBlank c with
    | false => rfl
    | true =>
      rw [isWordChar_of_isBlank blank] at word
      cases word
  have unquoted : c ≠ '"' := by
    rintro rfl
    cases word
  unfold begin?
  rw [solid, if_neg Bool.false_ne_true, if_neg unquoted, if_pos word]

theorem takes_word {x : Scalar} (word : ∀ c ∈ text, isWordChar c = true)
    (read : ofWord? text = some x) : Takes ⟨found, .blank⟩ text (.scalar x :: found) := by
  cases text with
  | nil => cases read
  | cons c text =>
    refine ⟨⟨found, .word (text.reverse ++ [c])⟩, ?_, .word ?_⟩
    · have first : feed? ⟨found, .blank⟩ c = some ⟨found, .word [c]⟩ :=
        begin?_of_isWordChar (word c List.mem_cons_self)
      rw [List.foldlM_cons, first]
      exact feedAll_word [c] fun x hx => word x (List.mem_cons_of_mem _ hx)
    · unfold endWord?
      rw [List.reverse_append, List.reverse_reverse, List.reverse_singleton, List.singleton_append,
        read]
      rfl

/-- Characters other than the quote and the backslash are taken as they are. -/
theorem feedAll_plain (taken : List Char) (plain : ∀ c ∈ text, c ≠ '"' ∧ c ≠ '\\') :
    text.foldlM feed? ⟨found, .string taken false⟩ =
      some ⟨found, .string (text.reverse ++ taken) false⟩ := by
  induction text generalizing taken with
  | nil => rfl
  | cons c text ih =>
    obtain ⟨quote, backslash⟩ := plain c List.mem_cons_self
    have first : feed? ⟨found, .string taken false⟩ c =
        some ⟨found, .string (c :: taken) false⟩ := by
      simp [feed?, quote, backslash]
    rw [List.foldlM_cons, first]
    refine (ih (c :: taken) fun x hx => plain x (List.mem_cons_of_mem _ hx)).trans ?_
    rw [List.reverse_cons, List.append_assoc, List.singleton_append]

theorem digitChar_plain : ∀ d < 16, Nat.digitChar d ≠ '"' ∧ Nat.digitChar d ≠ '\\' := by decide

theorem hexDigits_plain {width n : Nat} (hc : c ∈ Uuid.hexDigits width n) :
    c ≠ '"' ∧ c ≠ '\\' := by
  induction width generalizing n with
  | zero => cases hc
  | succ width ih =>
    rcases List.mem_append.1 hc with hc | hc
    · exact ih hc
    · rw [List.mem_singleton.1 hc]
      exact digitChar_plain _ (Nat.mod_lt _ (by decide))

/-- What a character is escaped as is taken whole, and leaves the string open. -/
theorem feedAll_escapeChar (taken : List Char) (c : Char) :
    (escapeChar c).foldlM feed? ⟨found, .string taken false⟩ =
      some ⟨found, .string ((escapeChar c).reverse ++ taken) false⟩ := by
  unfold escapeChar
  iterate 7
    split
    · rfl
  split
  · -- behind the backslash and its letter four digits are taken as they are
    exact (feedAll_plain ('u' :: '\\' :: taken) fun x hx => hexDigits_plain hx).trans
      (by simp [hexEscape])
  · next quote backslash _ _ _ _ _ _ =>
    exact feedAll_plain taken fun x hx => List.mem_singleton.1 hx ▸ ⟨quote, backslash⟩

theorem feedAll_escaped (taken chars : List Char) :
    (chars.flatMap escapeChar).foldlM feed? ⟨found, .string taken false⟩ =
      some ⟨found, .string ((chars.flatMap escapeChar).reverse ++ taken) false⟩ := by
  induction chars generalizing taken with
  | nil => rfl
  | cons c chars ih =>
    rw [List.flatMap_cons, List.foldlM_append, feedAll_escapeChar]
    refine (ih _).trans ?_
    rw [List.reverse_append, List.append_assoc]

theorem takes_quote (key : String) :
    Takes ⟨found, .blank⟩ (quote key).toList (.scalar (.string key) :: found) := by
  refine ⟨_, ?_, .blank⟩
  rw [quote, String.toList_ofList, List.foldlM_append]
  have opened : feed? ⟨found, .blank⟩ '"' = some ⟨found, .string [] false⟩ := rfl
  rw [List.foldlM_cons, opened]
  show ((key.toList.flatMap escapeChar).foldlM feed? ⟨found, .string [] false⟩ >>= _) = _
  rw [feedAll_escaped]
  simp [feed?, codes?_flatMap_escapeChar, stringOfCodes_toNat]

theorem takes_scalar {x y : Scalar} (reads : x.ReadsAs y) :
    Takes ⟨found, .blank⟩ x.text.toList (.scalar y :: found) := by
  cases reads with
  | string key => exact takes_quote key
  | word word read _ => exact takes_word word read

end Scanner

/-! ## Values -/

open Scanner

/-- The tokens of an item that stands after another. -/
def laterItem (v : Json) : List Token := .comma :: v.tokens

/-- The tokens of a field that stands after another. -/
def laterField (field : String × Json) : List Token :=
  .comma :: .scalar (.string field.1) :: .colon :: field.2.tokens

theorem itemTokens_cons (v : Json) (rest : List Json) :
    itemTokens (v :: rest) = v.tokens ++ rest.flatMap laterItem ++ [.closeArray] := by
  induction rest generalizing v with
  | nil => simp [itemTokens]
  | cons w rest ih =>
    rw [itemTokens, ih w, List.flatMap_cons]
    · simp [laterItem]
    · exact nofun

theorem fieldTokens_cons (key : String) (v : Json) (rest : List (String × Json)) :
    fieldTokens ((key, v) :: rest) =
      .scalar (.string key) :: .colon :: v.tokens ++ rest.flatMap laterField ++
        [.closeObject] := by
  induction rest generalizing key v with
  | nil => simp [fieldTokens]
  | cons field rest ih =>
    obtain ⟨key', w⟩ := field
    rw [fieldTokens, ih key' w, List.flatMap_cons]
    · simp [laterField]
    · exact nofun

/-- The scanner finds the tokens of a value in the text of another, at whatever depth it stands. -/
def LexesAs (v w : Json) : Prop :=
  ∀ depth found, Takes ⟨found, .blank⟩ (prettyAt depth v).toList (w.tokens.reverse ++ found)

/-- The scanner finds the tokens of a field in the text of another. -/
def FieldLexesAs (field field' : String × Json) : Prop :=
  field.1 = field'.1 ∧ LexesAs field.2 field'.2

theorem takes_prettyItems {rest rest' : List Json} (each : List.Forall₂ LexesAs rest rest')
    (depth : Nat) {s : Scanner} (behind : Behind found s) :
    Takes s (prettyItems depth rest).toList ((rest'.flatMap laterItem).reverse ++ found) := by
  induction each generalizing s found with
  | nil => exact takes_nil behind
  | cons lexes _ ih =>
    simp only [prettyItems, String.toList_append, List.append_assoc, List.flatMap_cons, laterItem,
      List.cons_append, List.reverse_cons, List.reverse_append]
    refine (takes_punctuation behind (t := .comma) rfl).append fun s' behind => ?_
    refine .newline behind depth ?_
    exact (lexes depth _).append fun s'' behind => ih behind

/-- The scanner finds the tokens of a field behind a line break. -/
theorem takes_field {key : String} {v w : Json} (lexes : LexesAs v w) (depth : Nat)
    {more : List Char} (after : ∀ s, Behind (w.tokens.reverse ++ .colon :: .scalar (.string key) ::
      found) s → Takes s more found') :
    Takes ⟨found, .blank⟩
      ((quote key).toList ++ ([':', ' '] ++ ((prettyAt depth v).toList ++ more))) found' := by
  refine (takes_quote key).append fun s behind => ?_
  refine (takes_punctuation (c := ':') (t := .colon) behind rfl).append fun s behind => ?_
  have noBlanks : ∀ c ∈ ([] : List Char), isBlank c = true := nofun
  refine .of_blanks (c := ' ') behind rfl noBlanks ?_
  exact (lexes depth _).append after

theorem takes_prettyFields {rest rest' : List (String × Json)}
    (each : List.Forall₂ FieldLexesAs rest rest') (depth : Nat) {s : Scanner}
    (behind : Behind found s) :
    Takes s (prettyFields depth rest).toList ((rest'.flatMap laterField).reverse ++ found) := by
  induction each generalizing s found with
  | nil => exact takes_nil behind
  | @cons field field' _ _ first _ ih =>
    obtain ⟨key, v⟩ := field
    obtain ⟨key', w⟩ := field'
    obtain ⟨rfl, lexes⟩ := first
    simp only [prettyFields, String.toList_append, List.append_assoc, List.flatMap_cons,
      laterField, List.cons_append, List.reverse_cons, List.reverse_append]
    refine (takes_punctuation behind (t := .comma) rfl).append fun s' behind => ?_
    refine .newline behind depth ?_
    exact takes_field lexes depth fun s'' behind => ih behind

theorem lexesAs_array {items items' : List Json} (each : List.Forall₂ LexesAs items items') :
    LexesAs (.array items) (.array items') := by
  intro depth found
  cases each with
  | nil =>
    simp only [prettyAt, tokens, itemTokens]
    refine (takes_punctuation (c := '[') (t := .openArray) .blank rfl).append fun s behind => ?_
    exact takes_punctuation (c := ']') (t := .closeArray) behind rfl
  | cons lexes others =>
    simp only [prettyAt, tokens, itemTokens_cons, String.toList_append, List.append_assoc,
      List.reverse_cons, List.reverse_append, List.reverse_nil, List.nil_append, List.cons_append]
    refine (takes_punctuation (c := '[') (t := .openArray) .blank rfl).append fun s behind => ?_
    refine .newline behind (depth + 1) ?_
    refine (lexes (depth + 1) _).append fun s behind => ?_
    refine (takes_prettyItems others (depth + 1) behind).append fun s behind => ?_
    exact .newline behind depth (takes_punctuation (c := ']') (t := .closeArray) .blank rfl)

theorem lexesAs_object {fields fields' : List (String × Json)}
    (each : List.Forall₂ FieldLexesAs fields fields') :
    LexesAs (.object fields) (.object fields') := by
  intro depth found
  cases each with
  | nil =>
    simp only [prettyAt, tokens, fieldTokens]
    refine (takes_punctuation (c := '\x7b') (t := .openObject) .blank rfl).append
      fun s behind => ?_
    exact takes_punctuation (c := '\x7d') (t := .closeObject) behind rfl
  | @cons field field' _ _ first others =>
    obtain ⟨key, v⟩ := field
    obtain ⟨key', w⟩ := field'
    obtain ⟨rfl, lexes⟩ := first
    simp only [prettyAt, tokens, fieldTokens_cons, String.toList_append, List.append_assoc,
      List.reverse_cons, List.reverse_append, List.reverse_nil, List.nil_append, List.cons_append]
    refine (takes_punctuation (c := '\x7b') (t := .openObject) .blank rfl).append
      fun s behind => ?_
    refine .newline behind (depth + 1) ?_
    refine takes_field lexes (depth + 1) fun s behind => ?_
    refine (takes_prettyFields others (depth + 1) behind).append fun s behind => ?_
    exact .newline behind depth (takes_punctuation (c := '\x7d') (t := .closeObject) .blank rfl)

/-- A text that is read as a value is cut into the tokens of the value, at whatever depth it
stands. -/
theorem ReadsAs.lexesAs {n : Nat} {v w : Json} (reads : ReadsAs n v w) : LexesAs v w := by
  induction n generalizing v w with
  | zero =>
    cases v <;> cases w <;> first | exact reads.elim | exact fun _ _ => takes_scalar reads
  | succ n ih =>
    cases v <;> cases w
    case scalar.scalar => exact fun _ _ => takes_scalar reads
    case array.array => exact lexesAs_array (reads.imp fun _ _ => ih)
    case object.object => exact lexesAs_object (reads.imp fun _ _ => .imp_right ih)
    all_goals exact reads.elim

/-- The indented text of a value is cut into the tokens of what it is read as. -/
theorem lex?_pretty {n : Nat} {v w : Json} (reads : ReadsAs n v w) :
    lex? v.pretty.toList = some w.tokens := by
  obtain ⟨s, taken, behind⟩ := reads.lexesAs 0 []
  have done : s.finish? = some w.tokens := by
    rw [behind.finish?_eq, List.append_nil, List.reverse_reverse]
  unfold lex? pretty
  rw [taken]
  exact done

end Stratagem.Json
