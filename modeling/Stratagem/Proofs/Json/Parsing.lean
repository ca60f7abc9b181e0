import Stratagem.Json.Parser
import Stratagem.Proofs.Json.Lexing
import Stratagem.Proofs.Json.Reading

/-!
# Reading back what is written

The tokens of a value lead the machine from expecting a value to having read this one, whatever
brackets stand open around it, as long as none is nested too deep.

* `Json.ParsesBack` says so of a value, and `Json.ReadsAs.parsesBack` that it holds of every value
  that a text is read as.
* `Json.parse?_pretty_of_readsAs`: what the indented text of a value is read as.
* `Json.parse?_pretty`: a writable value is read back from its indented text.
-/

namespace Stratagem.Json

variable {v : Json} {stack : List Open} {depth : Nat}

/-- The tokens of a value are read as this value inside of any brackets that leave room for those of
the value. -/
def ParsesBack (depth : Nat) (v : Json) : Prop :=
  ∀ stack : List Open, stack.length + depth ≤ maxDepth →
    v.tokens.foldlM Machine.feed? ⟨stack, .value⟩ = some ⟨stack, .next v⟩

theorem enclosed_eq (room : stack.length < maxDepth) (v : Json) : enclosed stack v = v := by
  have short : stack.drop (maxDepth - 1) = [] := List.drop_eq_nil_of_le (by omega)
  simp [enclosed, short]

/-! ## Arrays -/

/-- No value begins with a closing bracket. -/
theorem exists_first_token (v : Json) : ∃ t rest, v.tokens = t :: rest ∧ t ≠ .closeArray := by
  cases v with
  | scalar s => exact ⟨.scalar s, [], rfl, nofun⟩
  | array items => exact ⟨.openArray, itemTokens items, rfl, nofun⟩
  | object fields => exact ⟨.openObject, fieldTokens fields, rfl, nofun⟩

/-- The first item of an array is read as a value inside of it. -/
theorem feedAll_firstItem (v : Json) (more : List Token) :
    (v.tokens ++ more).foldlM Machine.feed? ⟨stack, .firstItem⟩ =
      (v.tokens ++ more).foldlM Machine.feed? ⟨.items [] :: stack, .value⟩ := by
  obtain ⟨t, rest, first, other⟩ := exists_first_token v
  have same : Machine.feed? ⟨stack, .firstItem⟩ t =
      Machine.feed? ⟨.items [] :: stack, .value⟩ t := if_neg other
  rw [first, List.cons_append, List.foldlM_cons, List.foldlM_cons, same]

theorem feedAll_laterItems {rest : List Json} (each : ∀ w ∈ rest, ParsesBack depth w)
    (room : stack.length + (depth + 1) ≤ maxDepth) (before : List Json) (v : Json) :
    (rest.flatMap laterItem ++ [Token.closeArray]).foldlM Machine.feed?
        ⟨.items before :: stack, .next v⟩ =
      some ⟨stack, .next (.array ((v :: before).reverse ++ rest))⟩ := by
  induction rest generalizing before v with
  | nil =>
    have shallow : stack.length < maxDepth := by omega
    have closed := enclosed_eq shallow (.array (v :: before).reverse)
    rw [List.append_nil]
    exact congrArg (fun v => some (Machine.mk stack (.next v))) closed
  | cons w rest ih =>
    have inside : (Open.items (v :: before) :: stack).length + depth ≤ maxDepth := by
      rw [List.length_cons]
      omega
    have item := each w List.mem_cons_self (.items (v :: before) :: stack) inside
    have comma : Machine.feed? ⟨.items before :: stack, .next v⟩ .comma =
        some ⟨.items (v :: before) :: stack, .value⟩ := rfl
    rw [List.flatMap_cons, laterItem, List.cons_append, List.cons_append, List.foldlM_cons, comma,
      List.append_assoc]
    show ((w.tokens ++ _).foldlM Machine.feed? ⟨.items (v :: before) :: stack, .value⟩) = _
    rw [List.foldlM_append, item]
    refine (ih (fun u hu => each u (List.mem_cons_of_mem _ hu)) (v :: before) w).trans ?_
    simp

theorem parsesBack_array {items : List Json} (each : ∀ v ∈ items, ParsesBack depth v) :
    ParsesBack (depth + 1) (.array items) := by
  intro stack room
  have opened : Machine.feed? ⟨stack, .value⟩ .openArray = some ⟨stack, .firstItem⟩ := rfl
  rw [tokens, List.foldlM_cons, opened]
  cases items with
  | nil =>
    have shallow : stack.length < maxDepth := by omega
    have closed := enclosed_eq shallow (.array [])
    exact congrArg (fun v => some (Machine.mk stack (.next v))) closed
  | cons v rest =>
    have inside : (Open.items [] :: stack).length + depth ≤ maxDepth := by
      rw [List.length_cons]
      omega
    have item := each v List.mem_cons_self (.items [] :: stack) inside
    rw [itemTokens_cons, List.append_assoc]
    refine (feedAll_firstItem v _).trans ?_
    rw [List.foldlM_append, item]
    exact feedAll_laterItems (fun w hw => each w (List.mem_cons_of_mem _ hw)) room [] v

/-! ## Objects -/

/-- A field whose key is text. -/
def keyed (field : String × Json) : Field := (some field.1, field.2)

theorem ofFields_map_keyed (fields : List (String × Json)) :
    ofFields (fields.map keyed) = .object fields := by
  have all : (fields.map keyed).mapM (fun field => field.1.map (·, field.2)) = some fields := by
    induction fields with
    | nil => rfl
    | cons field fields ih =>
      rw [List.map_cons, List.mapM_cons, ih]
      rfl
  rw [ofFields, all]

theorem feedAll_field {key : String} (parses : ParsesBack depth v)
    (room : stack.length + (depth + 1) ≤ maxDepth) (before : List Field) (fresh : Bool)
    (more : List Token) :
    (Token.scalar (.string key) :: Token.colon :: (v.tokens ++ more)).foldlM Machine.feed?
        ⟨stack, .key before fresh⟩ =
      more.foldlM Machine.feed? ⟨.fields before (some key) :: stack, .next v⟩ := by
  have inside : (Open.fields before (some key) :: stack).length + depth ≤ maxDepth := by
    rw [List.length_cons]
    omega
  have named : Machine.feed? ⟨stack, .key before fresh⟩ (.scalar (.string key)) =
      some ⟨stack, .colon before (some key)⟩ := rfl
  have colon : Machine.feed? ⟨stack, .colon before (some key)⟩ .colon =
      some ⟨.fields before (some key) :: stack, .value⟩ := rfl
  rw [List.foldlM_cons, named]
  show ((Token.colon :: (v.tokens ++ more)).foldlM Machine.feed?
    ⟨stack, .colon before (some key)⟩) = _
  rw [List.foldlM_cons, colon]
  show ((v.tokens ++ more).foldlM Machine.feed? ⟨.fields before (some key) :: stack, .value⟩) = _
  rw [List.foldlM_append, parses _ inside]
  rfl

theorem feedAll_laterFields {rest : List (String × Json)}
    (each : ∀ field ∈ rest, ParsesBack depth field.2)
    (room : stack.length + (depth + 1) ≤ maxDepth) (before : List (String × Json)) (key : String)
    (v : Json) :
    (rest.flatMap laterField ++ [Token.closeObject]).foldlM Machine.feed?
        ⟨.fields (before.map keyed) (some key) :: stack, .next v⟩ =
      some ⟨stack, .next (.object (((key, v) :: before).reverse ++ rest))⟩ := by
  induction rest generalizing before key v with
  | nil =>
    have fields : ofFields (keyed (key, v) :: before.map keyed).reverse =
        .object ((key, v) :: before).reverse := by
      rw [← List.map_cons, ← List.map_reverse, ofFields_map_keyed]
    have shallow : stack.length < maxDepth := by omega
    have closed := enclosed_eq shallow (.object ((key, v) :: before).reverse)
    rw [List.append_nil, ← closed, ← fields]
    rfl
  | cons field rest ih =>
    obtain ⟨key', w⟩ := field
    have comma : Machine.feed? ⟨.fields (before.map keyed) (some key) :: stack, .next v⟩ .comma =
        some ⟨stack, .key (((key, v) :: before).map keyed) false⟩ := rfl
    rw [List.flatMap_cons, laterField, List.cons_append, List.cons_append, List.foldlM_cons, comma,
      List.cons_append, List.cons_append, List.cons_append, List.cons_append, List.append_assoc]
    refine (feedAll_field (each _ List.mem_cons_self) room _ false _).trans ?_
    have later : ∀ u ∈ rest, ParsesBack depth u.2 := fun u hu => each u (List.mem_cons_of_mem _ hu)
    refine (ih later ((key, v) :: before) key' w).trans ?_
    simp

theorem parsesBack_object {fields : List (String × Json)}
    (each : ∀ field ∈ fields, ParsesBack depth field.2) :
    ParsesBack (depth + 1) (.object fields) := by
  intro stack room
  have opened : Machine.feed? ⟨stack, .value⟩ .openObject = some ⟨stack, .key [] true⟩ := rfl
  rw [tokens, List.foldlM_cons, opened]
  cases fields with
  | nil =>
    have shallow : stack.length < maxDepth := by omega
    have closed := enclosed_eq shallow (.object [])
    exact congrArg (fun v => some (Machine.mk stack (.next v))) closed
  | cons field rest =>
    obtain ⟨key, v⟩ := field
    rw [fieldTokens_cons, List.append_assoc, List.cons_append, List.cons_append]
    refine (feedAll_field (each _ List.mem_cons_self) room [] true _).trans ?_
    exact feedAll_laterFields (fun w hw => each w (List.mem_cons_of_mem _ hw)) room [] key v

/-! ## Values -/

theorem ReadsAs.parsesBack {w : Json} (reads : ReadsAs depth v w) : ParsesBack depth w := by
  induction depth generalizing v w with
  | zero =>
    cases v <;> cases w <;> first | exact reads.elim | exact fun _ _ => rfl
  | succ depth ih =>
    cases v <;> cases w
    case scalar.scalar => exact fun _ _ => rfl
    case array.array =>
      refine parsesBack_array fun w hw => ?_
      obtain ⟨v, -, read⟩ := exists_of_forall₂ reads hw
      exact ih read
    case object.object =>
      refine parsesBack_object fun field hf => ?_
      obtain ⟨_, -, -, read⟩ := exists_of_forall₂ reads hf
      exact ih read
    all_goals exact reads.elim

/-- The indented text of a value is parsed as the value that it is read as. -/
theorem parse?_pretty_of_readsAs {w : Json} (reads : ReadsAs depth v w)
    (shallow : depth ≤ maxDepth) : parse? v.pretty = some w := by
  have read := reads.parsesBack [] (by simpa using shallow)
  unfold parse? ofTokens?
  rw [lex?_pretty reads, Option.bind_some, read]
  rfl

theorem itemsReadable_iff {items : List Json} :
    itemsReadable items = true ↔ ∀ v ∈ items, v.isReadable = true := by
  induction items with
  | nil => simp [itemsReadable]
  | cons v items ih => simp [itemsReadable, ih]

theorem fieldsReadable_iff {fields : List (String × Json)} :
    fieldsReadable fields = true ↔ ∀ field ∈ fields, field.2.isReadable = true := by
  induction fields with
  | nil => simp [fieldsReadable]
  | cons field fields ih => simp [fieldsReadable, ih]

/-- Nothing that a text is read as is unreadable. -/
theorem ReadsAs.isReadable {w : Json} (reads : ReadsAs depth v w) : w.isReadable = true := by
  have scalar {s t : Scalar} (reads : s.ReadsAs t) : (Json.scalar t).isReadable = true := by
    cases reads with
    | string => rfl
    | word _ _ readable => exact readable
  induction depth generalizing v w with
  | zero =>
    cases v <;> cases w <;> first | exact reads.elim | exact scalar reads
  | succ depth ih =>
    cases v <;> cases w
    case scalar.scalar => exact scalar reads
    case array.array =>
      refine itemsReadable_iff.2 fun w hw => ?_
      obtain ⟨v, -, read⟩ := exists_of_forall₂ reads hw
      exact ih read
    case object.object =>
      refine fieldsReadable_iff.2 fun field hf => ?_
      obtain ⟨_, -, -, read⟩ := exists_of_forall₂ reads hf
      exact ih read
    all_goals exact reads.elim

/-- A writable value is read back from its indented text. -/
theorem parse?_pretty (writable : v.Writable depth) (shallow : depth ≤ maxDepth) :
    parse? v.pretty = some v :=
  parse?_pretty_of_readsAs writable.readsAs shallow

end Stratagem.Json
