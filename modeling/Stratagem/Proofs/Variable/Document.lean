import Stratagem.Proofs.Json.Rereading
import Stratagem.Variable.Document

/-!
# Documents of variables are read back

A variable is read back from its document, without its hook and with the double that the text of its
own is read as. A document is legible if its doubles are finite.

* `Value.reread` and `Variable.reread` are what a value and a variable are read as.
* `Value.gives_toJson`, `Variable.gives_toJson` and `VariableSet.gives_toJson` say so.
-/

namespace Stratagem

open Json

variable {n : Nat}

theorem Id.asId?_toJson {kind : IdKind} (id : Id kind) : asId? id.toJson = some id := by
  simp only [asId?, Id.toJson, asString?, Option.bind_some, Id.ofString?_toString]

theorem Id.asOption?_toJson {kind : IdKind} (id? : Option (Id kind)) :
    asOption? asId? (.ofOption Id.toJson id?) = some id? :=
  asOption?_ofOption rfl Id.asId?_toJson id?

theorem asOption?_string (s? : Option String) :
    asOption? asString? (.ofOption .string s?) = some s? := by
  refine asOption?_ofOption ?_ (fun s => ?_) s?
  · rfl
  · rfl

/-! ## Numbers -/

theorem asIntIn?_of_le {low high i : Int} (above : low ≤ i) (below : i ≤ high) :
    asIntIn? low high (.integer i) = some i :=
  if_pos ⟨above, below⟩

theorem asInt64?_toInt (i : Int64) : asInt64? (.integer i.toInt) = some i := by
  rw [asInt64?, asIntIn?_of_le i.minValue_le_toInt i.toInt_le, Option.map_some, Int64.ofInt_toInt]

theorem asInt32?_toInt (i : Int32) : asInt32? (.integer i.toInt) = some i := by
  rw [asInt32?, asIntIn?_of_le i.minValue_le_toInt i.toInt_le, Option.map_some, Int32.ofInt_toInt]

theorem asUInt64?_toNat (i : UInt64) : asUInt64? (.nat i.toNat) = some i := by
  have word : (i.toNat : Int) ≤ UInt64.size - 1 :=
    Int.le_sub_one_of_lt (Int.ofNat_lt.2 i.toNat_lt_size)
  have read := asIntIn?_of_le (Int.natCast_nonneg i.toNat) word
  rw [asUInt64?]
  exact (congrArg (Option.map _) read).trans (congrArg some i.ofNat_toNat)

theorem asUInt32?_toNat (i : UInt32) : asUInt32? (.nat i.toNat) = some i := by
  have word : (i.toNat : Int) ≤ UInt32.size - 1 :=
    Int.le_sub_one_of_lt (Int.ofNat_lt.2 i.toNat_lt_size)
  have read := asIntIn?_of_le (Int.natCast_nonneg i.toNat) word
  rw [asUInt32?]
  exact (congrArg (Option.map _) read).trans (congrArg some i.ofNat_toNat)

/-- An integer that fits a 64-bit word can be written. -/
theorem writable_integer {i : Int} (low : Int64.minValue.toInt ≤ i) (high : i < UInt64.size)
    (n : Nat) : (Json.integer i).Writable n := by
  cases n <;> exact ⟨low, high⟩

theorem writable_nat {m : Nat} (word : m < UInt64.size) (n : Nat) : (Json.nat m).Writable n :=
  writable_integer (Int.le_trans (by decide) (Int.natCast_nonneg m)) (Int.ofNat_lt.2 word) n

/-! ## Parts without doubles -/

theorem writable_string (s : String) (n : Nat) : (Json.string s).Writable n := by
  cases n <;> trivial

theorem writable_bool (b : Bool) (n : Nat) : (Json.bool b).Writable n := by
  cases n <;> trivial

theorem Id.writable_toJson {kind : IdKind} (id : Id kind) (n : Nat) : id.toJson.Writable n :=
  writable_string _ n

theorem writable_ofOption {α : Type} {write : α → Json} (each : ∀ a, (write a).Writable n)
    (a? : Option α) : (Json.ofOption write a?).Writable n := by
  cases a? with
  | none => cases n <;> trivial
  | some a => exact each a

theorem writable_object_iff {fields : List (String × Json)} :
    (Json.object fields).Writable (n + 1) ↔ ∀ field ∈ fields, field.2.Writable n :=
  Iff.rfl

theorem writable_ofList {α : Type} {write : α → Json} (each : ∀ a, (write a).Writable n)
    (items : List α) : (Json.ofList write items).Writable (n + 1) := by
  intro v hv
  obtain ⟨a, -, rfl⟩ := List.mem_map.1 hv
  exact each a

/-! ## Values -/

namespace Value

/-- Whether a value is no double, or a finite one. -/
def isFinite : Value → Bool
  | .float x => x.isFinite
  | _ => true

/-- The value that a value is read as once it is written as text. -/
def reread : Value → Value
  | .float x => .float (x.reread?.getD x)
  | v => v

theorem writable_enumeration (index : UInt64) (options : List String) :
    (content (.enumeration index options)).Writable (n + 2) := by
  simp only [content, writable_object_iff, List.forall_mem_cons]
  exact ⟨writable_nat index.toNat_lt_size _, writable_ofList (fun s => writable_string s n) options,
    nofun⟩

theorem enumerationOfJson?_content (index : UInt64) (options : List String) :
    enumerationOfJson? (content (.enumeration index options)) =
      some (.enumeration index options) := by
  have labels := asList?_ofList fun s (_ : s ∈ options) => (rfl : asString? (.string s) = some s)
  simp [content, enumerationOfJson?, asRecord?, countKey, Record.required, Record.get?,
    List.lookup_cons, asUInt64?_toNat, labels]

/-- What the content of a value is read as. -/
theorem gives_content (v : Value) :
    Gives (n + 2) v.content (ofContent? v.kind.name) v.isFinite v.reread := by
  have id {kind : IdKind} (id? : Option (Id kind)) :
      (Json.ofOption Id.toJson id?).Writable (n + 2) :=
    writable_ofOption (fun id => id.writable_toJson _) id?
  cases v with
  | float x => exact (gives_float _ x).map fun _ => rfl
  | string s => exact (writable_string s _).gives rfl
  | bool b => exact (writable_bool b _).gives rfl
  | integer i =>
    have high : i.toInt < UInt64.size := Int.lt_of_le_of_lt i.toInt_le (by decide)
    exact (writable_integer i.minValue_le_toInt high _).gives
      (congrArg (Option.map Value.integer) (asInt64?_toInt i))
  | object key? =>
    exact (writable_ofOption (fun s => writable_string s _) key?).gives
      (congrArg (Option.map Value.object) (asOption?_string key?))
  | enumeration index options =>
    exact (writable_enumeration index options).gives (enumerationOfJson?_content index options)
  | actor id? => exact (id id?).gives (congrArg (Option.map Value.actor) (Id.asOption?_toJson id?))
  | clan id? => exact (id id?).gives (congrArg (Option.map Value.clan) (Id.asOption?_toJson id?))
  | family id? => exact (id id?).gives (congrArg (Option.map Value.family) (Id.asOption?_toJson id?))

theorem gives_toJson (v : Value) : Gives (n + 3) v.toJson ofJson? v.isFinite v.reread :=
  v.gives_content.lastField [] (h := id) nofun fun w => by
    rw [Option.map_id]
    rfl

end Value

namespace Variable

/-- The variable that a variable is read as once it is written as text. -/
def reread (v : Variable) : Variable := { v with value := v.value.reread, watched := false }

theorem gives_toJson (v : Variable) :
    Gives (n + 4) v.toJson ofJson? v.value.isFinite v.reread := by
  refine v.value.gives_toJson.lastField [("id", v.id.toJson), ("name", .string v.name)]
    (h := fun value => ({ v with value, watched := false } : Variable)) ?_ fun w => ?_
  · simp only [List.forall_mem_cons]
    exact ⟨v.id.writable_toJson _, writable_string _ _, nofun⟩
  · simp [ofJson?, asRecord?, countKey, Record.required, Record.get?, List.lookup_cons,
      Id.asId?_toJson, asString?, Option.map_eq_bind]

end Variable

namespace VariableSet

/-- The set with every variable changed. -/
def map (g : Variable → Variable) (s : VariableSet) : VariableSet := ⟨s.toList.map g⟩

/-- Whether every double among the variables is finite. -/
def isFinite (s : VariableSet) : Bool := s.toList.all (·.value.isFinite)

theorem gives_toJson (s : VariableSet) :
    Gives (n + 5) s.toJson ofJson? s.isFinite (s.map Variable.reread) :=
  (Gives.ofList fun v _ => v.gives_toJson).map fun _ => rfl

end VariableSet

end Stratagem
