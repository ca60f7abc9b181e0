import Stratagem.Proofs.Binary64.Reading
import Stratagem.Proofs.Json.Parsing

/-!
# Reading documents with doubles

The text of a double may be read as another double, and the text of one that is not finite as none.
A document with doubles is still read part by part.

* `Binary64.reread?` is the double that the text of a double is read as.
* `Json.Gives` tells what a document is read as once it is written as text, if it is legible.
* `Json.Gives.ofList` and `Json.Gives.lastField` put parts together.
-/

namespace Stratagem

/-- The double that the text of a double is read as, if it is read as any. -/
def Binary64.reread? (x : Binary64) : Option Binary64 :=
  (Json.parse? x.documentText).bind Json.asFloat?

namespace Json

variable {α β γ : Type} {n : Nat} {v w : Json}

/-! ## Doubles -/

/-- The text of a double is read as a finite double if the double is finite, and as `null` if not. -/
theorem exists_readsAs_float (x : Binary64) :
    ∃ t, (Scalar.float x).ReadsAs t ∧ ((Json.scalar t).asFloat?).isSome = x.isFinite := by
  by_cases finite : x.isFinite = true
  · obtain ⟨numeral, spells, z, made, kept⟩ := Binary64.readFinite_documentText finite
    have double : numeral.toDouble = .float z := by
      rw [Numeral.toDouble, made]
      rfl
    refine ⟨.float z, .word spells.word (double ▸ ofWord?_of_numeral spells.read) rfl, ?_⟩
    rw [finite, asFloat?, if_pos kept]
    rfl
  · have text : (Scalar.float x).text = "null" := if_neg finite
    refine ⟨.null, .word ?_ ?_ rfl, ?_⟩
    · rw [text]
      exact List.all_eq_true.1 rfl
    · rw [text]
      rfl
    · rw [Bool.not_eq_true] at finite
      rw [finite]
      rfl

theorem exists_readsAs_float_reread? (n : Nat) (x : Binary64) :
    ∃ w, ReadsAs n (.float x) w ∧ w.asFloat? = x.reread? ∧ x.reread?.isSome = x.isFinite := by
  obtain ⟨t, reads, finite⟩ := exists_readsAs_float x
  have parsed : parse? x.documentText = some (.scalar t) := by
    have whole : ReadsAs 0 (.float x) (.scalar t) := reads
    have parsed := parse?_pretty_of_readsAs whole (Nat.zero_le maxDepth)
    rwa [pretty, prettyAt, Scalar.text] at parsed
  have same : (Json.scalar t).asFloat? = x.reread? := by
    rw [Binary64.reread?, parsed, Option.bind_some]
  refine ⟨.scalar t, ?_, same, same ▸ finite⟩
  cases n <;> exact reads

/-! ## What a document is read as -/

/-- Whether the text of a value, read as a document of some kind, gives a result if it is legible,
and is refused if it is not. -/
def Gives (n : Nat) (v : Json) (read : Json → Option α) (legible : Bool) (a : α) : Prop :=
  ∃ w, ReadsAs n v w ∧ read w = if legible then some a else none

variable {read : Json → Option α} {legible : Bool} {a : α}

/-- What a value without doubles is read as, its text is. -/
theorem Writable.gives (writable : v.Writable n) (back : read v = some a) : Gives n v read true a :=
  ⟨v, writable.readsAs, back⟩

theorem gives_float (n : Nat) (x : Binary64) :
    Gives n (.float x) asFloat? x.isFinite (x.reread?.getD x) := by
  obtain ⟨w, reads, same, finite⟩ := exists_readsAs_float_reread? n x
  refine ⟨w, reads, ?_⟩
  rw [same, ← finite]
  cases x.reread? <;> rfl

/-- A reader that goes on with what another reads. -/
theorem Gives.map (given : Gives n v read legible a) {h : α → β} {read' : Json → Option β}
    (made : ∀ w, read' w = (read w).map h) : Gives n v read' legible (h a) := by
  obtain ⟨w, reads, back⟩ := given
  refine ⟨w, reads, ?_⟩
  rw [made, back]
  cases legible <;> rfl

/-- A record is read if its last field is, and the others are written as they are. -/
theorem Gives.lastField (given : Gives n v read legible a) (fields : List (String × Json))
    {key : String} {h : α → β} {read' : Json → Option β}
    (others : ∀ field ∈ fields, field.2.Writable n)
    (made : ∀ w, read' (.object (fields ++ [(key, w)])) = (read w).map h) :
    Gives (n + 1) (.object (fields ++ [(key, v)])) read' legible (h a) := by
  obtain ⟨w, reads, back⟩ := given
  refine ⟨.object (fields ++ [(key, w)]), ?_, ?_⟩
  · exact List.rel_append (List.forall₂_same.2 fun field hf => ⟨rfl, (others field hf).readsAs⟩)
      (.cons ⟨rfl, reads⟩ .nil)
  · rw [made, back]
    cases legible <;> rfl

/-- A list is read if each of its items is. -/
theorem Gives.ofList {write : γ → Json} {legible : γ → Bool} {g : γ → α} {items : List γ}
    (each : ∀ c ∈ items, Gives n (write c) read (legible c) (g c)) :
    Gives (n + 1) (.ofList write items) (asList? read) (items.all legible) (items.map g) := by
  have parts : ∃ ws, List.Forall₂ (ReadsAs n) (items.map write) ws ∧
      ws.mapM read = if items.all legible then some (items.map g) else none := by
    induction items with
    | nil => exact ⟨[], .nil, rfl⟩
    | cons c items ih =>
      obtain ⟨first, others⟩ := List.forall_mem_cons.1 each
      obtain ⟨w, reads, back⟩ := first
      obtain ⟨ws, readsAll, backAll⟩ := ih others
      refine ⟨w :: ws, .cons reads readsAll, ?_⟩
      -- The first item that is not legible refuses the whole list.
      rw [List.mapM_cons, back, backAll, List.all_cons]
      cases legible c <;> cases items.all legible <;> rfl
  obtain ⟨ws, reads, back⟩ := parts
  exact ⟨.array ws, reads, back⟩

end Json

end Stratagem
