import Mathlib.Data.List.Forall2
import Stratagem.Json.Reading

/-!
# Reading lists and texts

A list of documents is read if each of its items is, and a text is read as a document if it is JSON
and its value is read.

* `mapM_eq_ok_iff`, `mapM_eq_some_iff`: what a list is read as, item by item.
* `Json.readText_eq_ok_iff`: what a text is read as.
* `Json.asList?_ofList`: a list is read back if each of its items is.
* `Json.asOption?_ofOption`: an option is read back if its value is, and no value is `null`.
-/

namespace Stratagem

variable {α β ε : Type}

/-- Reading a list of items succeeds if every item is read, and gives what they are read as. -/
theorem mapM_eq_ok_iff {f : α → Except ε β} {items : List α} {results : List β} :
    items.mapM f = .ok results ↔ List.Forall₂ (fun a b => f a = .ok b) items results := by
  induction items generalizing results with
  | nil =>
    rw [List.mapM_nil, List.forall₂_nil_left_iff]
    exact ⟨fun h => (Except.ok.inj h).symm, fun h => congrArg Except.ok h.symm⟩
  | cons a items ih =>
    rw [List.mapM_cons]
    cases first : f a with
    | error e =>
      refine ⟨nofun, fun h => ?_⟩
      cases h with
      | cons read _ => cases first.symm.trans read
    | ok b =>
      cases rest : items.mapM f with
      | error e =>
        refine ⟨nofun, fun h => ?_⟩
        cases h with
        | cons _ others => cases rest.symm.trans (ih.2 others)
      | ok bs =>
        constructor
        · intro h
          obtain rfl := Except.ok.inj h
          exact .cons first (ih.1 rest)
        · intro h
          cases h with
          | cons read others =>
            obtain rfl := Except.ok.inj (first.symm.trans read)
            obtain rfl := Except.ok.inj (rest.symm.trans (ih.2 others))
            rfl

/-- The same of a reader that does not say why it fails. -/
theorem mapM_eq_some_iff {f : α → Option β} {items : List α} {results : List β} :
    items.mapM f = some results ↔ List.Forall₂ (fun a b => f a = some b) items results := by
  induction items generalizing results with
  | nil =>
    rw [List.mapM_nil, List.forall₂_nil_left_iff]
    exact ⟨fun h => (Option.some.inj h).symm, fun h => congrArg some h.symm⟩
  | cons a items ih =>
    simp only [List.mapM_cons, List.forall₂_cons_left_iff, Option.bind_eq_bind,
      Option.bind_eq_some_iff, Option.pure_def, Option.some.injEq, ih]
    constructor
    · rintro ⟨b, read, bs, others, rfl⟩
      exact ⟨b, bs, read, others, rfl⟩
    · rintro ⟨b, bs, read, others, rfl⟩
      exact ⟨b, read, bs, others, rfl⟩

theorem exists_mapM_eq_ok_iff {f : α → Except ε β} {items : List α} :
    (∃ results, items.mapM f = .ok results) ↔ ∀ a ∈ items, ∃ b, f a = .ok b := by
  simp only [mapM_eq_ok_iff]
  induction items with
  | nil => simp
  | cons a items ih =>
    simp only [List.forall₂_cons_left_iff, List.forall_mem_cons, ← ih]
    constructor
    · rintro ⟨results, b, bs, read, others, rfl⟩
      exact ⟨⟨b, read⟩, bs, others⟩
    · rintro ⟨⟨b, read⟩, bs, others⟩
      exact ⟨b :: bs, b, bs, read, others, rfl⟩

/-- What is read comes from an item of the list. -/
theorem exists_of_forall₂ {R : α → β → Prop} {items : List α} {results : List β} {b : β}
    (read : List.Forall₂ R items results) (met : b ∈ results) : ∃ a ∈ items, R a b := by
  induction read with
  | nil => cases met
  | cons first others ih =>
    rcases List.mem_cons.1 met with rfl | met
    · exact ⟨_, List.mem_cons_self, first⟩
    · obtain ⟨a, ha, here⟩ := ih met
      exact ⟨a, List.mem_cons_of_mem _ ha, here⟩

namespace Json

/-- A text is read if it is JSON and its value is read; whatever else is said of a text is said of a
text that is refused. -/
theorem readText_eq_ok_iff {read : Json → Except (Fault ε) α} {text : String} {a : α} :
    readText read text = .ok a ↔ ∃ v, parse? text = some v ∧ read v = .ok a := by
  unfold readText
  cases parse? text with
  | none => simp
  | some v => cases done : read v <;> simp [done]

/-- A list is read back if each of its items is. -/
theorem asList?_ofList {write : α → Json} {read : Json → Option α} {items : List α}
    (back : ∀ a ∈ items, read (write a) = some a) :
    asList? read (.ofList write items) = some items := by
  show (items.map write).mapM read = some items
  induction items with
  | nil => rfl
  | cons a items ih =>
    rw [List.map_cons, List.mapM_cons, back a List.mem_cons_self,
      ih fun x hx => back x (List.mem_cons_of_mem _ hx)]
    rfl

theorem asOption?_ofOption {write : α → Json} {read : Json → Option α}
    (refuses : read null = none) (back : ∀ a, read (write a) = some a) (a? : Option α) :
    asOption? read (ofOption write a?) = some a? := by
  cases a? with
  | none => rfl
  | some a =>
    show asOption? read (write a) = some (some a)
    have here := back a
    unfold asOption?
    split
    · next absent =>
      rw [absent, refuses] at here
      cases here
    · rw [here]
      rfl

/-- A reader goes on with what was read. -/
theorem bind_eq {a? : Option α} {a : α} {next : α → Option β} {result : Option β}
    (read : a? = some a) (rest : next a = result) : a? >>= next = result := by
  rw [read]
  exact rest

namespace Record

variable {r : Record} {name : String} {v : Json} {a : α} {read : Json → Option α}

theorem required_eq (given : r.get? name = some v) (back : read v = some a) :
    r.required name read = some a := by
  rw [required, given, Option.bind_some, back]

theorem withDefault_eq (given : r.get? name = some v) (default : α) (read : Json → Option α) :
    r.withDefault name default read = read v := by
  rw [withDefault, given]

theorem optional_eq {a? : Option α} (given : r.get? name = some v)
    (back : asOption? read v = some a?) : r.optional name read = some a? := by
  rw [optional, given]
  exact back

end Record

end Json

end Stratagem
