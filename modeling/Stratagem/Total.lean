/-!
# Totals

The total of a quantity over a list, of which the measures of stacks and queues are made.

* `total_eq_sum`: it is the sum of the quantities, from which most of its laws come.
* `total_le` and `total_lt`: a quantity that is nowhere greater has no greater total, and a smaller
  one if it is smaller somewhere.
-/

namespace Stratagem

/-- The total of a quantity over a list. -/
def total {α : Type} (f : α → Nat) : List α → Nat
  | [] => 0
  | x :: rest => f x + total f rest

variable {α β : Type} {f g : α → Nat} {items : List α}

@[simp]
theorem total_nil : total f [] = 0 := rfl

@[simp]
theorem total_cons (x : α) : total f (x :: items) = f x + total f items := rfl

/-- A total is a sum, with the zero that the library's lemmas on sums of numbers have. -/
theorem total_eq_sum (f : α → Nat) (items : List α) :
    total f items = @List.sum Nat _ Zero.ofOfNat0 (items.map f) := by
  induction items with
  | nil => rfl
  | cons x rest ih => rw [total_cons, ih, List.map_cons, List.sum_cons]

@[simp]
theorem total_append (before : List α) :
    total f (before ++ items) = total f before + total f items := by
  simp only [total_eq_sum, List.map_append, List.sum_append_nat]

@[simp]
theorem total_map (h : β → α) (items : List β) : total f (items.map h) = total (f ∘ h) items := by
  simp only [total_eq_sum, List.map_map]

theorem total_const (n : Nat) : total (fun _ => n) items = items.length * n := by
  rw [total_eq_sum, List.map_const', List.sum_replicate_nat]

theorem total_congr (eq : ∀ x ∈ items, f x = g x) : total f items = total g items := by
  rw [total_eq_sum, total_eq_sum, List.map_congr_left eq]

theorem total_le (le : ∀ x ∈ items, f x ≤ g x) : total f items ≤ total g items := by
  induction items with
  | nil => exact Nat.le_refl _
  | cons x rest ih =>
    exact Nat.add_le_add (le x List.mem_cons_self) (ih fun y hy => le y (List.mem_cons_of_mem _ hy))

theorem total_lt (le : ∀ x ∈ items, f x ≤ g x) {a : α} (ha : a ∈ items) (lt : f a < g a) :
    total f items < total g items := by
  induction items with
  | nil => cases ha
  | cons x rest ih =>
    have here := le x List.mem_cons_self
    have there : ∀ y ∈ rest, f y ≤ g y := fun y hy => le y (List.mem_cons_of_mem _ hy)
    rcases List.mem_cons.1 ha with rfl | ha
    · exact Nat.add_lt_add_of_lt_of_le lt (total_le there)
    · exact Nat.add_lt_add_of_le_of_lt here (ih there ha)

end Stratagem
