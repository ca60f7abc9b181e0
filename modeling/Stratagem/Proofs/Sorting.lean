import Mathlib.Order.Lattice

/-!
# Sorting by a key

A list is sorted stably by a key if its items stand in the order of their keys, and the items of one
key in the order in which they stood before. There is only one such list.

* `StablySorted` says so, key by key.
* `StablySorted.unique`: two lists that are sorted from one in this way are the same.
* `stablySorted_mergeSort`: `List.mergeSort` sorts in this way, and `StablySorted.eq_mergeSort` that
  whatever is sorted so is what it gives.
* `mergeSort_key_eq_of_perm` and `eq_of_mergeSort_key_swap`: what the order before sorting decides is
  the order of different items of one key, and nothing else.
-/

namespace Stratagem

variable {α κ : Type} [LinearOrder κ] {key : α → κ} {items sorted sorted' : List α}

/-- The items of a list in the order of their keys, those of each key in the order in which they
stood. -/
structure StablySorted (key : α → κ) (items sorted : List α) : Prop where
  ordered : sorted.Pairwise fun a b => key a ≤ key b
  kept : ∀ k, sorted.filter (key · = k) = items.filter (key · = k)

/-- An item is in a list if the items of its key are those of a list that has it. -/
theorem mem_of_filter_key_eq {a : α} (same : ∀ k, sorted.filter (key · = k) =
    sorted'.filter (key · = k)) (met : a ∈ sorted) : a ∈ sorted' := by
  have here : a ∈ sorted.filter (key · = key a) := List.mem_filter.2 ⟨met, by simp⟩
  rw [same] at here
  exact (List.mem_filter.1 here).1

/-- Lists in the order of their keys are the same if they have the same items of each key. -/
theorem eq_of_filter_key_eq (ordered : sorted.Pairwise fun a b => key a ≤ key b)
    (ordered' : sorted'.Pairwise fun a b => key a ≤ key b)
    (same : ∀ k, sorted.filter (key · = k) = sorted'.filter (key · = k)) : sorted = sorted' := by
  induction sorted generalizing sorted' with
  | nil =>
    refine (List.eq_nil_iff_forall_not_mem.2 fun b met => ?_).symm
    exact List.not_mem_nil (mem_of_filter_key_eq (fun k => (same k).symm) met)
  | cons a rest ih =>
    cases sorted' with
    | nil => exact absurd (mem_of_filter_key_eq same List.mem_cons_self) List.not_mem_nil
    | cons b rest' =>
      obtain ⟨least, later⟩ := List.pairwise_cons.1 ordered
      obtain ⟨least', later'⟩ := List.pairwise_cons.1 ordered'
      -- each of the two first items is somewhere in the other list, so their keys are the same
      have le : key a ≤ key b := by
        have met : b ∈ a :: rest := mem_of_filter_key_eq (fun k => (same k).symm) List.mem_cons_self
        rcases List.mem_cons.1 met with rfl | met
        · exact le_refl _
        · exact least b met
      have ge : key b ≤ key a := by
        have met : a ∈ b :: rest' := mem_of_filter_key_eq same List.mem_cons_self
        rcases List.mem_cons.1 met with rfl | met
        · exact le_refl _
        · exact least' a met
      have keys : key b = key a := le_antisymm ge le
      have heads := same (key a)
      rw [List.filter_cons_of_pos (by simp), List.filter_cons_of_pos (by simp [keys])] at heads
      obtain ⟨rfl, -⟩ := List.cons.inj heads
      refine congrArg (a :: ·) (ih later later' fun k => ?_)
      have tails := same k
      by_cases here : key a = k
      · rw [List.filter_cons_of_pos (by simpa using here),
          List.filter_cons_of_pos (by simpa using here)] at tails
        exact (List.cons.inj tails).2
      · rw [List.filter_cons_of_neg (by simpa using here),
          List.filter_cons_of_neg (by simpa using here)] at tails
        exact tails

theorem StablySorted.unique (h : StablySorted key items sorted)
    (h' : StablySorted key items sorted') : sorted = sorted' :=
  eq_of_filter_key_eq h.ordered h'.ordered fun k => (h.kept k).trans (h'.kept k).symm

/-! ## Sorting by merging -/

theorem decide_key_trans (a b c : α) (ab : decide (key a ≤ key b) = true)
    (bc : decide (key b ≤ key c) = true) : decide (key a ≤ key c) = true :=
  decide_eq_true (le_trans (of_decide_eq_true ab) (of_decide_eq_true bc))

theorem decide_key_total (a b : α) :
    (decide (key a ≤ key b) || decide (key b ≤ key a)) = true := by
  simpa using le_total (key a) (key b)

theorem pairwise_mergeSort_key (key : α → κ) (items : List α) :
    (items.mergeSort fun a b => key a ≤ key b).Pairwise fun a b => key a ≤ key b :=
  (List.pairwise_mergeSort decide_key_trans decide_key_total items).imp of_decide_eq_true

theorem stablySorted_mergeSort (key : α → κ) (items : List α) :
    StablySorted key items (items.mergeSort fun a b => key a ≤ key b) where
  ordered := pairwise_mergeSort_key key items
  kept := by
    intro k
    -- items of one key are in order as they stand, so sorting keeps them as a sublist
    have tied : (items.filter (key · = k)).Pairwise fun a b => decide (key a ≤ key b) = true := by
      refine List.pairwise_of_forall_mem_list fun a ha b hb => ?_
      have ka : key a = k := by simpa using (List.mem_filter.1 ha).2
      have kb : key b = k := by simpa using (List.mem_filter.1 hb).2
      simp [ka, kb]
    have together :=
      List.sublist_mergeSort decide_key_trans decide_key_total tied List.filter_sublist
    have among := together.filter (key · = k)
    simp only [List.filter_filter, Bool.and_self] at among
    have perm := (List.mergeSort_perm items fun a b => key a ≤ key b).filter (key · = k)
    exact (among.eq_of_length perm.length_eq.symm).symm

theorem StablySorted.eq_mergeSort (h : StablySorted key items sorted) :
    sorted = items.mergeSort fun a b => key a ≤ key b :=
  h.unique (stablySorted_mergeSort key items)

/-- Items of different keys may stand in any order before they are sorted. -/
theorem mergeSort_key_eq_of_perm {items' : List α} (perm : items.Perm items')
    (distinct : ∀ a ∈ items, ∀ b ∈ items, key a = key b → a = b) :
    (items.mergeSort fun a b => key a ≤ key b) = items'.mergeSort fun a b => key a ≤ key b := by
  have sorts := List.mergeSort_perm items fun a b => decide (key a ≤ key b)
  have sorts' := List.mergeSort_perm items' fun a b => decide (key a ≤ key b)
  refine List.Perm.eq_of_pairwise (fun a b met met' le ge => ?_) (pairwise_mergeSort_key key items)
    (pairwise_mergeSort_key key items') ((sorts.trans perm).trans sorts'.symm)
  exact distinct a (sorts.mem_iff.1 met) b (perm.mem_iff.2 (sorts'.mem_iff.1 met'))
    (le_antisymm le ge)

/-- Two items of one key may not, unless they are the same. -/
theorem eq_of_mergeSort_key_swap (key : α → κ) {a b : α} (tied : key a = key b)
    (same : ((a :: b :: items).mergeSort fun a b => key a ≤ key b) =
      (b :: a :: items).mergeSort fun a b => key a ≤ key b) : a = b := by
  have left := (stablySorted_mergeSort key (a :: b :: items)).kept (key b)
  have right := (stablySorted_mergeSort key (b :: a :: items)).kept (key b)
  rw [same, right] at left
  simp only [tied, decide_true, List.filter_cons_of_pos] at left
  exact (List.cons.inj left).1.symm

/-- Sorting loses nothing and adds nothing. -/
theorem StablySorted.perm (h : StablySorted key items sorted) : sorted.Perm items := by
  rw [h.eq_mergeSort]
  exact List.mergeSort_perm ..

end Stratagem
