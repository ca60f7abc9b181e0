/-!
# Registries

A `Registry κ α` holds at most one value per key. Its entries stand in the order in which their
keys were first entered; no look-up depends on that order.

* `find?`, `insert`, `erase` and `modify` go by key; `insert` replaces a value in its place; `map`
  changes every value.
* `ofList` enters pairs one after the other, so the last value of a repeated key stays;
  `ofList_entries`: entering the entries of a registry makes it again.
* `find?_insert`, `find?_modify`, `find?_erase`: each operation changes the value of its own key
  and of no other.
-/

namespace Stratagem

/-- A finite map as a list of entries with distinct keys. -/
structure Registry (κ α : Type) where
  entries : List (κ × α)
  nodup_keys : (entries.map Prod.fst).Nodup

namespace Registry

variable {κ α : Type}

/-- The registry without entries. -/
def empty : Registry κ α := ⟨[], List.nodup_nil⟩

instance : Inhabited (Registry κ α) := ⟨empty⟩

/-- The keys, in entry order. -/
def keys (r : Registry κ α) : List κ := r.entries.map Prod.fst

/-- The values, in entry order. -/
def values (r : Registry κ α) : List α := r.entries.map Prod.snd

/-- How many entries there are. -/
def size (r : Registry κ α) : Nat := r.entries.length

variable [DecidableEq κ]

/-- The value under a key. -/
def find? (r : Registry κ α) (key : κ) : Option α :=
  (r.entries.find? (·.1 = key)).map Prod.snd

/-- Whether there is a value under a key. -/
def contains (r : Registry κ α) (key : κ) : Bool := (r.find? key).isSome

/-- The entry of a key with its value changed by `f`; any other entry as it is. -/
def modifyEntry (key : κ) (f : α → α) (entry : κ × α) : κ × α :=
  if entry.1 = key then (entry.1, f entry.2) else entry

theorem fst_modifyEntry (key : κ) (f : α → α) (entry : κ × α) :
    (modifyEntry key f entry).1 = entry.1 := by
  unfold modifyEntry; split <;> rfl

/-- Change the value under a key, if there is one. -/
def modify (r : Registry κ α) (key : κ) (f : α → α) : Registry κ α where
  entries := r.entries.map (modifyEntry key f)
  nodup_keys := by
    have same : Prod.fst ∘ modifyEntry key f = Prod.fst := funext (fst_modifyEntry key f)
    rw [List.map_map, same]
    exact r.nodup_keys

/-- Enter a value under a key that is new. -/
def append (r : Registry κ α) (key : κ) (value : α) (fresh : key ∉ r.keys) : Registry κ α where
  entries := r.entries ++ [(key, value)]
  nodup_keys := by
    rw [List.map_append, List.nodup_append]
    refine ⟨r.nodup_keys, by simp, ?_⟩
    intro a ha b hb same
    rw [List.map_singleton, List.mem_singleton] at hb
    subst same hb
    exact fresh ha

/-- Enter a value under a key, in place of the value that was there. -/
def insert (r : Registry κ α) (key : κ) (value : α) : Registry κ α :=
  if h : key ∈ r.keys then r.modify key fun _ => value else r.append key value h

/-- Remove the value under a key. -/
def erase (r : Registry κ α) (key : κ) : Registry κ α where
  entries := r.entries.filter (·.1 ≠ key)
  nodup_keys := r.nodup_keys.sublist (List.filter_sublist.map _)

/-- Change every value. -/
def map {β : Type} (r : Registry κ α) (f : α → β) : Registry κ β where
  entries := r.entries.map fun entry => (entry.1, f entry.2)
  nodup_keys := by
    rw [List.map_map]
    exact r.nodup_keys

/-- Enter pairs one after the other. -/
def ofList (pairs : List (κ × α)) : Registry κ α :=
  pairs.foldl (fun r pair => r.insert pair.1 pair.2) empty

/-! ## Which entries an operation leaves -/

theorem mem_insert {r : Registry κ α} {key : κ} {value : α} {entry : κ × α}
    (h : entry ∈ (r.insert key value).entries) : entry = (key, value) ∨ entry ∈ r.entries := by
  unfold insert at h
  split at h
  · obtain ⟨old, hold, rfl⟩ := List.mem_map.1 h
    unfold modifyEntry
    split
    · next same => exact .inl (by rw [same])
    · exact .inr hold
  · rcases List.mem_append.1 h with h | h
    · exact .inr h
    · exact .inl (List.mem_singleton.1 h)

theorem mem_of_mem_erase {r : Registry κ α} {key : κ} {entry : κ × α}
    (h : entry ∈ (r.erase key).entries) : entry ∈ r.entries :=
  (List.mem_filter.1 h).1

/-! ## Entries and look-ups -/

/-- What is found under a key is entered under it. -/
theorem mem_of_find? {r : Registry κ α} {key : κ} {value : α} (h : r.find? key = some value) :
    (key, value) ∈ r.entries := by
  obtain ⟨entry, found, rfl⟩ := Option.map_eq_some_iff.1 h
  have same : entry.1 = key := by simpa using List.find?_some found
  exact same ▸ List.mem_of_find?_eq_some found

theorem mem_values_of_find? {r : Registry κ α} {key : κ} {value : α}
    (h : r.find? key = some value) : value ∈ r.values :=
  List.mem_map_of_mem (f := Prod.snd) (mem_of_find? h)

/-- Every entry of a registry is found, for no other entry has its key. -/
theorem find?_of_mem {r : Registry κ α} {entry : κ × α} (h : entry ∈ r.entries) :
    r.find? entry.1 = some entry.2 := by
  obtain ⟨entries, nodup⟩ := r
  show (entries.find? (·.1 = entry.1)).map Prod.snd = some entry.2
  induction entries with
  | nil => exact absurd h List.not_mem_nil
  | cons other entries ih =>
    obtain ⟨fresh, nodup⟩ := List.nodup_cons.1 nodup
    rcases List.mem_cons.1 h with rfl | h
    · rw [List.find?_cons_of_pos (by simp)]
      rfl
    · have differ : other.1 ≠ entry.1 := fun same => fresh (same ▸ List.mem_map_of_mem h)
      rw [List.find?_cons_of_neg (by simpa using differ)]
      exact ih nodup h

theorem find?_eq_some_iff {r : Registry κ α} {key : κ} {value : α} :
    r.find? key = some value ↔ (key, value) ∈ r.entries :=
  ⟨mem_of_find?, fun h => find?_of_mem h⟩

/-- Look-ups do not depend on the order of the entries. -/
theorem find?_eq_of_perm {r r' : Registry κ α} (h : r.entries.Perm r'.entries) (key : κ) :
    r.find? key = r'.find? key :=
  Option.ext fun value => by rw [find?_eq_some_iff, find?_eq_some_iff, h.mem_iff]

/-- Every value of a registry is found under its key. -/
theorem exists_find?_of_mem_values {r : Registry κ α} {value : α} (h : value ∈ r.values) :
    ∃ key, r.find? key = some value := by
  obtain ⟨entry, met, rfl⟩ := List.mem_map.1 h
  exact ⟨entry.1, find?_of_mem met⟩

/-! ## What each operation does to the look-up -/

@[simp] theorem find?_empty (key : κ) : (empty : Registry κ α).find? key = none := rfl

theorem find?_eq_none_iff (r : Registry κ α) (key : κ) : r.find? key = none ↔ key ∉ r.keys := by
  simp only [find?, keys, Option.map_eq_none_iff, List.find?_eq_none, List.mem_map,
    decide_eq_true_eq, not_exists, not_and]

theorem contains_iff (r : Registry κ α) (key : κ) : r.contains key = true ↔ key ∈ r.keys := by
  rw [contains, Option.isSome_iff_ne_none, ne_eq, find?_eq_none_iff, Decidable.not_not]

theorem find?_modify (r : Registry κ α) (key other : κ) (f : α → α) :
    (r.modify key f).find? other =
      if other = key then (r.find? other).map f else r.find? other := by
  have found : ∀ entries : List (κ × α),
      ((entries.map (modifyEntry key f)).find? (·.1 = other)).map Prod.snd =
        if other = key then ((entries.find? (·.1 = other)).map Prod.snd).map f
        else (entries.find? (·.1 = other)).map Prod.snd := by
    intro entries
    induction entries with
    | nil => simp
    | cons entry rest ih =>
      by_cases h : entry.1 = other
      · subst h
        by_cases hk : entry.1 = key <;> simp [modifyEntry, hk]
      · simpa [fst_modifyEntry, h] using ih
  exact found r.entries

theorem find?_append (r : Registry κ α) (key other : κ) (value : α) (fresh : key ∉ r.keys) :
    (r.append key value fresh).find? other =
      if other = key then some value else r.find? other := by
  by_cases h : other = key
  · subst h
    have : r.entries.find? (·.1 = other) = none := by
      have := (r.find?_eq_none_iff other).2 fresh
      simpa [find?] using this
    simp [find?, append, this]
  · simp [find?, append, h, Ne.symm h]

theorem find?_insert (r : Registry κ α) (key other : κ) (value : α) :
    (r.insert key value).find? other = if other = key then some value else r.find? other := by
  unfold insert
  split
  · next h =>
    rw [find?_modify]
    split
    · next same =>
      subst same
      obtain ⟨v, hv⟩ := Option.isSome_iff_exists.1 ((r.contains_iff other).2 h)
      simp [hv]
    · rfl
  · exact find?_append ..

theorem find?_erase (r : Registry κ α) (key other : κ) :
    (r.erase key).find? other = if other = key then none else r.find? other := by
  by_cases h : other = key
  · subst h
    simp [find?, erase]
  · simp only [find?, erase, List.find?_filter, h, if_false]
    congr 2
    funext entry
    by_cases he : entry.1 = other
    · simp [he, h]
    · simp [he]

theorem find?_map {β : Type} (r : Registry κ α) (f : α → β) (key : κ) :
    (r.map f).find? key = (r.find? key).map f := by
  simp only [find?, map, List.find?_map, Option.map_map]
  rfl

/-! ## What the operations do to the keys -/

@[simp] theorem keys_modify (r : Registry κ α) (key : κ) (f : α → α) :
    (r.modify key f).keys = r.keys := by
  simp only [keys, modify, List.map_map]
  exact List.map_congr_left fun entry _ => fst_modifyEntry ..

/-- Entering a value adds its key at the end, if it is new. -/
theorem keys_insert (r : Registry κ α) (key : κ) (value : α) :
    (r.insert key value).keys = if key ∈ r.keys then r.keys else r.keys ++ [key] := by
  unfold insert
  split
  · exact keys_modify ..
  · simp only [keys, append, List.map_append, List.map_singleton]

/-- Pairs with keys that are new and differ are entered one behind the other. -/
theorem entries_foldl_insert {r : Registry κ α} {pairs : List (κ × α)}
    (distinct : (r.keys ++ pairs.map Prod.fst).Nodup) :
    (pairs.foldl (fun r pair => r.insert pair.1 pair.2) r).entries = r.entries ++ pairs := by
  induction pairs generalizing r with
  | nil => exact (List.append_nil _).symm
  | cons pair pairs ih =>
    have fresh : pair.1 ∉ r.keys := by
      intro old
      rw [List.nodup_append] at distinct
      exact distinct.2.2 _ old _ List.mem_cons_self rfl
    have entered : r.insert pair.1 pair.2 = r.append pair.1 pair.2 fresh := dif_neg fresh
    have keys : (r.append pair.1 pair.2 fresh).keys = r.keys ++ [pair.1] := List.map_append
    rw [List.foldl_cons, entered, ih]
    · exact List.append_assoc ..
    · rw [keys, List.append_assoc]
      exact distinct

theorem entries_ofList {pairs : List (κ × α)} (distinct : (pairs.map Prod.fst).Nodup) :
    (ofList pairs).entries = pairs :=
  entries_foldl_insert (r := empty) distinct

/-- A registry is what entering its own entries makes. -/
theorem ofList_entries (r : Registry κ α) : ofList r.entries = r := by
  have same : (ofList r.entries).entries = r.entries := entries_ofList r.nodup_keys
  generalize ofList r.entries = made at same
  obtain ⟨entries, _⟩ := made
  obtain rfl := same
  rfl

omit [DecidableEq κ] in
@[simp] theorem keys_map {β : Type} (r : Registry κ α) (f : α → β) : (r.map f).keys = r.keys := by
  simp only [keys, map, List.map_map]
  rfl

/-! ## What the operations do to the values -/

omit [DecidableEq κ] in
theorem map_congr {β : Type} {r : Registry κ α} {f g : α → β} (same : ∀ a ∈ r.values, f a = g a) :
    r.map f = r.map g := by
  have entries : (r.map f).entries = (r.map g).entries :=
    List.map_congr_left fun entry met => by rw [same _ (List.mem_map_of_mem met)]
  generalize r.map f = left, r.map g = right at entries
  obtain ⟨_, _⟩ := left
  obtain rfl := entries
  rfl

/-- What holds of all values, and of each after a change, holds of all values after the change. -/
theorem forall_values_modify {r : Registry κ α} {key : κ} {f : α → α} {p : α → Prop}
    (all : ∀ a ∈ r.values, p a) (kept : ∀ a ∈ r.values, p (f a)) :
    ∀ b ∈ (r.modify key f).values, p b := by
  intro b hb
  obtain ⟨entry, met, rfl⟩ := List.mem_map.1 hb
  obtain ⟨old, there, rfl⟩ := List.mem_map.1 met
  have held : old.2 ∈ r.values := List.mem_map_of_mem there
  unfold modifyEntry
  split
  · exact kept old.2 held
  · exact all old.2 held

end Registry

end Stratagem
