import Mathlib.Data.List.Induction
import Stratagem.Bridge.Table

/-!
# The table answers as the bridge does

The pass gathers registrations one after the other, counts providers and takes one out of a group
that may hold others without. The bridge says at once, from the list of all registrations, what a
name is answered with. Both come to the same.

* `Bridge.gathered_groups`: a name's group has the registrations of the name, in order.
* `Bridge.find?_bindings` is the binding of a name in terms of the bridge.
* `Bridge.synchronize_agrees` says what follows for all that is asked of the table.
-/

namespace Stratagem

/-! ## Gathering -/

namespace Bridge

/-- The registrations that are gathered under a name. -/
def gathered (groups : Registry String Group) (name : String) : List Registration :=
  ((groups.find? name).map Group.members).getD []

theorem gathered_gather (groups : Registry String Group) (r : Registration) (name : String) :
    gathered (gather groups r) name =
      gathered groups name ++ [r].filter (·.signature.name = name) := by
  unfold gathered gather
  rw [Registry.find?_insert]
  by_cases same : r.signature.name = name
  · rw [if_pos same.symm, List.filter_cons_of_pos (by simpa using same), same]
    cases groups.find? name <;> rfl
  · rw [if_neg (Ne.symm same), List.filter_cons_of_neg (by simpa using same), List.filter_nil,
      List.append_nil]

theorem gathered_foldl (registrations : List Registration) (groups : Registry String Group)
    (name : String) :
    gathered (registrations.foldl gather groups) name =
      gathered groups name ++ registrations.filter (·.signature.name = name) := by
  induction registrations generalizing groups with
  | nil => exact (List.append_nil _).symm
  | cons r rest ih =>
    rw [List.foldl_cons, ih, gathered_gather, List.append_assoc, ← List.filter_append,
      List.singleton_append]

theorem gathered_groups (b : Bridge) (name : String) : gathered b.groups name = b.named name :=
  gathered_foldl b.registrations .empty name

/-- A name has a group if it is registered, and the group has its registrations in order. -/
theorem find?_groups (b : Bridge) (name : String) :
    (b.groups.find? name = none ∧ b.named name = []) ∨
      ∃ g, b.groups.find? name = some g ∧ b.named name = g.members := by
  rw [← gathered_groups, gathered]
  cases b.groups.find? name with
  | none => exact .inl ⟨rfl, rfl⟩
  | some g => exact .inr ⟨g, rfl, rfl⟩

theorem keys_gather (groups : Registry String Group) (r : Registration) :
    (gather groups r).keys =
      if r.signature.name ∈ groups.keys then groups.keys
      else groups.keys ++ [r.signature.name] :=
  Registry.keys_insert ..

/-- What comes last stays if it has not come before. -/
theorem eraseDups_concat {α : Type} [DecidableEq α] (l : List α) (x : α) :
    (l ++ [x]).eraseDups = if x ∈ l then l.eraseDups else l.eraseDups ++ [x] := by
  rw [List.eraseDups_append, List.removeAll]
  split
  · next old => simp [old]
  · next fresh => simp [fresh, List.eraseDups_cons]

/-- Names are entered in the order in which they are first registered. -/
theorem keys_groups (b : Bridge) :
    b.groups.keys = (b.registrations.map (·.signature.name)).eraseDups := by
  obtain ⟨registrations⟩ := b
  show (registrations.foldl gather .empty).keys = _
  induction registrations using List.reverseRecOn with
  | nil => rfl
  | append_singleton rest r ih =>
    rw [List.foldl_append, List.foldl_cons, List.foldl_nil, keys_gather, ih, List.map_append,
      List.map_singleton, eraseDups_concat]
    simp only [List.mem_eraseDups]

end Bridge

/-! ## Binding -/

namespace Registration

theorem isSome_callback? (r : Registration) : r.callback?.isSome = r.isLive := Option.isSome_map

/-- What is called gives the answer of the registration. -/
theorem bind_callback? (r : Registration) (ctx : Context) :
    (r.callback?.bind fun callback => callback ctx) = r.answer ctx := by
  unfold callback? answer
  cases r.provider <;> rfl

end Registration

/-- The first provider among registrations of which one has a provider is its provider. -/
theorem Group.findSome?_callback? {registrations : List Registration} {r : Registration}
    (only : registrations.filter (·.isLive) = [r]) :
    registrations.findSome? (·.callback?) = r.callback? := by
  induction registrations with
  | nil => cases only
  | cons first rest ih =>
    cases live : first.isLive with
    | true =>
      rw [List.filter_cons_of_pos live] at only
      obtain ⟨rfl, -⟩ := List.cons.inj only
      rw [← first.isSome_callback?, Option.isSome_iff_exists] at live
      obtain ⟨callback, found⟩ := live
      rw [List.findSome?_cons, found]
    | false =>
      rw [List.filter_cons_of_neg (by simp [live])] at only
      rw [← first.isSome_callback?, Option.isSome_eq_false_iff, Option.isNone_iff_eq_none] at live
      rw [List.findSome?_cons, live]
      exact ih only

namespace Bridge

variable {b : Bridge} {name : String}

/-- What is called for a name that is registered is the provider that answers on the bridge. -/
theorem callback_binding {g : Group} (members : b.named name = g.members) :
    g.binding.callback = (b.provider? name).bind (·.callback?) := by
  unfold Group.binding
  cases bound : b.provider? name with
  | none =>
    refine if_neg fun one => ?_
    rw [List.countP_eq_length_filter, List.length_eq_one_iff, ← members] at one
    obtain ⟨r, only⟩ := one
    rw [provider?_eq_some_iff.2 only] at bound
    cases bound
  | some r =>
    have only := provider?_eq_some_iff.1 bound
    rw [members] at only
    have one : g.members.countP (·.isLive) = 1 := by
      rw [List.countP_eq_length_filter, only, List.length_singleton]
    exact (if_pos one).trans (Group.findSome?_callback? only)

/-- A name that is registered is bound under the signature of its first registration. -/
theorem find?_bindings (b : Bridge) (name : String) :
    b.synchronize.bindings.find? name =
      (b.named name).head?.map fun first =>
        ⟨first.signature, (b.provider? name).bind (·.callback?)⟩ := by
  unfold synchronize
  rw [Registry.find?_map]
  rcases b.find?_groups name with ⟨missing, unregistered⟩ | ⟨g, found, members⟩
  · rw [missing, unregistered]
    rfl
  · rw [found, ← callback_binding members, members]
    rfl

/-! ## What is asked of the table -/

theorem provider?_of_unregistered (unregistered : b.named name = []) : b.provider? name = none := by
  rw [provider?, unregistered]
  rfl

theorem keys_bindings (b : Bridge) :
    b.synchronize.bindings.keys = (b.registrations.map (·.signature.name)).eraseDups := by
  rw [← keys_groups, synchronize, Registry.keys_map]

/-- What is called for a name, registered or not, is the provider that answers on the bridge. -/
theorem callback_synchronize (b : Bridge) (name : String) :
    (b.synchronize.bindings.find? name).bind (·.callback) =
      (b.provider? name).bind (·.callback?) := by
  rw [find?_bindings]
  cases registered : b.named name with
  | nil =>
    rw [provider?_of_unregistered registered]
    rfl
  | cons first later => rfl

theorem isBound_synchronize (b : Bridge) (name : String) :
    b.synchronize.isBound name = b.isBound name := by
  rw [BridgeTable.isBound, ← Option.isSome_bind, callback_synchronize, isBound]
  cases bound : b.provider? name with
  | none => rfl
  | some r =>
    obtain ⟨-, -, live⟩ := mem_of_provider? bound
    exact r.isSome_callback?.trans live

theorem invoke_synchronize (b : Bridge) (name : String) (ctx : Context) :
    b.synchronize.invoke name ctx = b.invoke name ctx := by
  show ((b.synchronize.bindings.find? name).bind fun binding =>
    binding.callback.bind fun callback => callback ctx) = _
  rw [← Option.bind_assoc, callback_synchronize, invoke]
  cases b.provider? name with
  | none => rfl
  | some r => exact r.bind_callback? ctx

theorem boundCount_synchronize (b : Bridge) : b.synchronize.boundCount = b.boundCount := by
  have names : b.boundCount = b.synchronize.bindings.keys.countP b.isBound := by
    rw [keys_bindings]
    exact (List.mergeSort_perm _ _).countP_eq _
  rw [names, BridgeTable.boundCount, Registry.values, Registry.keys, List.countP_map,
    List.countP_map]
  refine List.countP_congr fun entry met => ?_
  have found := Registry.find?_of_mem met
  show entry.2.callback.isSome = true ↔ b.isBound entry.1 = true
  rw [← isBound_synchronize, BridgeTable.isBound, found]
  rfl

end Bridge

/-- A table of which everything that is asked is answered as a bridge answers it. -/
structure BridgeTable.Agrees (t : BridgeTable) (b : Bridge) : Prop where
  invoke : ∀ name ctx, t.invoke name ctx = b.invoke name ctx
  invokeBool : ∀ name ctx, t.invokeBool name ctx = b.invokeBool name ctx
  isBound : ∀ name, t.isBound name = b.isBound name
  signature? : ∀ name, t.signature? name = b.signature? name
  methodNames : t.methodNames = b.methodNames
  boundCount : t.boundCount = b.boundCount

theorem Bridge.synchronize_agrees (b : Bridge) : b.synchronize.Agrees b where
  invoke := b.invoke_synchronize
  invokeBool := by
    intro name ctx
    rw [BridgeTable.invokeBool, invoke_synchronize]
    rfl
  isBound := b.isBound_synchronize
  signature? := by
    intro name
    rw [BridgeTable.signature?, find?_bindings, signature?, Option.map_map]
    rfl
  methodNames := by rw [BridgeTable.methodNames, keys_bindings, methodNames]
  boundCount := b.boundCount_synchronize

end Stratagem
