import Stratagem.Proofs.Bridge.Table
import Stratagem.Proofs.Walk.Lockstep
import Stratagem.Proofs.Walk.Situation

/-!
# Registrations with a provider

What a name is answered is up to the registrations that have a provider. Those without, and the
order of registration, are of no account.

* `Bridge.isBound_iff` and `Bridge.invoke_of_bound` say when a name is answered and with what.
* `Bridge.provider?_eq_of_perm` and `Bridge.boundCount_eq_of_perm`: bridges with the same live
  registrations, in any order, have the same providers and as many of them.
* `Arbiter.events_withBridge` carries this to whole evaluations.
* `Bridge.live_registrations_decide` is the result for the table that the pass makes.
-/

namespace Stratagem

/-! ## What a name is answered -/

namespace Bridge

variable {b c : Bridge} {name : String}

/-- The registrations with a provider. -/
def live (b : Bridge) : List Registration := b.registrations.filter (·.isLive)

theorem filter_isLive_named (b : Bridge) (name : String) :
    (b.named name).filter (·.isLive) = b.live.filter (·.signature.name = name) :=
  List.filter_comm ..

/-- A name is answered if one of its registrations has a provider and no other has. -/
theorem isBound_iff (b : Bridge) (name : String) :
    b.isBound name = true ↔ (b.named name).countP (·.isLive) = 1 := by
  rw [isBound, Option.isSome_iff_exists, List.countP_eq_length_filter, List.length_eq_one_iff]
  exact exists_congr fun r => provider?_eq_some_iff

/-- A name that is answered is answered by any registration of it that has a provider. -/
theorem invoke_of_bound {r : Registration} (registered : r ∈ b.named name) (live : r.isLive = true)
    (bound : b.isBound name = true) (ctx : Context) : b.invoke name ctx = r.answer ctx := by
  obtain ⟨only, found⟩ := Option.isSome_iff_exists.1 bound
  have met : r ∈ (b.named name).filter (·.isLive) := List.mem_filter.2 ⟨registered, live⟩
  rw [provider?_eq_some_iff.1 found, List.mem_singleton] at met
  rw [invoke, found, met]
  rfl

theorem invoke_of_not_bound (unbound : b.isBound name = false) (ctx : Context) :
    b.invoke name ctx = none := by
  rw [isBound, Option.isSome_eq_false_iff, Option.isNone_iff_eq_none] at unbound
  rw [invoke, unbound]
  rfl

theorem invokeBool_congr {ctx : Context} (same : c.invoke name ctx = b.invoke name ctx) :
    c.invokeBool name ctx = b.invokeBool name ctx := by
  simp only [invokeBool, same]

theorem invokeBool_of_not_bound (unbound : b.isBound name = false) (ctx : Context) :
    b.invokeBool name ctx = none := by
  simp only [invokeBool, invoke_of_not_bound unbound]

/-! ## The same providers in another order -/

theorem provider?_eq_of_perm (same : b.live.Perm c.live) (name : String) :
    c.provider? name = b.provider? name := by
  refine Option.ext fun r => ?_
  have perm := same.filter (·.signature.name = name)
  rw [provider?_eq_some_iff, provider?_eq_some_iff, filter_isLive_named, filter_isLive_named,
    ← List.perm_singleton, ← List.perm_singleton]
  exact (perm.congr_left [r]).symm

theorem isBound_eq_of_perm (same : b.live.Perm c.live) (name : String) :
    c.isBound name = b.isBound name := by
  rw [isBound, isBound, provider?_eq_of_perm same]

theorem invoke_eq_of_perm (same : b.live.Perm c.live) (name : String) (ctx : Context) :
    c.invoke name ctx = b.invoke name ctx := by
  rw [invoke, invoke, provider?_eq_of_perm same]

theorem nodup_methodNames (b : Bridge) : b.methodNames.Nodup := by
  rw [methodNames, (List.mergeSort_perm _ _).nodup_iff, ← keys_groups]
  exact b.groups.nodup_keys

theorem mem_methodNames_of_bound (bound : b.isBound name = true) : name ∈ b.methodNames := by
  obtain ⟨r, found⟩ := Option.isSome_iff_exists.1 bound
  obtain ⟨registered, named, -⟩ := mem_of_provider? found
  rw [methodNames, List.mem_mergeSort, List.mem_eraseDups, ← named]
  exact List.mem_map_of_mem registered

/-- As many names are answered: declarations may add names or remove them, but none that is. -/
theorem boundCount_eq_of_perm (same : b.live.Perm c.live) : c.boundCount = b.boundCount := by
  have mem : ∀ (d : Bridge) name,
      name ∈ d.methodNames.filter d.isBound ↔ d.isBound name = true := by
    intro d name
    rw [List.mem_filter, and_iff_right_of_imp mem_methodNames_of_bound]
  have perm : (c.methodNames.filter c.isBound).Perm (b.methodNames.filter b.isBound) := by
    rw [List.perm_ext_iff_of_nodup (c.nodup_methodNames.filter _) (b.nodup_methodNames.filter _)]
    intro name
    rw [mem, mem, isBound_eq_of_perm same]
  rw [boundCount, boundCount, List.countP_eq_length_filter, List.countP_eq_length_filter]
  exact perm.length_eq

end Bridge

/-! ## Evaluations over two bridges -/

/-- The arbiter with another host. -/
def Arbiter.withBridge (a : Arbiter) (b : Bridge) : Arbiter := { a with bridge := b }

/-- Judging is the same with any two hosts whose methods answer the same. -/
theorem Arbiter.events_withBridge (a : Arbiter) {b c : Bridge}
    (same : ∀ name ctx, c.invoke name ctx = b.invoke name ctx) (world : World) (rule : String)
    (scheme : Option Scheme) (p : Parties) :
    (a.withBridge c).events world rule scheme p = (a.withBridge b).events world rule scheme p := by
  cases known : a.rules rule with
  | none => simp only [events, withBridge, known]
  | some g =>
    refine events_congr (P := fun _ => True) known known rfl ?_ ?_ ?_
    · exact fun _ _ => trivial
    · exact fun _ _ _ _ => trivial
    · exact fun v _ => Visit.outcome_congr rfl fun kind method _ _ => ⟨rfl, same method _⟩

namespace Bridge

/-- What a host answers is settled by its registrations with a provider. The table of the pass
agrees with the bridge; a name is answered if exactly one registration of it has a provider, then as
this provider answers, and otherwise not at all. Another host with the same live registrations, in
any order and with any others among them, gives the same answers, binds as many names, and leads to
the same verdict on every rule and scheme. -/
theorem live_registrations_decide (b : Bridge) :
    b.synchronize.Agrees b ∧
    (∀ name,
      (b.synchronize.isBound name = true ↔ (b.named name).countP (·.isLive) = 1) ∧
      (∀ r ∈ b.named name, r.isLive = true → b.synchronize.isBound name = true →
        ∀ ctx, b.synchronize.invoke name ctx = r.answer ctx) ∧
      (b.synchronize.isBound name = false → ∀ ctx,
        b.synchronize.invoke name ctx = none ∧ b.synchronize.invokeBool name ctx = none)) ∧
    ∀ c : Bridge, b.live.Perm c.live →
      (∀ name, c.synchronize.isBound name = b.synchronize.isBound name ∧ ∀ ctx,
        c.synchronize.invoke name ctx = b.synchronize.invoke name ctx ∧
        c.synchronize.invokeBool name ctx = b.synchronize.invokeBool name ctx) ∧
      c.synchronize.boundCount = b.synchronize.boundCount ∧
      ∀ (a : Arbiter) (world : World) (p : Parties),
        (∀ rule, (a.withBridge c).judge world rule p = (a.withBridge b).judge world rule p) ∧
        ∀ s : Scheme,
          (a.withBridge c).judgeScheme world s p = (a.withBridge b).judgeScheme world s p ∧
          s.check (a.withBridge c) world p = s.check (a.withBridge b) world p := by
  have table := synchronize_agrees
  refine ⟨table b, fun name => ?_, fun c same => ?_⟩
  · simp only [(table b).isBound, (table b).invoke, (table b).invokeBool]
    refine ⟨b.isBound_iff name, ?_, ?_⟩
    · exact fun r registered live bound ctx => invoke_of_bound registered live bound ctx
    · exact fun unbound ctx =>
        ⟨invoke_of_not_bound unbound ctx, invokeBool_of_not_bound unbound ctx⟩
  · simp only [(table b).isBound, (table b).invoke, (table b).invokeBool, (table b).boundCount,
      (table c).isBound, (table c).invoke, (table c).invokeBool, (table c).boundCount]
    have answers := invoke_eq_of_perm same
    refine ⟨fun name => ⟨isBound_eq_of_perm same name, fun ctx => ?_⟩,
      boundCount_eq_of_perm same, fun a world p => ?_⟩
    · exact ⟨answers name ctx, invokeBool_congr (answers name ctx)⟩
    · have events := fun rule scheme => a.events_withBridge answers world rule scheme p
      refine ⟨fun rule => congrArg Verdict.ofEvents (events rule none), fun s => ?_⟩
      have judged := events s.ruleId (some s)
      refine ⟨congrArg Verdict.ofEvents judged, congrArg Verdict.ofEvents ?_⟩
      simp only [Scheme.events, judged]

/-- A host that names an heir and a rival answers as one does that has them the other way round,
among declarations of the heir and of a third method. -/
theorem live_registrations_decide_reordered :
    let heir := Registration.naming "heir" .nil
    let rival := Registration.naming "rival" ⟨⟨1⟩⟩
    let b : Bridge := ⟨[heir, rival]⟩
    let c : Bridge :=
      ⟨[.declared heir.signature, rival, .declared ⟨"spy", "Guild", .actorPair, .bool⟩, heir]⟩
    b.live.Perm c.live ∧
      (∀ ctx, c.synchronize.invoke "heir" ctx = some (.actor .nil)) ∧
      (∀ ctx, c.synchronize.invoke "spy" ctx = none) ∧
      c.synchronize.boundCount = 2 := by
  intro heir rival b c
  have same : b.live.Perm c.live := .swap rival heir []
  obtain ⟨-, single, moved⟩ := live_registrations_decide b
  obtain ⟨answers, count, -⟩ := moved c same
  obtain ⟨-, answered, -⟩ := single "heir"
  obtain ⟨-, -, unanswered⟩ := single "spy"
  refine ⟨same, fun ctx => ?_, fun ctx => ?_, count.trans rfl⟩
  · rw [((answers "heir").2 ctx).1]
    exact answered heir List.mem_cons_self rfl rfl ctx
  · rw [((answers "spy").2 ctx).1]
    exact (unanswered rfl ctx).1

end Bridge

end Stratagem
