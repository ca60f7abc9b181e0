import Stratagem.Proofs.Bridge.Providers

/-!
# Published signatures

The pass takes the signature of a name from one registration and what is called from another: the
first registration is published, the only one with a provider answers. They are one registration
unless a method was first declared and then provided.

* `Registration.shape_of_answer` and `Registration.answer_of_pair`: a provider keeps to the
  signature that it is registered with.
* `BridgeTable.Keeps` says this of a table, a name and any signature, and
  `Bridge.published_signature_exact` says when it holds of the one that is published.
-/

namespace Stratagem

namespace Registration

variable {r : Registration} {ctx : Context}

/-- An answer has the shape that its method declares. -/
theorem shape_of_answer {answer : Answer} (answered : r.answer ctx = some answer) :
    answer.shape = r.signature.returns := by
  obtain ⟨provider, -, answered⟩ := Option.bind_eq_some_iff.1 answered
  obtain ⟨input, -, answered⟩ := Option.bind_eq_some_iff.1 answered
  obtain ⟨output, -, rfl⟩ := Option.map_eq_some_iff.1 answered
  exact ReturnShape.shape_answer ..

/-- A method on a pair of actors has no answer where there is no target. -/
theorem answer_of_pair (pair : r.signature.call = .actorPair) (alone : ctx.target = none) :
    r.answer ctx = none := by
  have missing : r.signature.call.input? ctx = none := by
    rw [pair, CallShape.input?, alone]
    rfl
  unfold answer
  cases r.provider with
  | none => rfl
  | some provider =>
    show (r.signature.call.input? ctx).bind _ = none
    rw [missing]
    rfl

end Registration

/-- A table keeps to a signature of a name: what the name yields has the shape that is declared, and
a method on a pair of actors yields nothing where there is no target. -/
structure BridgeTable.Keeps (t : BridgeTable) (name : String) (s : Signature) : Prop where
  shape : ∀ ctx answer, t.invoke name ctx = some answer → answer.shape = s.returns
  pair : s.call = .actorPair → ∀ ctx, ctx.target = none → t.invoke name ctx = none

namespace Bridge

variable {b : Bridge} {name : String} {first r : Registration} {later : List Registration}

theorem invoke_of_provider? (bound : b.provider? name = some r) (ctx : Context) :
    b.synchronize.invoke name ctx = r.answer ctx := by
  rw [invoke_synchronize, invoke, bound]
  rfl

/-- A name that is answered keeps to a signature if what answers is registered with its shapes, and
otherwise only as far as it does not answer. -/
theorem keeps_iff (bound : b.provider? name = some r) (s : Signature) :
    b.synchronize.Keeps name s ↔
      (s.returns = r.signature.returns ∨ ∀ ctx, r.answer ctx = none) ∧
      (s.call = .actorPair →
        r.signature.call = .actorPair ∨ ∀ ctx, ctx.target = none → r.answer ctx = none) := by
  have answers := invoke_of_provider? bound
  constructor
  · rintro ⟨shape, pair⟩
    simp only [answers] at shape pair
    refine ⟨?_, fun declared => .inr (pair declared)⟩
    by_cases silent : ∀ ctx, r.answer ctx = none
    · exact .inr silent
    · obtain ⟨ctx, answered⟩ := not_forall.1 silent
      obtain ⟨answer, answered⟩ := Option.ne_none_iff_exists'.1 answered
      exact .inl ((shape ctx answer answered).symm.trans (Registration.shape_of_answer answered))
  · rintro ⟨shape, pair⟩
    constructor
    · intro ctx answer answered
      rw [answers] at answered
      rcases shape with same | silent
      · exact (Registration.shape_of_answer answered).trans same.symm
      · rw [silent] at answered
        cases answered
    · intro declared ctx alone
      rw [answers]
      rcases pair declared with same | silent
      · exact Registration.answer_of_pair same alone
      · exact silent ctx alone

/-- If the first registration of a name that is answered has a provider, it is what answers. -/
theorem eq_of_first_live (registered : b.named name = first :: later)
    (bound : b.provider? name = some r) (live : first.isLive = true) : first = r := by
  have only := provider?_eq_some_iff.1 bound
  rw [registered, List.filter_cons_of_pos live] at only
  exact (List.cons.inj only).1

/-- The signature that is published for a name that is answered is that of its first registration.
What answers keeps to the signature that it is registered with, which is the same one if the first
registration has a provider. The published signature is kept to exactly as far as it declares the
shapes of what answers, or nothing is answered that would show it. -/
theorem published_signature_exact (b : Bridge) (name : String) (first r : Registration)
    (later : List Registration) (registered : b.named name = first :: later)
    (bound : b.provider? name = some r) :
    b.synchronize.isBound name = true ∧
    b.synchronize.signature? name = some first.signature ∧
    b.synchronize.Keeps name r.signature ∧
    (first.isLive = true → first.signature = r.signature) ∧
    (b.synchronize.Keeps name first.signature ↔
      (first.signature.returns = r.signature.returns ∨ ∀ ctx, r.answer ctx = none) ∧
      (first.signature.call = .actorPair →
        r.signature.call = .actorPair ∨ ∀ ctx, ctx.target = none → r.answer ctx = none)) := by
  refine ⟨?_, ?_, ?_, ?_, keeps_iff bound first.signature⟩
  · rw [b.synchronize_agrees.isBound, isBound, bound]
    rfl
  · rw [b.synchronize_agrees.signature?, signature?, registered]
    rfl
  · exact (keeps_iff bound r.signature).2 ⟨.inl rfl, .inl⟩
  · exact fun live => congrArg Registration.signature (eq_of_first_live registered bound live)

/-- An heir that is declared first, as it is provided later, is published as it answers. -/
theorem published_signature_exact_heir :
    let heir := Registration.naming "heir" .nil
    let b : Bridge := ⟨[.declared heir.signature, heir]⟩
    b.synchronize.isBound "heir" = true ∧
      b.synchronize.signature? "heir" = some heir.signature ∧
      b.synchronize.Keeps "heir" heir.signature := by
  intro heir b
  obtain ⟨answered, published, keeps, -, -⟩ :=
    published_signature_exact b "heir" (.declared heir.signature) heir [heir] rfl rfl
  exact ⟨answered, published, keeps⟩

/-- An heir that is declared as a yes-or-no method on a pair, and provided as a method that names an
actor, is published as the one and answers as the other, also where there is no pair. -/
theorem published_signature_misleads :
    let declared : Signature := ⟨"heir", "Treasury", .actorPair, .bool⟩
    let heir := Registration.naming "heir" .nil
    let b : Bridge := ⟨[.declared declared, heir]⟩
    let alone : Context := ⟨"", none, Actor.create .nil "Vera" .female, none, .empty⟩
    b.synchronize.isBound "heir" = true ∧
      b.synchronize.signature? "heir" = some declared ∧
      b.provider? "heir" = some heir ∧
      (declared.owner ≠ heir.signature.owner ∧ declared.call ≠ heir.signature.call ∧
        declared.returns ≠ heir.signature.returns) ∧
      b.synchronize.invoke "heir" alone = some (.actor .nil) ∧
      ¬ b.synchronize.Keeps "heir" declared := by
  intro declared heir b alone
  have answered : b.synchronize.invoke "heir" alone = some (.actor .nil) := rfl
  refine ⟨rfl, rfl, rfl, by decide, answered, fun keeps => ?_⟩
  have shape : ReturnShape.actor = .bool := keeps.shape alone _ answered
  cases shape

end Bridge

end Stratagem
