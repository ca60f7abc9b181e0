import Stratagem.Scheme.Basic
import Stratagem.World.Basic

/-!
# The bridge to the host

Rules ask methods of the host by name. A host registers methods, with or without a provider, and
the bridge made of the registrations answers a name exactly if one registration of that name has a
provider; a name without one, or with several, has no answer.

A provider is a function between the types that its signature declares, so an answer always has
the declared shape. A method on a pair of actors is not run where there is no target.

* `Bridge.provider?` is the registration that answers a name, `Bridge.invoke` its answer.
* `Bridge.signature?` is the signature of the first registration of a name.
-/

namespace Stratagem

/-- Everything a method may see of the evaluation that asks it. -/
structure Context where
  rule : String
  /-- The scheme that is being checked, if evaluation came through one. -/
  scheme : Option Scheme
  conspirator : Actor
  target : Option Actor
  world : World

/-! ## Shapes -/

/-- What a method receives. -/
inductive CallShape
  /-- The whole context. -/
  | scheme
  /-- The conspirator, the target and the world. -/
  | actorPair
deriving DecidableEq, Repr

namespace CallShape

/-- The arguments of a method of this shape. -/
def Input : CallShape → Type
  | .scheme => Context
  | .actorPair => Actor × Actor × World

/-- The arguments that a context offers; a pair needs a target. -/
def input? : (shape : CallShape) → Context → Option shape.Input
  | .scheme, ctx => some ctx
  | .actorPair, ctx => ctx.target.map fun target => (ctx.conspirator, target, ctx.world)

end CallShape

/-- What a method returns. -/
inductive ReturnShape
  | bool | actor | actorPair | clan | family
deriving DecidableEq, Repr

/-- An answer of a method. -/
inductive Answer
  | bool (b : Bool)
  | actor (id : ActorId)
  | actorPair (conspirator target : ActorId)
  | clan (id : ClanId)
  | family (id : FamilyId)
deriving DecidableEq, Repr

def Answer.shape : Answer → ReturnShape
  | .bool _ => .bool
  | .actor _ => .actor
  | .actorPair _ _ => .actorPair
  | .clan _ => .clan
  | .family _ => .family

namespace ReturnShape

/-- The results of a method of this shape. -/
def Output : ReturnShape → Type
  | .bool => Bool
  | .actor => ActorId
  | .actorPair => ActorId × ActorId
  | .clan => ClanId
  | .family => FamilyId

/-- A result as an answer. -/
def answer : (shape : ReturnShape) → shape.Output → Answer
  | .bool, b => .bool b
  | .actor, id => .actor id
  | .actorPair, (c, t) => .actorPair c t
  | .clan, id => .clan id
  | .family, id => .family id

theorem shape_answer (shape : ReturnShape) (x : shape.Output) : (shape.answer x).shape = shape := by
  cases shape <;> rfl

end ReturnShape

/-! ## Registrations -/

/-- Name and declared shapes of a method. -/
structure Signature where
  name : String
  /-- The type that the method is declared on. -/
  owner : String
  call : CallShape
  returns : ReturnShape
deriving DecidableEq, Repr

/-- The functions that may stand behind a signature. -/
def Signature.Provider (s : Signature) : Type := s.call.Input → Option s.returns.Output

/-- A method of the host, with a provider if there is one at present. -/
structure Registration where
  signature : Signature
  provider : Option signature.Provider

namespace Registration

/-- A method that has no provider at present. -/
def declared (signature : Signature) : Registration := ⟨signature, none⟩

/-- Whether there is a provider. -/
def isLive (r : Registration) : Bool := r.provider.isSome

/-- Whether the provider is run in a context. -/
def runsIn (r : Registration) (ctx : Context) : Bool :=
  r.isLive && (r.signature.call.input? ctx).isSome

/-- The answer in a context. -/
def answer (r : Registration) (ctx : Context) : Option Answer := do
  let provider ← r.provider
  let input ← r.signature.call.input? ctx
  (provider input).map r.signature.returns.answer

end Registration

/-! ## The bridge -/

/-- The methods of the host, in the order of their registration. -/
structure Bridge where
  registrations : List Registration

namespace Bridge

/-- The bridge without methods. -/
def empty : Bridge := ⟨[]⟩

instance : Inhabited Bridge := ⟨empty⟩

/-- The registrations of a name. -/
def named (b : Bridge) (name : String) : List Registration :=
  b.registrations.filter (·.signature.name = name)

/-- The registration that answers a name: the only one with a provider. -/
def provider? (b : Bridge) (name : String) : Option Registration :=
  match (b.named name).filter (·.isLive) with
  | [r] => some r
  | _ => none

theorem provider?_eq_some_iff {b : Bridge} {name : String} {r : Registration} :
    b.provider? name = some r ↔ (b.named name).filter (·.isLive) = [r] := by
  unfold provider?
  split
  · next only live => rw [live, Option.some_inj, List.singleton_inj]
  · next several => exact ⟨nofun, fun live => absurd live (several r)⟩

/-- What answers a name is a registration of that name with a provider. -/
theorem mem_of_provider? {b : Bridge} {name : String} {r : Registration}
    (bound : b.provider? name = some r) :
    r ∈ b.registrations ∧ r.signature.name = name ∧ r.isLive = true := by
  have live : r ∈ (b.named name).filter (·.isLive) := by
    rw [provider?_eq_some_iff.1 bound]
    exact List.mem_singleton_self r
  obtain ⟨named, live⟩ := List.mem_filter.1 live
  obtain ⟨registered, name⟩ := List.mem_filter.1 named
  exact ⟨registered, of_decide_eq_true name, live⟩

/-- Ask a method. -/
def invoke (b : Bridge) (name : String) (ctx : Context) : Option Answer :=
  (b.provider? name).bind (·.answer ctx)

/-- The registration whose provider is run when a name is asked in a context. -/
def runs? (b : Bridge) (name : String) (ctx : Context) : Option Registration :=
  (b.provider? name).filter (·.runsIn ctx)

/-- Ask a yes-or-no method. -/
def invokeBool (b : Bridge) (name : String) (ctx : Context) : Option Bool :=
  match b.invoke name ctx with
  | some (.bool answer) => some answer
  | _ => none

/-- Whether a name is answered. -/
def isBound (b : Bridge) (name : String) : Bool := (b.provider? name).isSome

/-- The signature under which a name was first registered. -/
def signature? (b : Bridge) (name : String) : Option Signature :=
  (b.named name).head?.map (·.signature)

/-- The registered names, in ascending order. -/
def methodNames (b : Bridge) : List String :=
  (b.registrations.map (·.signature.name)).eraseDups.mergeSort fun x y => x ≤ y

/-- How many names are answered. -/
def boundCount (b : Bridge) : Nat := b.methodNames.countP b.isBound

end Bridge

end Stratagem
