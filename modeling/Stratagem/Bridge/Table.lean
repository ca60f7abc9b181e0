import Stratagem.Bridge.Basic
import Stratagem.Registry

/-!
# The synchronization pass

Before methods are asked, the registrations of a host are gathered by name, and each name gets one
binding: a signature, and what is called if the name is asked. A table of the bindings is all that
answers from then on.

* `Bridge.groups` gathers the registrations, `Group.binding` binds the name of a group and
  `Bridge.synchronize` is the whole pass.
* `BridgeTable.invoke` and the operations after it read the table only.
-/

namespace Stratagem

/-- What is called when a method is asked. Every provider is adapted to it. -/
def Callback : Type := Context → Option Answer

/-- The provider, if there is one, as it is called. -/
def Registration.callback? (r : Registration) : Option Callback :=
  r.provider.map fun provider ctx => do
    let input ← r.signature.call.input? ctx
    (provider input).map r.signature.returns.answer

/-- What stands behind a name after the pass. -/
structure Binding where
  signature : Signature
  /-- What is called, unless the name has no provider or several. -/
  callback : Option Callback

/-! ## Gathering by name -/

/-- The registrations of one name, of which there is at least one. -/
structure Group where
  first : Registration
  later : List Registration

namespace Group

/-- The registrations in order. -/
def members (g : Group) : List Registration := g.first :: g.later

def add (g : Group) (r : Registration) : Group := { g with later := g.later ++ [r] }

/-- The binding of the name: the signature of the first registration and the provider of the only
one that has any. -/
def binding (g : Group) : Binding where
  signature := g.first.signature
  callback :=
    if g.members.countP (·.isLive) = 1 then g.members.findSome? (·.callback?) else none

end Group

namespace Bridge

/-- Put a registration to those of its name. -/
def gather (groups : Registry String Group) (r : Registration) : Registry String Group :=
  let name := r.signature.name
  groups.insert name <|
    match groups.find? name with
    | none => ⟨r, []⟩
    | some g => g.add r

/-- The registrations by name. -/
def groups (b : Bridge) : Registry String Group := b.registrations.foldl gather .empty

end Bridge

/-! ## The table -/

/-- The bindings of all registered names. -/
structure BridgeTable where
  bindings : Registry String Binding

/-- The synchronization pass. -/
def Bridge.synchronize (b : Bridge) : BridgeTable := ⟨b.groups.map Group.binding⟩

namespace BridgeTable

/-- Ask a method. -/
def invoke (t : BridgeTable) (name : String) (ctx : Context) : Option Answer := do
  let binding ← t.bindings.find? name
  let callback ← binding.callback
  callback ctx

/-- Ask a yes-or-no method. -/
def invokeBool (t : BridgeTable) (name : String) (ctx : Context) : Option Bool :=
  match t.invoke name ctx with
  | some (.bool answer) => some answer
  | _ => none

def signature? (t : BridgeTable) (name : String) : Option Signature :=
  (t.bindings.find? name).map (·.signature)

/-- Whether a name is answered. -/
def isBound (t : BridgeTable) (name : String) : Bool :=
  (t.bindings.find? name).any (·.callback.isSome)

/-- The registered names, in ascending order. -/
def methodNames (t : BridgeTable) : List String := t.bindings.keys.mergeSort fun x y => x ≤ y

/-- How many names are answered. -/
def boundCount (t : BridgeTable) : Nat := t.bindings.values.countP (·.callback.isSome)

end BridgeTable

end Stratagem
