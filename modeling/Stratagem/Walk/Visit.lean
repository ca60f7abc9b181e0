import Stratagem.Bridge.Basic
import Stratagem.Graph.Basic
import Stratagem.Message

/-!
# Visits of nodes

An evaluation visits nodes on behalf of a conspirator and, usually, a target. A `Visit` is one
arrival at a node: the channel it came through, the parties, and the actor that the branch is
currently about.

* `Visit.situation` is what the visit guard compares: the node and channel with the identifiers of
  the actors.
* `Visit.decide` chooses where to go on from a node, `Visit.asks?` says which method of the host it
  asks on the way. Neither looks at other visits.
-/

namespace Stratagem

/-- An arrival at a node. -/
structure Visit where
  node : NodeId
  /-- The channel of arrival; none at Start and at diagnostic nodes. -/
  channel : Option Channel
  parties : Parties
  /-- The actor that the branch is currently about, which the channel `[Actor]` reads. -/
  subject : Option Actor
deriving DecidableEq, Repr

/-- What makes two visits of one path alike. -/
structure Situation where
  node : NodeId
  channel : Option Channel
  conspirator : ActorId
  target : Option ActorId
  subject : Option ActorId
deriving DecidableEq, Repr

/-- What every visit of one evaluation shares. -/
structure Evaluation where
  /-- The rule that is asked for. -/
  rule : String
  /-- The scheme that is being checked, if any. -/
  scheme : Option Scheme
  world : World
  bridge : Bridge
  settings : WalkSettings

/-- Where a visit leads. -/
inductive Decision
  /-- The branch ends. -/
  | stop
  /-- The whole evaluation ends. -/
  | halt
  /-- The branch goes on through every wire of a port. -/
  | follow (port : Port) (parties : Parties) (subject : Option Actor)
deriving DecidableEq, Repr

namespace Evaluation

/-- What a method of the host sees. -/
def context (e : Evaluation) (p : Parties) : Context where
  rule := e.rule
  scheme := e.scheme
  conspirator := p.conspirator
  target := p.target
  world := e.world

/-- Ask a method of the host about the parties. -/
def ask (e : Evaluation) (p : Parties) (method : String) : Option Answer :=
  e.bridge.invoke method (e.context p)

end Evaluation

/-- The value that a selector selects, where a method's answer of another shape selects nothing. -/
def Selector.wanted? {α : Type} (ask : String → Option Answer) (value? : Answer → Option α) :
    Selector α → Option α
  | .fixed value => some value
  | .invoked method => (ask method).bind value?

namespace Answer

def actor? : Answer → Option ActorId
  | .actor id => some id
  | _ => none

def clan? : Answer → Option ClanId
  | .clan id => some id
  | _ => none

def family? : Answer → Option FamilyId
  | .family id => some id
  | _ => none

end Answer

namespace Visit

/-- The first visit: the Start node, about the target if there is one. -/
def first (start : NodeId) (p : Parties) : Visit where
  node := start
  channel := none
  parties := p
  subject := some (p.target.getD p.conspirator)

/-- The single actor that a condition is about. -/
def actor? (v : Visit) : Option Actor :=
  match v.channel with
  | some .conspirator => some v.parties.conspirator
  | some .target => v.parties.target
  | some .actor | some .dual | none => v.subject

def situation (v : Visit) : Situation where
  node := v.node
  channel := v.channel
  conspirator := v.parties.conspirator.id
  target := v.parties.target.map (·.id)
  subject := v.subject.map (·.id)

/-! ## Deciding -/

/-- Go on with the same actors. -/
def follow (v : Visit) (port : Port) : Decision := .follow port v.parties v.subject

/-- Judge the single actor that a condition is about, which the branch is about from then on. -/
def judge (v : Visit) (port : Actor → Port) : Decision :=
  match v.actor? with
  | some a => .follow (port a) v.parties (some a)
  | none => .stop

/-- Judge the two parties; the branch ends where there is no target. -/
def judgePair (v : Visit) (holds : Actor → Actor → Bool) : Decision :=
  match v.parties.target with
  | some t => v.follow (Port.ofBool (holds v.parties.conspirator t))
  | none => .stop

/-- Whether the parent relation that the channel asks about holds between the parties. -/
def parentHolds (channel : Option Channel) (conspirator target : Actor) : Bool :=
  match channel with
  | some .conspirator => conspirator.isParentOf target
  | some .target => target.isParentOf conspirator
  | some .actor | some .dual | none =>
    conspirator.isParentOf target || target.isParentOf conspirator

/-- The parties after an actor was found through a channel: in the role that the channel names. -/
def bindActor (p : Parties) (channel : Option Channel) (a : Actor) : Parties :=
  match channel with
  | some .conspirator => { p with conspirator := a }
  | some .target | some .dual => { p with target := some a }
  | some .actor | none => p

/-- Go on from the answer of a method. An actor or a pair that the world does not have counts as
no answer; one that it has takes the place of the parties. -/
def followAnswer (v : Visit) (world : World) : Option Answer → Decision
  | none => v.follow .null
  | some (.bool b) => v.follow (Port.ofBool b)
  | some (.actor id) =>
    match world.actor? id with
    | some a => .follow .true (bindActor v.parties v.channel a) (some a)
    | none => v.follow .null
  | some (.actorPair c t) =>
    match world.actor? c, world.actor? t with
    | some conspirator, some target => .follow .true ⟨conspirator, some target⟩ (some target)
    | _, _ => v.follow .null
  | some (.clan _) | some (.family _) => v.follow .true

/-- Decide at a node of a kind. -/
def decide (e : Evaluation) (v : Visit) : NodeKind → Decision
  | .start => v.follow .run
  | .gender => v.judge fun a =>
    match a.gender with
    | .male => .male
    | .female => .female
  | .getActor selector => v.judge fun a =>
    Port.ofMatch (selector.wanted? (e.ask v.parties) Answer.actor? = some a.id)
  | .getClan selector => v.judge fun a =>
    let wanted := selector.wanted? (e.ask v.parties) Answer.clan?
    Port.ofMatch (wanted.isSome && a.clan = wanted)
  | .getRole role => v.judge fun a => Port.ofMatch (a.role = some role)
  | .getFamily selector => v.judge fun a =>
    let wanted := selector.wanted? (e.ask v.parties) Answer.family?
    Port.ofMatch (wanted.isSome && a.family = wanted)
  | .isAutonomous => v.judge fun a => Port.ofBool a.autonomous
  | .isParent => v.judgePair (parentHolds v.channel)
  | .isSibling => v.judgePair Actor.isSiblingOf
  | .invoke method => v.followAnswer e.world (e.ask v.parties method)
  | .error _ => if e.settings.stopAtFirstError then .halt else v.follow .next
  | .warning _ => v.follow .next

/-- The method that a selector asks, if it is evaluated at all. -/
def selectorAsks? {α : Type} (v : Visit) : Selector α → Option String
  | .fixed _ => none
  | .invoked method => v.actor?.map fun _ => method

/-- The method of the host that is asked at a node of a kind. -/
def asks? (v : Visit) : NodeKind → Option String
  | .getActor selector => v.selectorAsks? selector
  | .getClan selector => v.selectorAsks? selector
  | .getFamily selector => v.selectorAsks? selector
  | .invoke method => some method
  | _ => none

end Visit

end Stratagem
