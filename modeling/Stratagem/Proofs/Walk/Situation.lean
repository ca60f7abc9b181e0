import Stratagem.Proofs.Walk.Bindings
import Stratagem.Proofs.Walk.Simulation

/-!
# What a situation determines

The visit guard takes two visits of one path for the same if they are in one situation. A situation
has the identifiers of the actors; what a visit decides and hands on depends on the actors
themselves. The two come apart where different actors share an identifier, and only there.

* `Visit.DecidesAs`: two visits decide alike. `SituationsDecide` and `CyclesRecur` are what the
  guard relies on: on one path a situation determines the decision, and a cycle is reported only
  where the visit would have gone the way of the one that it repeats.
* A `Route` brings an actor of the roster to the subject of a branch and leaves the parties as they
  are; `RuleGraph.comparing` visits one node after each of two routes.
* `situations_decide_iff_coherent`: both hold exactly for coherent parties.
-/

namespace Stratagem

/-- Two visits of one node decide alike: both stop or end the evaluation, or both follow one port
with the same actors. -/
def Visit.DecidesAs (e : Evaluation) (g : RuleGraph) (v w : Visit) : Prop :=
  ∀ kind, g.kind? v.node = some kind → v.decide e kind = w.decide e kind

/-- Whatever rule is judged and whatever the host answers, two visits that are met on one path in
one situation decide alike. -/
def SituationsDecide (world : World) (p : Parties) (scheme : Option Scheme) : Prop :=
  ∀ (a : Arbiter) (rule : String) (g : RuleGraph) (start : NodeId),
    a.entry rule = .ok (g, start) → ∀ x ∈ (a.exploration world rule scheme p).arrivals,
      ∀ u ∈ x.walk, ∀ w ∈ x.walk, u.situation = w.situation →
        u.DecidesAs (a.evaluation world rule scheme) g w

/-- Whatever rule is judged and whatever the host answers, a cycle is reported only where the visit
that is refused would decide as the visit that it repeats. -/
def CyclesRecur (world : World) (p : Parties) (scheme : Option Scheme) : Prop :=
  ∀ (a : Arbiter) (rule : String) (g : RuleGraph) (start : NodeId),
    a.entry rule = .ok (g, start) → ∀ x ∈ (a.exploration world rule scheme p).arrivals,
      x.visit.fault? (a.evaluation world rule scheme) x.path = some .cycle →
      ∀ u ∈ x.path, u.situation = x.visit.situation →
        u.DecidesAs (a.evaluation world rule scheme) g x.visit

variable {world : World} {p : Parties} {scheme : Option Scheme}

theorem SituationsDecide.cyclesRecur (decides : SituationsDecide world p scheme) :
    CyclesRecur world p scheme := by
  intro a rule g start entry x met _ u hu same
  exact decides a rule g start entry x met u (List.mem_cons_of_mem _ hu) _ List.mem_cons_self same

/-- For coherent parties a situation is all there is to a visit. -/
theorem Coherent.situationsDecide (coherent : Coherent world p) :
    SituationsDecide world p scheme := by
  intro a rule g start entry x met u hu w hw same
  rw [Arbiter.exploration, entry] at met
  have walk := WalkPath.of_mem_arrivals .start met
  have one : u = w :=
    coherent.visit_eq (walk.binds_roster u hu) (walk.binds_roster w hw) same
  subst one
  exact fun _ _ => rfl

/-! ## Routes to an actor -/

/-- A method of the host that answers with one actor whatever it is asked about. -/
def Registration.naming (method : String) (id : ActorId) : Registration where
  signature := { name := method, owner := "Host", call := .scheme, returns := .actor }
  provider := some fun _ => some id

/-- A way to make a branch about an actor of the roster. -/
inductive Route
  | conspirator
  | target
  /-- Have the host name the key of an actor of the world. -/
  | world (key : ActorId)

namespace Route

/-- The node that a route goes through, where the host is asked a method. -/
def kind (method : String) : Route → NodeKind
  | .conspirator | .target => .isAutonomous
  | .world _ => .invoke method

def channel : Route → Channel
  | .conspirator => .conspirator
  | .target => .target
  | .world _ => .actor

def key : Route → ActorId
  | .conspirator | .target => .nil
  | .world key => key

/-- The actor at the end of a route. -/
def actor? (world : World) (p : Parties) : Route → Option Actor
  | .conspirator => some p.conspirator
  | .target => p.target
  | .world key => world.actor? key

/-- There is a route to every actor of the roster. -/
theorem exists_of_mem_roster {a : Actor} (h : a ∈ roster world p) :
    ∃ r : Route, r.actor? world p = some a := by
  rcases List.mem_cons.1 h with rfl | h
  · exact ⟨.conspirator, rfl⟩
  · rcases List.mem_append.1 h with h | h
    · exact ⟨.target, Option.mem_toList.1 h⟩
    · obtain ⟨key, found⟩ := Registry.exists_find?_of_mem_values h
      exact ⟨.world key, found⟩

/-- A visit on a route goes on about the actor at its end, with the parties as they are. -/
theorem decide_eq {r : Route} {e : Evaluation} {v : Visit} {a : Actor} {method : String}
    (found : r.actor? e.world v.parties = some a) (arrived : v.channel = some r.channel)
    (named : e.ask v.parties method = some (.actor r.key)) :
    ∃ answer, v.decide e (r.kind method) = .follow (Port.ofBool answer) v.parties (some a) := by
  cases r with
  | conspirator | target =>
    -- a condition on one actor makes the branch about that actor, whatever it finds
    refine ⟨a.autonomous, ?_⟩
    have about : v.actor? = some a := by
      rw [Visit.actor?, arrived]
      exact found
    show v.judge _ = _
    rw [Visit.judge, about]
  | world key =>
    -- through the channel of the subject an answer replaces neither of the parties
    refine ⟨true, ?_⟩
    have there : e.world.actor? key = some a := found
    have answer : e.ask v.parties method = some (.actor key) := named
    show v.followAnswer e.world (e.ask v.parties method) = _
    rw [answer]
    simp only [Visit.followAnswer, there, arrived]
    rfl

end Route

/-! ## Two routes to one node -/

/-- A graph that goes one route to its Warning node, and from there another route back to it. -/
def RuleGraph.comparing (r s : Route) : RuleGraph where
  document :=
    { id := "comparing"
      nodes := [.start, r.kind "first", .warning "", s.kind "second"]
      wires := [⟨0, .run, 1, some r.channel⟩, ⟨1, .true, 2, none⟩, ⟨1, .false, 2, none⟩,
        ⟨2, .next, 3, some s.channel⟩, ⟨3, .true, 2, none⟩, ⟨3, .false, 2, none⟩] }
  wellFormed := by
    refine (GraphDocument.violation?_eq_none_iff _).1 ?_
    cases r <;> cases s <;> rfl

/-- An arbiter of that graph, with a host that names the actors of the world on the routes. -/
def Arbiter.comparing (r s : Route) : Arbiter where
  rules := fun _ => some (.comparing r s)
  bridge := ⟨[.naming "first" r.key, .naming "second" s.key]⟩

namespace Route

variable {r s : Route} {a b : Actor}

/-- The visit of the Warning node about an actor. -/
def warned (p : Parties) (a : Actor) : Visit := ⟨2, none, p, some a⟩

/-- The visits that come before the second one of the Warning node, the nearest first. -/
def approach (p : Parties) (r s : Route) (a : Actor) : List Visit :=
  [⟨3, some s.channel, p, some a⟩, warned p a,
    ⟨1, some r.channel, p, some (p.target.getD p.conspirator)⟩, .first 0 p]

/-- The graph leads along both routes, whatever the routes are. -/
theorem foremostPath_comparing (hr : r.actor? world p = some a) (hs : s.actor? world p = some b) :
    ForemostPath ((Arbiter.comparing r s).evaluation world "" scheme) (.comparing r s)
      (.first 0 p) (approach p r s a) (warned p b) := by
  let e := (Arbiter.comparing r s).evaluation world "" scheme
  let g := RuleGraph.comparing r s
  let there : Visit := ⟨1, some r.channel, p, some (p.target.getD p.conspirator)⟩
  let back : Visit := ⟨3, some s.channel, p, some a⟩
  have out : there.next e g = [warned p a] := by
    have named : e.ask there.parties "first" = some (.actor r.key) := rfl
    obtain ⟨answer, decided⟩ := decide_eq hr rfl named
    rw [Visit.next_of_follow rfl decided]
    cases answer <;> rfl
  have home : back.next e g = [warned p b] := by
    have named : e.ask back.parties "second" = some (.actor s.key) := rfl
    obtain ⟨answer, decided⟩ := decide_eq hs rfl named
    rw [Visit.next_of_follow rfl decided]
    cases answer <;> rfl
  have one : ForemostPath e g (.first 0 p) [.first 0 p] there := .onward .start rfl rfl
  have two := one.onward rfl out
  have three : ForemostPath e g (.first 0 p) [warned p a, there, .first 0 p] back :=
    two.onward rfl rfl
  exact three.onward rfl home

end Route

/-! ## Coherent parties and nothing less -/

/-- If cycles are reported only where they recur, no two different actors of the roster share an
identifier: a route to each of the two makes two visits in one situation, and each visit hands on
its own actor. -/
theorem CyclesRecur.coherent (recur : CyclesRecur world p scheme) : Coherent world p := by
  intro a ha b hb same
  obtain ⟨r, hr⟩ := Route.exists_of_mem_roster ha
  obtain ⟨s, hs⟩ := Route.exists_of_mem_roster hb
  let e := (Arbiter.comparing r s).evaluation world "" scheme
  have walk : ForemostPath e (.comparing r s) (.first 0 p) (Route.approach p r s a)
      (Route.warned p b) := Route.foremostPath_comparing hr hs
  have before : Route.warned p a ∈ Route.approach p r s a :=
    List.mem_cons_of_mem _ List.mem_cons_self
  have alike : (Route.warned p a).situation = (Route.warned p b).situation := by
    simp only [Route.warned, Visit.situation, Option.map_some, same]
  have refused : (Route.warned p b).fault? e (Route.approach p r s a) = some .cycle :=
    Visit.fault?_eq_cycle_iff.2 ⟨_, before, alike⟩
  have decides := recur (.comparing r s) "" (.comparing r s) 0 rfl _ walk.mem_arrivals refused _
    before alike
  have decided : Decision.follow .next p (some a) = .follow .next p (some b) :=
    decides (.warning "") rfl
  obtain ⟨-, -, subject⟩ := Decision.follow.inj decided
  exact Option.some.inj subject

/-- A situation determines what a visit decides exactly if no two different actors among the parties
and the actors of the world share an identifier, and exactly then is a cycle reported only where
the visit would have gone the way of the one that it repeats. -/
theorem situations_decide_iff_coherent (world : World) (p : Parties) (scheme : Option Scheme) :
    (SituationsDecide world p scheme ↔ Coherent world p) ∧
      (CyclesRecur world p scheme ↔ Coherent world p) := by
  constructor
  · constructor
    · exact fun decides => decides.cyclesRecur.coherent
    · exact fun coherent => coherent.situationsDecide
  · constructor
    · exact fun recur => recur.coherent
    · exact fun coherent => coherent.situationsDecide.cyclesRecur

/-- A graph that looks at a gender, has a man replaced by the host, and looks again. -/
def RuleGraph.impostor : RuleGraph where
  document :=
    { id := "impostor"
      nodes := [.start, .gender, .invoke "unmask"]
      wires := [⟨0, .run, 1, some .conspirator⟩, ⟨1, .male, 2, some .conspirator⟩,
        ⟨2, .true, 1, some .conspirator⟩] }
  wellFormed := (GraphDocument.violation?_eq_none_iff _).1 rfl

/-- A man under the identifier of a woman of the world is replaced by her. The second look is
refused as a cycle, although it would have gone another way than the first. -/
theorem impostor_cycle :
    let vera := Actor.create .nil "Vera" .female
    let world := World.empty.addActor vera
    let p : Parties := ⟨{ vera with gender := .male }, none⟩
    let a : Arbiter :=
      { rules := fun _ => some .impostor, bridge := ⟨[.naming "unmask" vera.id]⟩ }
    let e := a.evaluation world "impostor" none
    Event.fault (.cycle "impostor" 1) ∈ a.events world "impostor" none p ∧
      ∃ u w path, ⟨w, path⟩ ∈ (a.exploration world "impostor" none p).arrivals ∧
        w.fault? e path = some .cycle ∧ u ∈ path ∧ u.situation = w.situation ∧
        ¬ u.DecidesAs e .impostor w := by
  intro vera world p a e
  let him : Visit := ⟨1, some .conspirator, p, some p.conspirator⟩
  let asking : Visit := { him with node := 2 }
  let her : Visit := ⟨1, some .conspirator, ⟨vera, none⟩, some vera⟩
  have walk : ForemostPath e .impostor (.first 0 p) [asking, him, .first 0 p] her :=
    .onward (.onward (.onward .start rfl rfl) rfl rfl) rfl rfl
  have refused : her.fault? e [asking, him, .first 0 p] = some .cycle := rfl
  constructor
  · rw [Arbiter.events_eq_exploration]
    exact walk.fault_mem_events refused
  · refine ⟨him, her, _, walk.mem_arrivals, refused, ?_, rfl, ?_⟩
    · exact List.mem_cons_of_mem _ List.mem_cons_self
    · intro alike
      -- he goes through the port of men, she through that of women
      cases alike .gender rfl

end Stratagem
