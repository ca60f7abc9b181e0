import Stratagem.Proofs.Walk.Situation

/-!
# Bindings are inherited along a path

A visit is about a conspirator, perhaps a target, and a subject. In each of these places stands
the actor that its own path has put there last, or else the one that the evaluation began with.
Other branches have no part in it.

* `NodeKind.readsActor` are the kinds that judge a single actor, which then is the subject.
* `Finding` is whom the answer to an Invoke node names, if the world has them; through which
  channel it was asked says which places the found take.
* `latest?` is the last actor that a path puts in a place, and `Visit.heir` the visit that a path
  leaves at its end.
* `Visit.decide_handsOn` is the law for one visit, `WalkPath.eq_heir` the one for a whole walk.
* `retrace` finds the visits of a path from the nodes and channels of its steps alone.
* `Arbiter.visits_inherit_bindings` is the result for the judging of a rule.
-/

namespace Stratagem

/-- Whether a kind judges a single actor. -/
def NodeKind.readsActor : NodeKind → Bool
  | .gender | .getActor _ | .getClan _ | .getRole _ | .getFamily _ | .isAutonomous => true
  | _ => false

/-! ## Whom a visit binds -/

/-- Who is found in the world. -/
inductive Finding
  | actor (a : Actor)
  | pair (conspirator target : Actor)

namespace Finding

/-- The conspirator that is bound where somebody is found through a channel. -/
def conspirator? (channel : Option Channel) : Finding → Option Actor
  | .actor a => if channel = some .conspirator then some a else none
  | .pair conspirator _ => some conspirator

/-- The target that is bound where somebody is found through a channel. -/
def target? (channel : Option Channel) : Finding → Option Actor
  | .actor a => if channel = some .target ∨ channel = some .dual then some a else none
  | .pair _ target => some target

/-- The parties after somebody is found through a channel. -/
def parties (finding : Finding) (channel : Option Channel) (p : Parties) : Parties where
  conspirator := (finding.conspirator? channel).getD p.conspirator
  target := (finding.target? channel).or p.target

/-- Whom a branch is about from then on. -/
def subject : Finding → Actor
  | .actor a => a
  | .pair _ target => target

end Finding

/-- Whom an answer names. Of a pair the world has to have both. -/
def World.resolve? (world : World) : Answer → Option Finding
  | .actor id => (world.actor? id).map .actor
  | .actorPair c t =>
    (world.actor? c).bind fun conspirator => (world.actor? t).map (.pair conspirator)
  | .bool _ | .clan _ | .family _ => none

namespace Visit

/-- Who is found at a node of a kind. -/
def finds? (e : Evaluation) (v : Visit) : NodeKind → Option Finding
  | .invoke method => (e.ask v.parties method).bind e.world.resolve?
  | _ => none

def newConspirator? (e : Evaluation) (v : Visit) (kind : NodeKind) : Option Actor :=
  (v.finds? e kind).bind (Finding.conspirator? v.channel)

def newTarget? (e : Evaluation) (v : Visit) (kind : NodeKind) : Option Actor :=
  (v.finds? e kind).bind (Finding.target? v.channel)

/-- The actor that is judged or found at a node of a kind. -/
def newSubject? (e : Evaluation) (v : Visit) (kind : NodeKind) : Option Actor :=
  if kind.readsActor then v.actor? else (v.finds? e kind).map Finding.subject

end Visit

/-! ## What one visit hands on -/

/-- What a visit hands on: in each place the actor that it binds there itself, or else the one it
was given. -/
structure HandsOn (e : Evaluation) (v : Visit) (kind : NodeKind) (parties : Parties)
    (subject : Option Actor) : Prop where
  conspirator : parties.conspirator = (v.newConspirator? e kind).getD v.parties.conspirator
  target : parties.target = (v.newTarget? e kind).or v.parties.target
  subject : subject = (v.newSubject? e kind).or v.subject

namespace Visit

variable {e : Evaluation} {v : Visit} {kind : NodeKind} {port : Port} {parties : Parties}
variable {subject : Option Actor} {world : World} {answer : Option Answer} {finding : Finding}

/-- Where nobody is judged or found everything is handed on as it was given. -/
theorem handsOn_given (reads : kind.readsActor = false) (finds : v.finds? e kind = none) :
    HandsOn e v kind v.parties v.subject where
  conspirator := by
    rw [newConspirator?, finds]
    rfl
  target := by
    rw [newTarget?, finds]
    rfl
  subject := by
    rw [newSubject?, reads, finds]
    rfl

theorem handsOn_judge {choose : Actor → Port} (reads : kind.readsActor = true)
    (h : v.judge choose = .follow port parties subject) : HandsOn e v kind parties subject := by
  have finds : v.finds? e kind = none := by
    cases kind with
    | invoke method => cases reads
    | _ => rfl
  unfold judge at h
  split at h
  · next a judged =>
    cases h
    constructor
    · rw [newConspirator?, finds]
      rfl
    · rw [newTarget?, finds]
      rfl
    · rw [newSubject?, if_pos reads, judged]
      rfl
  · cases h

theorem handsOn_judgePair {holds : Actor → Actor → Bool} (reads : kind.readsActor = false)
    (finds : v.finds? e kind = none)
    (h : v.judgePair holds = .follow port parties subject) : HandsOn e v kind parties subject := by
  unfold judgePair at h
  split at h
  · cases h
    exact handsOn_given reads finds
  · cases h

theorem bindActor_eq (p : Parties) (channel : Option Channel) (a : Actor) :
    bindActor p channel a = (Finding.actor a).parties channel p := by
  rcases channel with _ | channel
  · rfl
  · cases channel <;> rfl

/-- An answer that names somebody of the world binds them and is followed through True. -/
theorem followAnswer_of_found (found : answer.bind world.resolve? = some finding) :
    v.followAnswer world answer =
      .follow .true (finding.parties v.channel v.parties) (some finding.subject) := by
  obtain ⟨answer, rfl, resolved⟩ := Option.bind_eq_some_iff.1 found
  cases answer with
  | bool b | clan id | family id => cases resolved
  | actor id =>
    obtain ⟨a, there, rfl⟩ := Option.map_eq_some_iff.1 resolved
    simp only [followAnswer, there, bindActor_eq, Finding.subject]
  | actorPair c t =>
    obtain ⟨conspirator, thereC, resolved⟩ := Option.bind_eq_some_iff.1 resolved
    obtain ⟨target, thereT, rfl⟩ := Option.map_eq_some_iff.1 resolved
    simp only [followAnswer, thereC, thereT]
    rfl

/-- Any other answer changes nothing, and is followed through a port of Invoke nodes. -/
theorem followAnswer_of_unfound (method : String)
    (unfound : answer.bind world.resolve? = none) :
    ∃ port ∈ (NodeKind.invoke method).ports, v.followAnswer world answer = v.follow port := by
  have null : Port.null ∈ (NodeKind.invoke method).ports := by simp [NodeKind.ports]
  cases answer with
  | none => exact ⟨.null, null, rfl⟩
  | some answer =>
    have unresolved : world.resolve? answer = none := unfound
    cases answer with
    | bool b =>
      refine ⟨.ofBool b, ?_, rfl⟩
      cases b <;> simp [NodeKind.ports, Port.ofBool]
    | clan id | family id => exact ⟨.true, by simp [NodeKind.ports], rfl⟩
    | actor id =>
      have missing : world.actor? id = none := Option.map_eq_none_iff.1 unresolved
      refine ⟨.null, null, ?_⟩
      simp only [followAnswer, missing]
    | actorPair c t =>
      refine ⟨.null, null, ?_⟩
      rw [World.resolve?] at unresolved
      cases thereC : world.actor? c with
      | none => simp only [followAnswer, thereC]
      | some conspirator =>
        -- the first of the pair is there, so the second is missing
        rw [thereC] at unresolved
        have missing : world.actor? t = none := Option.map_eq_none_iff.1 unresolved
        simp only [followAnswer, thereC, missing]

theorem handsOn_followAnswer {method : String}
    (h : v.followAnswer e.world (e.ask v.parties method) = .follow port parties subject) :
    HandsOn e v (.invoke method) parties subject := by
  cases finds : v.finds? e (.invoke method) with
  | none =>
    obtain ⟨_, -, given⟩ := followAnswer_of_unfound (v := v) method finds
    rw [given] at h
    cases h
    exact handsOn_given rfl finds
  | some finding =>
    rw [followAnswer_of_found finds] at h
    cases h
    constructor
    · rw [newConspirator?, finds]
      rfl
    · rw [newTarget?, finds]
      rfl
    · rw [newSubject?, finds]
      rfl

/-- A visit that goes on hands on the actors that it binds, and for the rest what it was given. -/
theorem decide_handsOn (h : v.decide e kind = .follow port parties subject) :
    HandsOn e v kind parties subject := by
  cases kind with
  | start | warning message =>
    cases h
    exact handsOn_given rfl rfl
  | error message =>
    rw [decide] at h
    split at h
    · cases h
    · cases h
      exact handsOn_given rfl rfl
  | gender | isAutonomous => exact handsOn_judge rfl h
  | getActor _ | getClan _ | getRole _ | getFamily _ => exact handsOn_judge rfl h
  | isParent | isSibling => exact handsOn_judgePair rfl rfl h
  | invoke method => exact handsOn_followAnswer h

end Visit

/-! ## What a path leaves -/

/-- The last actor that the visits of a path put in a place, the nearest visit first. -/
def latest? (kind? : NodeId → Option NodeKind) (new? : Visit → NodeKind → Option Actor)
    (path : List Visit) : Option Actor :=
  path.findSome? fun v => (kind? v.node).bind (new? v)

theorem latest?_cons {kind? : NodeId → Option NodeKind} {new? : Visit → NodeKind → Option Actor}
    {v : Visit} {kind : NodeKind} (known : kind? v.node = some kind) (path : List Visit) :
    latest? kind? new? (v :: path) = (new? v kind).or (latest? kind? new? path) := by
  unfold latest?
  rw [List.findSome?_cons, known, Option.bind_some]
  cases new? v kind with
  | none => rfl
  | some a => rfl

/-- The visit that a path leaves at its end: in each place the actor that the path has put there
last, or else the one that the evaluation began with, which for the subject is the target if there
is one. -/
def Visit.heir (e : Evaluation) (kind? : NodeId → Option NodeKind) (p : Parties)
    (path : List Visit) (node : NodeId) (channel : Option Channel) : Visit where
  node := node
  channel := channel
  parties :=
    { conspirator := (latest? kind? (Visit.newConspirator? e) path).getD p.conspirator
      target := (latest? kind? (Visit.newTarget? e) path).or p.target }
  subject := (latest? kind? (Visit.newSubject? e) path).or (some (p.target.getD p.conspirator))

/-- The visits of a path, found again from the nodes and channels of its steps. -/
def retrace (e : Evaluation) (kind? : NodeId → Option NodeKind) (p : Parties) :
    List Situation → List Visit
  | [] => []
  | s :: chain =>
    .heir e kind? p (retrace e kind? p chain) s.node s.channel :: retrace e kind? p chain

namespace WalkPath

variable {e : Evaluation} {g : RuleGraph} {start : NodeId} {p : Parties} {v : Visit}
variable {path : List Visit}

/-- Every visit of a walk is the one that its path leaves. -/
theorem eq_heir (walk : WalkPath e g (.first start p) path v) :
    v = .heir e g.kind? p path v.node v.channel := by
  induction walk with
  | start => rfl
  | @onward v w path _ leads ih =>
    obtain ⟨known, decided, -⟩ := leads
    obtain ⟨conspirator, target, subject⟩ := Visit.decide_handsOn decided
    -- what the visit was given is what the path before it left
    have givenC : v.parties.conspirator = _ := congrArg (fun u => u.parties.conspirator) ih
    have givenT : v.parties.target = _ := congrArg (fun u => u.parties.target) ih
    have givenS : v.subject = _ := congrArg Visit.subject ih
    simp only [Visit.heir] at givenC givenT givenS ⊢
    simp only [latest?_cons known, Option.getD_or, Option.or_assoc, ← givenC, ← givenT, ← givenS,
      ← conspirator, ← target, ← subject]

theorem retrace_eq (walk : WalkPath e g (.first start p) path v) :
    retrace e g.kind? p (path.map Visit.situation) = path := by
  induction walk with
  | start => rfl
  | @onward v w path walk _ ih =>
    show Visit.heir e g.kind? p (retrace e g.kind? p (path.map Visit.situation)) v.node v.channel ::
      retrace e g.kind? p (path.map Visit.situation) = v :: path
    rw [ih, ← walk.eq_heir]

end WalkPath

/-! ## Judging a rule -/

/-- Whenever a visit is made, its own path alone says whom it is about. The visits of that path are
known from the nodes and channels of its steps. The conspirator is the one that the last of them to
bind a conspirator has bound, the target likewise, and the subject, which the channel `[Actor]`
reads, is the last actor that one of them has judged or found; where there is none, the parties are
those of the evaluation, and the subject is their target or else their conspirator. -/
theorem Arbiter.visits_inherit_bindings (a : Arbiter) (world : World) (rule : String)
    (scheme : Option Scheme) (p : Parties) (g : RuleGraph) (start : NodeId)
    (entry : a.entry rule = .ok (g, start)) (chain : List Situation) (v : Visit)
    (met : (chain, v) ∈ a.arrivals world rule scheme p) :
    let e := a.evaluation world rule scheme
    let path := retrace e g.kind? p chain
    path.map Visit.situation = chain ∧
      v.parties.conspirator =
        (latest? g.kind? (Visit.newConspirator? e) path).getD p.conspirator ∧
      v.parties.target = (latest? g.kind? (Visit.newTarget? e) path).or p.target ∧
      v.subject =
        (latest? g.kind? (Visit.newSubject? e) path).or (some (p.target.getD p.conspirator)) ∧
      (v.channel = some .actor → v.actor? = v.subject) := by
  intro e
  obtain ⟨path, rfl, walk⟩ := exists_walkPath_of_mem_arrivals entry met
  have heir := walk.eq_heir
  rw [walk.retrace_eq]
  refine ⟨rfl, ?_, ?_, ?_, ?_⟩
  · exact congrArg (fun u => u.parties.conspirator) heir
  · exact congrArg (fun u => u.parties.target) heir
  · exact congrArg Visit.subject heir
  · intro about
    rw [Visit.actor?, about]

/-- A graph that looks at a gender twice: after the host was asked for another target, and next to
that branch. -/
def RuleGraph.retargeting : RuleGraph where
  document :=
    { id := "retargeting"
      nodes := [.start, .invoke "find", .gender]
      wires := [⟨0, .run, 1, some .target⟩, ⟨0, .run, 2, some .actor⟩, ⟨1, .true, 2, some .actor⟩] }
  wellFormed := (GraphDocument.violation?_eq_none_iff _).1 rfl

/-- Behind the Invoke node the branch is about the target that was found; the branch beside it, which
is walked later, is still about the first one. -/
theorem Arbiter.visits_inherit_bindings_retargeting :
    let ada := Actor.create .nil "Ada" .female
    let bob := Actor.create ⟨⟨1⟩⟩ "Bob" .male
    let eve := Actor.create ⟨⟨2⟩⟩ "Eve" .female
    let world := World.empty.addActor eve
    let p : Parties := ⟨ada, some bob⟩
    let a : Arbiter :=
      { rules := fun _ => some .retargeting, bridge := ⟨[.naming "find" eve.id]⟩ }
    let entered := (Visit.first 0 p).situation
    let asked : Situation := { entered with node := 1, channel := some .target }
    let met := a.arrivals world "retargeting" none p
    a.entry "retargeting" = .ok (.retargeting, 0) ∧
      ([asked, entered], ⟨2, some .actor, ⟨ada, some eve⟩, some eve⟩) ∈ met ∧
      (∀ v, ([asked, entered], v) ∈ met → v.parties.target = some eve ∧ v.subject = some eve) ∧
      ∀ v, ([entered], v) ∈ met → v.parties.target = some bob ∧ v.subject = some bob := by
  intro ada bob eve world p a entered asked met
  have entry : a.entry "retargeting" = .ok (.retargeting, 0) := rfl
  refine ⟨entry, ?_, ?_, ?_⟩
  · let asking : Visit := ⟨1, some .target, p, some bob⟩
    have walk : ForemostPath (a.evaluation world "retargeting" none) .retargeting (.first 0 p)
        [asking, .first 0 p] ⟨2, some .actor, ⟨ada, some eve⟩, some eve⟩ :=
      .onward (.onward .start rfl rfl) rfl rfl
    show _ ∈ a.arrivals world "retargeting" none p
    rw [arrivals_of_entry entry]
    exact List.mem_map.2 ⟨_, walk.mem_arrivals, rfl⟩
  · intro v hv
    obtain ⟨-, -, target, subject, -⟩ :=
      visits_inherit_bindings a world "retargeting" none p .retargeting 0 entry _ v hv
    exact ⟨target, subject⟩
  · intro v hv
    obtain ⟨-, -, target, subject, -⟩ :=
      visits_inherit_bindings a world "retargeting" none p .retargeting 0 entry _ v hv
    exact ⟨target, subject⟩

end Stratagem
