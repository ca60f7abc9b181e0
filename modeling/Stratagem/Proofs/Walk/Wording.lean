import Stratagem.Proofs.Walk.Lockstep
import Stratagem.Proofs.Walk.Situation

/-!
# The wording of messages

Names of actors, templates of messages and the tokens in them are there to be read by people. They
travel through an evaluation with everything else, but nothing is decided by them.

* `nameless` and `wordless` blank these texts, so that two things which differ in them only are
  equal once they are blanked; `World.Alike` compares two worlds by their look-ups, names blanked.
* `Visit.decide_nameless`: a visit decides the same, and hands on the same, under other names.
* `Evaluation.Alike.lockstep`: evaluations that differ in wording only go in lockstep.
* `sourcedWarnings` and `sourcedErrors` are the lists of a verdict with what each entry comes from.
* `Arbiter.wording_keeps_course` is the result for the judging of a rule.
-/

namespace Stratagem

/-! ## Blanking texts -/

def Actor.nameless (a : Actor) : Actor := { a with name := "" }

def Parties.nameless (p : Parties) : Parties :=
  ⟨p.conspirator.nameless, p.target.map Actor.nameless⟩

def Visit.nameless (v : Visit) : Visit :=
  { v with parties := v.parties.nameless, subject := v.subject.map Actor.nameless }

def Decision.nameless : Decision → Decision
  | .stop => .stop
  | .halt => .halt
  | .follow port parties subject => .follow port parties.nameless (subject.map Actor.nameless)

def WalkSettings.wordless (s : WalkSettings) : WalkSettings :=
  { s with conspiratorToken := "", targetToken := "" }

def NodeKind.wordless : NodeKind → NodeKind
  | .error _ => .error ""
  | .warning _ => .warning ""
  | kind => kind

def GraphDocument.wordless (d : GraphDocument) : GraphDocument :=
  { d with nodes := d.nodes.map NodeKind.wordless }

/-- Two worlds in which every look-up finds the same, the names of actors apart. -/
structure World.Alike (w w' : World) : Prop where
  actors : ∀ id, (w'.actor? id).map Actor.nameless = (w.actor? id).map Actor.nameless
  clans : ∀ id, w'.clan? id = w.clan? id
  families : ∀ id, w'.family? id = w.family? id
  roles : ∀ id, w'.role? id = w.role? id
  cultures : ∀ id, w'.culture? id = w.culture? id
  vars : w'.vars = w.vars

/-- Two contexts in which a method sees the same, the names of actors apart. -/
structure Context.Alike (c c' : Context) : Prop where
  rule : c'.rule = c.rule
  scheme : c'.scheme = c.scheme
  conspirator : c'.conspirator.nameless = c.conspirator.nameless
  target : c'.target.map Actor.nameless = c.target.map Actor.nameless
  world : c.world.Alike c'.world

/-- Two evaluations whose hosts answer alike about parties that differ in names only. -/
def Evaluation.AnswersAlike (e e' : Evaluation) : Prop :=
  ∀ method p p', p'.nameless = p.nameless → e'.ask p' method = e.ask p method

/-- Two evaluations that differ in names and tokens only. -/
structure Evaluation.Alike (e e' : Evaluation) : Prop where
  rule : e'.rule = e.rule
  scheme : e'.scheme = e.scheme
  world : e.world.Alike e'.world
  answers : e.AnswersAlike e'
  settings : e'.settings.wordless = e.settings.wordless

/-- Two events of one kind that come from the same node or are the same fault. -/
inductive Event.Alike : Event → Event → Prop
  | asked {method : String} {c c' : Context} :
      c.Alike c' → Alike (.asked method c) (.asked method c')
  | warning {node : NodeId} (m m' : String) : Alike (.warning node m) (.warning node m')
  | error {node : NodeId} (m m' : String) : Alike (.error node m) (.error node m')
  | fault (f : RuleFault) : Alike (.fault f) (.fault f)

/-- Actors that are equal once their names are blanked differ in the name only. -/
theorem Actor.exists_of_nameless {a a' : Actor} (same : a'.nameless = a.nameless) :
    ∃ name, a' = { a with name := name } := by
  refine ⟨a'.name, ?_⟩
  cases a
  cases a'
  simp only [nameless, Actor.mk.injEq] at same ⊢
  simp only [same, true_and]

/-- Kinds that are equal once their templates are blanked are one kind that leaves no message, or
both leave an error, or both a warning. -/
theorem NodeKind.wordless_cases {kind kind' : NodeKind} (same : kind'.wordless = kind.wordless) :
    (kind' = kind ∧ kind.isDiagnostic = false) ∨
      (∃ m m', kind = .error m ∧ kind' = .error m') ∨
      ∃ m m', kind = .warning m ∧ kind' = .warning m' := by
  cases kind with
  | error m =>
    cases kind' with
    | error m' => exact .inr (.inl ⟨m, m', rfl, rfl⟩)
    | _ => cases same
  | warning m =>
    cases kind' with
    | warning m' => exact .inr (.inr ⟨m, m', rfl, rfl⟩)
    | _ => cases same
  | _ =>
    cases kind' with
    | error m' | warning m' => cases same
    | _ => exact .inl ⟨same, rfl⟩

/-! ## One visit under other names -/

namespace Visit

variable {e e' : Evaluation} {v v' : Visit} {kind kind' : NodeKind}

/-- Names are no part of a situation. -/
theorem situation_of_nameless (same : v'.nameless = v.nameless) : v'.situation = v.situation := by
  have blank : ∀ u : Visit, u.nameless.situation = u.situation := by
    intro u
    simp only [situation, nameless, Parties.nameless, Option.map_map]
    rfl
  rw [← blank v', ← blank v, same]

theorem actor?_nameless (v : Visit) : v.nameless.actor? = v.actor?.map Actor.nameless := by
  unfold actor? nameless
  cases v.channel with
  | none => rfl
  | some channel => cases channel <;> rfl

theorem node_of_nameless (same : v'.nameless = v.nameless) : v'.node = v.node := by
  show v'.nameless.node = v.nameless.node
  rw [same]

theorem channel_of_nameless (same : v'.nameless = v.nameless) : v'.channel = v.channel := by
  show v'.nameless.channel = v.nameless.channel
  rw [same]

theorem asks?_nameless (v : Visit) (kind : NodeKind) : v.nameless.asks? kind = v.asks? kind := by
  have selector : ∀ {α : Type} (s : Selector α),
      v.nameless.selectorAsks? s = v.selectorAsks? s := by
    intro α s
    cases s with
    | fixed value => rfl
    | invoked method =>
      simp only [selectorAsks?, actor?_nameless, Option.map_map]
      rfl
  cases kind with
  | getActor s | getClan s | getFamily s => exact selector s
  | _ => rfl

theorem nameless_first (start : NodeId) (p : Parties) :
    (first start p).nameless = first start p.nameless := by
  unfold first nameless Parties.nameless
  cases p.target <;> rfl

theorem nameless_follow (v : Visit) (port : Port) :
    (v.follow port).nameless = v.nameless.follow port := rfl

/-- A judgement that takes no notice of the name goes through the same port. -/
theorem judge_nameless {choose choose' : Actor → Port} (same : v'.nameless = v.nameless)
    (alike : ∀ a a' : Actor, a'.nameless = a.nameless → choose' a' = choose a) :
    (v'.judge choose').nameless = (v.judge choose).nameless := by
  have about : v'.actor?.map Actor.nameless = v.actor?.map Actor.nameless := by
    rw [← actor?_nameless, ← actor?_nameless, same]
  have parties : v'.parties.nameless = v.parties.nameless := congrArg Visit.parties same
  unfold judge
  cases found : v.actor? with
  | none =>
    rw [found, Option.map_none, Option.map_eq_none_iff] at about
    rw [about]
  | some a =>
    rw [found, Option.map_some, Option.map_eq_some_iff] at about
    obtain ⟨a', found', one⟩ := about
    simp only [found', Decision.nameless, parties, alike a a' one, Option.map_some, one]

theorem judgePair_nameless {holds holds' : Actor → Actor → Bool} (same : v'.nameless = v.nameless)
    (alike : ∀ a a' b b' : Actor, a'.nameless = a.nameless → b'.nameless = b.nameless →
      holds' a' b' = holds a b) :
    (v'.judgePair holds').nameless = (v.judgePair holds).nameless := by
  have conspirator : v'.parties.conspirator.nameless = v.parties.conspirator.nameless :=
    congrArg (fun u => u.parties.conspirator) same
  have target : v'.parties.target.map Actor.nameless = v.parties.target.map Actor.nameless :=
    congrArg (fun u => u.parties.target) same
  unfold judgePair
  cases found : v.parties.target with
  | none =>
    rw [found, Option.map_none, Option.map_eq_none_iff] at target
    rw [target]
  | some t =>
    rw [found, Option.map_some, Option.map_eq_some_iff] at target
    obtain ⟨t', found', one⟩ := target
    simp only [found', nameless_follow, same, alike _ _ t t' conspirator one]

theorem bindActor_nameless {p p' : Parties} {channel : Option Channel} {a a' : Actor}
    (parties : p'.nameless = p.nameless) (one : a'.nameless = a.nameless) :
    (bindActor p' channel a').nameless = (bindActor p channel a).nameless := by
  have conspirator : p'.conspirator.nameless = p.conspirator.nameless :=
    congrArg Parties.conspirator parties
  have target : p'.target.map Actor.nameless = p.target.map Actor.nameless :=
    congrArg Parties.target parties
  cases channel with
  | none => exact parties
  | some channel =>
    cases channel <;>
      simp only [bindActor, Parties.nameless, Option.map_some, conspirator, target, one]

theorem followAnswer_nameless {world world' : World} (same : v'.nameless = v.nameless)
    (known : ∀ id, (world'.actor? id).map Actor.nameless = (world.actor? id).map Actor.nameless)
    (answer : Option Answer) :
    (v'.followAnswer world' answer).nameless = (v.followAnswer world answer).nameless := by
  have parties : v'.parties.nameless = v.parties.nameless := congrArg Visit.parties same
  have channel : v'.channel = v.channel := channel_of_nameless same
  have stays : ∀ port, (v'.follow port).nameless = (v.follow port).nameless := by
    intro port
    rw [nameless_follow, nameless_follow, same]
  -- what the host names is found in both worlds or in neither
  have finds : ∀ id, (world.actor? id = none ∧ world'.actor? id = none) ∨
      ∃ a a', world.actor? id = some a ∧ world'.actor? id = some a' ∧ a'.nameless = a.nameless := by
    intro id
    have found := known id
    cases there : world.actor? id with
    | none =>
      rw [there, Option.map_none, Option.map_eq_none_iff] at found
      exact .inl ⟨rfl, found⟩
    | some a =>
      rw [there, Option.map_some, Option.map_eq_some_iff] at found
      obtain ⟨a', there', one⟩ := found
      exact .inr ⟨a, a', rfl, there', one⟩
  cases answer with
  | none => exact stays .null
  | some answer =>
    cases answer with
    | bool b => exact stays _
    | clan id | family id => exact stays .true
    | actor id =>
      rcases finds id with ⟨there, there'⟩ | ⟨a, a', there, there', one⟩
      · simp only [followAnswer, there, there', stays]
      · simp only [followAnswer, there, there', Decision.nameless, channel, Option.map_some, one,
          bindActor_nameless parties one]
    | actorPair c t =>
      rcases finds c with ⟨there, there'⟩ | ⟨a, a', there, there', one⟩
      · simp only [followAnswer, there, there', stays]
      · rcases finds t with ⟨other, other'⟩ | ⟨b, b', other, other', two⟩
        · simp only [followAnswer, there, there', other, other', stays]
        · simp only [followAnswer, there, there', other, other', Decision.nameless,
            Parties.nameless, Option.map_some, one, two]

/-- Under other names a visit decides the same and hands on the same, if both evaluations find the
same actors in their worlds and the host answers both alike. -/
theorem decide_nameless (same : v'.nameless = v.nameless) (kinds : kind'.wordless = kind.wordless)
    (stopping : e'.settings.stopAtFirstError = e.settings.stopAtFirstError)
    (known : ∀ id,
      (e'.world.actor? id).map Actor.nameless = (e.world.actor? id).map Actor.nameless)
    (answers : ∀ method, e'.ask v'.parties method = e.ask v.parties method) :
    (v'.decide e' kind').nameless = (v.decide e kind).nameless := by
  have answers : e'.ask v'.parties = e.ask v.parties := funext answers
  have stays : ∀ port, (v'.follow port).nameless = (v.follow port).nameless := by
    intro port
    rw [nameless_follow, nameless_follow, same]
  rcases NodeKind.wordless_cases kinds with ⟨rfl, plain⟩ | ⟨m, m', rfl, rfl⟩ | ⟨m, m', rfl, rfl⟩
  · cases kind' with
    | error m | warning m => cases plain
    | start => exact stays .run
    | gender | getRole role | isAutonomous =>
      refine judge_nameless same fun a a' one => ?_
      obtain ⟨name, rfl⟩ := Actor.exists_of_nameless one
      rfl
    | getActor selector | getClan selector | getFamily selector =>
      refine judge_nameless same fun a a' one => ?_
      obtain ⟨name, rfl⟩ := Actor.exists_of_nameless one
      rw [answers]
    | isParent =>
      refine judgePair_nameless same fun a a' b b' one two => ?_
      obtain ⟨name, rfl⟩ := Actor.exists_of_nameless one
      obtain ⟨name', rfl⟩ := Actor.exists_of_nameless two
      rw [channel_of_nameless same]
      rfl
    | isSibling =>
      refine judgePair_nameless same fun a a' b b' one two => ?_
      obtain ⟨name, rfl⟩ := Actor.exists_of_nameless one
      obtain ⟨name', rfl⟩ := Actor.exists_of_nameless two
      rfl
    | invoke method =>
      simp only [decide, answers]
      exact followAnswer_nameless same known _
  · simp only [decide, stopping]
    split
    · rfl
    · exact stays .next
  · exact stays .next

/-- The port goes on to visits that are the same under other names. -/
theorem onward_nameless {g g' : RuleGraph} {d d' : Decision} (same : v'.nameless = v.nameless)
    (wires : g'.document.wires = g.document.wires) (decided : d'.nameless = d.nameless) :
    Option.Rel (List.Forall₂ fun w w' : Visit => w'.nameless = w.nameless) (v.onward g d)
      (v'.onward g' d') := by
  cases d with
  | stop =>
    cases d' with
    | stop => exact .some .nil
    | halt | follow _ _ _ => cases decided
  | halt =>
    cases d' with
    | halt => exact .none
    | stop | follow _ _ _ => cases decided
  | follow port parties subject =>
    cases d' with
    | stop | halt => cases decided
    | follow port' parties' subject' =>
      obtain ⟨rfl, parties, subject⟩ := Decision.follow.inj decided
      have links : g'.outputs v'.node port' = g.outputs v.node port' := by
        unfold RuleGraph.outputs
        rw [wires, node_of_nameless same]
      simp only [onward, links]
      refine .some (List.forall₂_map_left_iff.2 (List.forall₂_map_right_iff.2 ?_))
      exact List.forall₂_same.2 fun link _ => by simp only [nameless, parties, subject]

end Visit

/-! ## Evaluations that differ in wording -/

namespace Evaluation.Alike

variable {e e' : Evaluation} {g g' : RuleGraph} {v v' : Visit} {p p' : Parties}

theorem context (alike : e.Alike e') (parties : p'.nameless = p.nameless) :
    (e.context p).Alike (e'.context p') where
  rule := alike.rule
  scheme := alike.scheme
  conspirator := congrArg Parties.conspirator parties
  target := congrArg Parties.target parties
  world := alike.world

theorem decide {kind kind' : NodeKind} (alike : e.Alike e') (same : v'.nameless = v.nameless)
    (kinds : kind'.wordless = kind.wordless) :
    (v'.decide e' kind').nameless = (v.decide e kind).nameless := by
  have parties : v'.parties.nameless = v.parties.nameless := congrArg Visit.parties same
  have stopping : e'.settings.wordless.stopAtFirstError = e.settings.wordless.stopAtFirstError := by
    rw [alike.settings]
  exact Visit.decide_nameless same kinds stopping alike.world.actors fun method =>
    alike.answers method _ _ parties

/-- A visit asks the same method of the host, in a context that is alike, or leaves a message as the
other does. -/
theorem events {kind kind' : NodeKind} (alike : e.Alike e') (same : v'.nameless = v.nameless)
    (kinds : kind'.wordless = kind.wordless) :
    List.Forall₂ Event.Alike (v.events e kind) (v'.events e' kind') := by
  have node : v'.node = v.node := Visit.node_of_nameless same
  have parties : v'.parties.nameless = v.parties.nameless := congrArg Visit.parties same
  rcases NodeKind.wordless_cases kinds with ⟨rfl, plain⟩ | ⟨m, m', rfl, rfl⟩ | ⟨m, m', rfl, rfl⟩
  · have asks : v'.asks? kind' = v.asks? kind' := by
      rw [← v'.asks?_nameless, ← v.asks?_nameless, same]
    refine List.rel_append ?_ ?_
    · rw [asks]
      cases v.asks? kind' with
      | none => exact .nil
      | some method => exact .cons (.asked (alike.context parties)) .nil
    · cases kind' with
      | error m | warning m => cases plain
      | _ => exact .nil
  · show List.Forall₂ _ [Event.error v.node _] [Event.error v'.node _]
    rw [node]
    exact .cons (.error _ _) .nil
  · show List.Forall₂ _ [Event.warning v.node _] [Event.warning v'.node _]
    rw [node]
    exact .cons (.warning _ _) .nil

end Evaluation.Alike

namespace RuleGraph

variable {g g' : RuleGraph}

theorem nodes_of_wordless (same : g'.document.wordless = g.document.wordless) :
    g'.nodes.map NodeKind.wordless = g.nodes.map NodeKind.wordless := by
  show g'.document.wordless.nodes = g.document.wordless.nodes
  rw [same]

theorem wires_of_wordless (same : g'.document.wordless = g.document.wordless) :
    g'.document.wires = g.document.wires := by
  show g'.document.wordless.wires = g.document.wordless.wires
  rw [same]

/-- The same nodes are there, and each leaves its messages where it leaves them, if any. -/
theorem kind?_of_wordless (same : g'.document.wordless = g.document.wordless) (n : NodeId) :
    (g'.kind? n).map NodeKind.wordless = (g.kind? n).map NodeKind.wordless := by
  unfold kind?
  rw [← List.getElem?_map, ← List.getElem?_map, nodes_of_wordless same]

theorem start?_of_wordless (same : g'.document.wordless = g.document.wordless) :
    g'.start? = g.start? := by
  have found : ∀ h : RuleGraph,
      h.start? = (h.nodes.map NodeKind.wordless).findIdx? (· = .start) := by
    intro h
    unfold start?
    rw [List.findIdx?_map]
    congr 1
    funext kind
    cases kind <;> rfl
  rw [found, found, nodes_of_wordless same]

end RuleGraph

/-- Evaluations that differ in wording only go in lockstep, on graphs that do so, too. -/
theorem Evaluation.Alike.lockstep {e e' : Evaluation} {g g' : RuleGraph} (alike : e.Alike e')
    (graphs : g'.document.wordless = g.document.wordless) :
    Lockstep e e' g g' (fun v v' => v'.nameless = v.nameless) Event.Alike := by
  have limit : e'.settings.maxNodeVisits = e.settings.maxNodeVisits := by
    show e'.settings.wordless.maxNodeVisits = e.settings.wordless.maxNodeVisits
    rw [alike.settings]
  have wires := RuleGraph.wires_of_wordless graphs
  -- both visits are at no node, or at nodes of one kind
  have at_node : ∀ v v' : Visit, v'.nameless = v.nameless →
      (g.kind? v.node = none ∧ g'.kind? v'.node = none) ∨
      ∃ kind kind', g.kind? v.node = some kind ∧ g'.kind? v'.node = some kind' ∧
        kind'.wordless = kind.wordless := by
    intro v v' same
    have kinds := RuleGraph.kind?_of_wordless graphs v.node
    rw [← Visit.node_of_nameless same] at kinds ⊢
    cases known : g.kind? v'.node with
    | none =>
      rw [known, Option.map_none, Option.map_eq_none_iff] at kinds
      exact .inl ⟨rfl, kinds⟩
    | some kind =>
      rw [known, Option.map_some, Option.map_eq_some_iff] at kinds
      obtain ⟨kind', known', one⟩ := kinds
      exact .inr ⟨kind, kind', rfl, known', one⟩
  constructor
  · intro v v' path path' same paths
    have situations : path'.map Visit.situation = path.map Visit.situation := by
      refine List.forall₂_eq_eq_eq ▸ (List.forall₂_map_left_iff.2 (List.forall₂_map_right_iff.2 ?_))
      exact (paths.imp fun _ _ one => Visit.situation_of_nameless one).flip
    unfold Visit.fault?
    rw [situations, Visit.situation_of_nameless same, limit]
  · intro v v' refusal same
    have one : refusal.toRuleFault e' v'.node = refusal.toRuleFault e v.node := by
      cases refusal <;>
        simp only [GuardFault.toRuleFault, alike.rule, limit, Visit.node_of_nameless same]
    rw [one]
    exact .fault _
  · intro v v' same
    unfold Visit.outcome
    rcases at_node v v' same with ⟨known, known'⟩ | ⟨kind, kind', known, known', kinds⟩
    · rw [known, known']
      exact .nil
    · rw [known, known']
      exact alike.events same kinds
  · intro v v' same
    unfold Visit.outcome
    rcases at_node v v' same with ⟨known, known'⟩ | ⟨kind, kind', known, known', kinds⟩
    · rw [known, known']
      exact .some .nil
    · rw [known, known']
      exact Visit.onward_nameless same wires (alike.decide same kinds)

/-! ## Where the entries of a verdict come from -/

/-- What an entry of a verdict comes from. -/
inductive Source
  | node (n : NodeId)
  | fault (f : RuleFault)
deriving DecidableEq, Repr

namespace Event

/-- The warning that an event adds, with where it comes from. -/
def sourcedWarning? : Event → Option (Source × String)
  | .warning node message => some (.node node, message)
  | _ => none

/-- The error that an event adds, with where it comes from. -/
def sourcedError? : Event → Option (Source × String)
  | .error node message => some (.node node, message)
  | .fault f => some (.fault f, f.message)
  | _ => none

end Event

/-- The warnings of a record, each with where it comes from. -/
def sourcedWarnings (events : List Event) : List (Source × String) :=
  events.filterMap Event.sourcedWarning?

/-- The errors of a record, each with where it comes from. -/
def sourcedErrors (events : List Event) : List (Source × String) :=
  events.filterMap Event.sourcedError?

section

variable {events events' : List Event}

/-- The texts are the warnings of the verdict, in their places. -/
theorem map_snd_sourcedWarnings (events : List Event) :
    (sourcedWarnings events).map Prod.snd = (Verdict.ofEvents events).warnings := by
  unfold sourcedWarnings Verdict.ofEvents
  rw [List.map_filterMap]
  exact List.filterMap_congr fun x _ => by cases x <;> rfl

/-- The texts are the errors of the verdict, in their places. -/
theorem map_snd_sourcedErrors (events : List Event) :
    (sourcedErrors events).map Prod.snd = (Verdict.ofEvents events).errors := by
  unfold sourcedErrors Verdict.ofEvents
  rw [List.map_filterMap]
  exact List.filterMap_congr fun x _ => by cases x <;> rfl

/-- What does not tell events that are alike apart selects the same of two records. -/
theorem filterMap_eq_of_alike {α : Type} {f : Event → Option α}
    (same : ∀ x y : Event, x.Alike y → f y = f x)
    (paired : List.Forall₂ Event.Alike events events') :
    events'.filterMap f = events.filterMap f := by
  induction paired with
  | nil => rfl
  | cons first _ ih => simp only [List.filterMap_cons, same _ _ first, ih]

theorem sources_of_alike (paired : List.Forall₂ Event.Alike events events') :
    (sourcedWarnings events').map Prod.fst = (sourcedWarnings events).map Prod.fst ∧
      (sourcedErrors events').map Prod.fst = (sourcedErrors events).map Prod.fst := by
  unfold sourcedWarnings sourcedErrors
  simp only [List.map_filterMap]
  constructor
  · exact filterMap_eq_of_alike (fun _ _ alike => by cases alike <;> rfl) paired
  · exact filterMap_eq_of_alike (fun _ _ alike => by cases alike <;> rfl) paired

end

/-! ## Judging a rule -/

namespace Arbiter

variable {a b : Arbiter} {world world' : World} {rule : String} {scheme : Option Scheme}
variable {p p' : Parties}

theorem events_alike
    (rules : (b.rules rule).map (·.document.wordless) = (a.rules rule).map (·.document.wordless))
    (settings : b.settings.wordless = a.settings.wordless) (parties : p'.nameless = p.nameless)
    (worlds : world.Alike world')
    (answers : (a.evaluation world rule scheme).AnswersAlike (b.evaluation world' rule scheme)) :
    List.Forall₂ Event.Alike (a.events world rule scheme p) (b.events world' rule scheme p') := by
  have alike : (a.evaluation world rule scheme).Alike (b.evaluation world' rule scheme) :=
    ⟨rfl, rfl, worlds, answers, settings⟩
  cases known : a.rules rule with
  | none =>
    rw [known, Option.map_none, Option.map_eq_none_iff] at rules
    simp only [events, known, rules]
    exact .cons (.fault _) .nil
  | some g =>
    rw [known, Option.map_some, Option.map_eq_some_iff] at rules
    obtain ⟨g', known', graphs⟩ := rules
    refine events_paired known known' (RuleGraph.start?_of_wordless graphs) (.fault _) ?_
      (alike.lockstep graphs)
    intro start _
    rw [Visit.nameless_first, Visit.nameless_first, parties]

/-- The wording of messages, the tokens and the names of actors steer nothing. Two evaluations that
differ in them only, with hosts that answer alike where only names differ, have the same outcome and
as many warnings and errors, and entries in the same place come from the same node or are the same
fault. -/
theorem wording_keeps_course (a b : Arbiter) (world world' : World) (rule : String)
    (scheme : Option Scheme) (p p' : Parties)
    (rules : (b.rules rule).map (·.document.wordless) = (a.rules rule).map (·.document.wordless))
    (settings : b.settings.wordless = a.settings.wordless) (parties : p'.nameless = p.nameless)
    (worlds : world.Alike world')
    (answers : (a.evaluation world rule scheme).AnswersAlike (b.evaluation world' rule scheme)) :
    let record := a.events world rule scheme p
    let record' := b.events world' rule scheme p'
    let verdict := Verdict.ofEvents record
    let verdict' := Verdict.ofEvents record'
    verdict'.state = verdict.state ∧
    verdict'.warnings.length = verdict.warnings.length ∧
    verdict'.errors.length = verdict.errors.length ∧
    (sourcedWarnings record').map Prod.fst = (sourcedWarnings record).map Prod.fst ∧
    (sourcedErrors record').map Prod.fst = (sourcedErrors record).map Prod.fst := by
  intro record record' verdict verdict'
  have paired : List.Forall₂ Event.Alike record record' :=
    events_alike rules settings parties worlds answers
  obtain ⟨warned, failed⟩ := sources_of_alike paired
  have warnings : verdict'.warnings.length = verdict.warnings.length := by
    have lengths := congrArg List.length warned
    simpa only [verdict, verdict', ← map_snd_sourcedWarnings, List.length_map] using lengths
  have errors : verdict'.errors.length = verdict.errors.length := by
    have lengths := congrArg List.length failed
    simpa only [verdict, verdict', ← map_snd_sourcedErrors, List.length_map] using lengths
  refine ⟨Verdict.state_congr ?_, warnings, errors, warned, failed⟩
  rw [← List.length_eq_zero_iff, ← List.length_eq_zero_iff, errors]

end Arbiter

/-- A graph that has the conspirator replaced by a rival, warns of a woman and refuses a man with a
warning on top, in wording that is given. -/
def RuleGraph.refusing (error warning : String) : RuleGraph where
  document :=
    { id := "refusing"
      nodes := [.start, .invoke "rival", .gender, .error error, .warning warning]
      wires := [⟨0, .run, 1, some .conspirator⟩, ⟨1, .true, 2, some .conspirator⟩,
        ⟨2, .male, 3, none⟩, ⟨2, .female, 4, none⟩, ⟨3, .next, 4, none⟩] }
  wellFormed := (GraphDocument.violation?_eq_none_iff _).1 rfl

/-- A host that always names the same actor takes no notice of what it is asked about. -/
theorem Bridge.invoke_naming (method asked : String) (id : ActorId) (c c' : Context) :
    invoke ⟨[.naming method id]⟩ asked c' = invoke ⟨[.naming method id]⟩ asked c := by
  unfold invoke
  cases found : provider? ⟨[.naming method id]⟩ asked with
  | none => rfl
  | some r =>
    obtain ⟨registered, -, -⟩ := mem_of_provider? found
    rw [List.mem_singleton.1 registered]
    rfl

theorem World.Alike.addActor {w w' : World} (alike : w.Alike w') {a a' : Actor}
    (same : a'.nameless = a.nameless) : (w.addActor a).Alike (w'.addActor a') where
  actors := by
    intro id
    have key : a'.id = a.id := by
      obtain ⟨name, rfl⟩ := Actor.exists_of_nameless same
      rfl
    unfold World.actor? World.addActor
    rw [Registry.find?_insert, Registry.find?_insert, key]
    split
    · rw [Option.map_some, Option.map_some, same]
    · exact alike.actors id
  clans := alike.clans
  families := alike.families
  roles := alike.roles
  cultures := alike.cultures
  vars := alike.vars

/-- In other words, under other names and with other tokens a rival is refused at the same node,
with the same warning on top. -/
theorem Arbiter.wording_keeps_course_refusing :
    let ada := Actor.create .nil "Ada" .female
    let eve := { ada with name := "Eve" }
    let bob := Actor.create ⟨⟨1⟩⟩ "Bob" .male
    let rob := { bob with name := "Rob" }
    let a : Arbiter :=
      { rules := fun _ => some (.refusing "$ is a man" "Mind $")
        bridge := ⟨[.naming "rival" bob.id]⟩
        settings := { conspiratorToken := "$" } }
    let b : Arbiter :=
      { rules := fun _ => some (.refusing "No men" "%, beware")
        bridge := a.bridge
        settings := { conspiratorToken := "%" } }
    let record := a.events (World.empty.addActor bob) "refusing" none ⟨ada, none⟩
    let record' := b.events (World.empty.addActor rob) "refusing" none ⟨eve, none⟩
    (Verdict.ofEvents record').state = (Verdict.ofEvents record).state ∧
      (sourcedErrors record').map Prod.fst = (sourcedErrors record).map Prod.fst ∧
      sourcedErrors record = [(.node 3, "Bob is a man")] ∧
      sourcedErrors record' = [(.node 3, "No men")] ∧
      sourcedWarnings record = [(.node 4, "Mind Bob")] ∧
      sourcedWarnings record' = [(.node 4, "Rob, beware")] := by
  intro ada eve bob rob a b record record'
  have nobody : World.empty.Alike World.empty :=
    ⟨fun _ => rfl, fun _ => rfl, fun _ => rfl, fun _ => rfl, fun _ => rfl, rfl⟩
  have worlds : (World.empty.addActor bob).Alike (World.empty.addActor rob) :=
    nobody.addActor rfl
  obtain ⟨state, -, -, -, failed⟩ := wording_keeps_course a b (World.empty.addActor bob)
    (World.empty.addActor rob) "refusing" none ⟨ada, none⟩ ⟨eve, none⟩ rfl rfl rfl worlds
    fun asked _ _ _ => Bridge.invoke_naming "rival" asked bob.id _ _
  refine ⟨state, failed, ?_, ?_, ?_, ?_⟩
  · decide +kernel
  · decide +kernel
  · decide +kernel
  · decide +kernel

end Stratagem
