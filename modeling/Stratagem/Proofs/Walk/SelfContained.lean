import Stratagem.Proofs.Walk.Lockstep
import Stratagem.Proofs.Walk.Renaming
import Stratagem.Proofs.Walk.Situation

/-!
# Rules that ask nothing of the host

A condition looks at the records of the parties that it is given. Only Invoke nodes, and Get nodes
whose selector names a method, look further: they ask the host, and what an Invoke node is answered
is looked up in the world. A rule in which no such node can be reached is closed in itself.

* `NodeKind.consultsHost` tells these kinds apart, and `RuleGraph.SelfContained` says that wires lead
  to none of them from the Start node; `Reachable.of_closed` is the way to show it of a graph.
* `RuleGraph.SelfContained.outcome_eq`: at any other node a visit does the same in every evaluation
  of the same settings.
* `Arbiter.self_contained_verdict` is the result for the judging of a rule.
-/

namespace Stratagem

/-- Whether a node of a kind may ask a method of the host. -/
def NodeKind.consultsHost : NodeKind → Bool
  | .invoke _ => Bool.true
  | .getActor (.invoked _) | .getClan (.invoked _) | .getFamily (.invoked _) => Bool.true
  | _ => Bool.false

theorem Visit.asks?_of_not_consultsHost (v : Visit) {kind : NodeKind}
    (alone : kind.consultsHost = false) : v.asks? kind = none := by
  cases kind with
  | getActor selector | getClan selector | getFamily selector =>
    cases selector with
    | fixed value => rfl
    | invoked method => cases alone
  | invoke method => cases alone
  | _ => rfl

namespace RuleGraph

/-- No node that wires lead to from the Start node may ask a method of the host. -/
def SelfContained (g : RuleGraph) : Prop :=
  ∀ n kind, g.Reachable n → g.kind? n = some kind → kind.consultsHost = false

variable {g : RuleGraph} {n : NodeId}

/-- What holds of the Start node and is handed on by every wire holds of all nodes that wires lead
to. -/
theorem Reachable.of_closed {P : NodeId → Prop} (reachable : g.Reachable n)
    (start : ∀ start, g.start? = some start → P start)
    (closed : ∀ w ∈ g.document.wires, P w.source → P w.dest) : P n := by
  obtain ⟨first, found, route⟩ := reachable
  induction route with
  | refl => exact start first found
  | tail _ wired ih =>
    obtain ⟨w, hw, rfl, rfl⟩ := wired
    exact closed w hw ih

/-- At a node that can be reached in a self-contained graph a visit does the same in every evaluation
of the same settings, whatever world, bridge and scheme it has. -/
theorem SelfContained.outcome_eq {e e' : Evaluation} {v : Visit} (alone : g.SelfContained)
    (settings : e'.settings = e.settings) (here : g.Reachable v.node) :
    v.outcome e' g = v.outcome e g := by
  refine Visit.outcome_congr settings fun kind method known asks => ?_
  rw [v.asks?_of_not_consultsHost (alone v.node kind here known)] at asks
  cases asks

end RuleGraph

namespace Arbiter

variable {a b : Arbiter} {world world' : World} {rule : String} {scheme scheme' : Option Scheme}
variable {p : Parties} {g : RuleGraph}

theorem events_self_contained (known : a.rules rule = some g) (known' : b.rules rule = some g)
    (settings : b.settings = a.settings) (alone : g.SelfContained) :
    b.events world' rule scheme' p = a.events world rule scheme p := by
  refine events_congr (P := fun v => g.Reachable v.node) known known' settings ?_ ?_ ?_
  · exact fun start found => ⟨start, found, .refl⟩
  · exact fun v w here leads => here.wired leads.wired
  · exact fun v here => alone.outcome_eq settings here

/-- What a self-contained rule comes to is settled by its graph, the settings and the records of the
parties. Whatever world it is judged in, whatever host there is and whichever scheme it is judged
for, if any, the whole record is the same, and so is the verdict. -/
theorem self_contained_verdict (a b : Arbiter) (world world' : World) (rule : String) (p : Parties)
    (g : RuleGraph) (known : a.rules rule = some g) (known' : b.rules rule = some g)
    (settings : b.settings = a.settings) (alone : g.SelfContained) :
    b.judge world' rule p = a.judge world rule p ∧
    (∀ s : Scheme, s.ruleId = rule → b.judgeScheme world' s p = a.judge world rule p) ∧
    (∀ s s' : Scheme, s.ruleId = rule → s'.ruleId = rule →
      b.judgeScheme world' s' p = a.judgeScheme world s p) ∧
    ∀ scheme scheme', b.events world' rule scheme' p = a.events world rule scheme p := by
  have same : ∀ scheme scheme', b.events world' rule scheme' p = a.events world rule scheme p :=
    fun _ _ => events_self_contained known known' settings alone
  refine ⟨congrArg Verdict.ofEvents (same none none), ?_, ?_, same⟩
  · rintro s rfl
    exact congrArg Verdict.ofEvents (same none (some s))
  · rintro s s' rule' rule''
    unfold judgeScheme
    rw [rule', rule'']
    exact congrArg Verdict.ofEvents (same (some s) (some s'))

end Arbiter

/-- A graph that looks whether one of the parties is a parent of the other. It has an Invoke node as
well, which no wire leads to. -/
def RuleGraph.kinship : RuleGraph where
  document :=
    { id := "kinship"
      nodes := [.start, .isParent, .warning "kin", .invoke "summon"]
      wires := [⟨0, .run, 1, some .dual⟩, ⟨1, .true, 2, none⟩, ⟨3, .true, 2, none⟩] }
  wellFormed := (GraphDocument.violation?_eq_none_iff _).1 rfl

theorem RuleGraph.selfContained_kinship : RuleGraph.kinship.SelfContained := by
  intro n kind reachable known
  have few : n < 3 := by
    refine reachable.of_closed (P := (· < 3)) ?_ (by decide)
    intro start found
    obtain rfl : 0 = start := Option.some.inj found
    decide
  match n, few with
  | 0, _ | 1, _ | 2, _ =>
    obtain rfl := Option.some.inj known
    rfl

/-- A mother and her child are told apart from strangers by their records alone, also for a scheme,
with a host, and in a world that has neither of them. -/
theorem Arbiter.self_contained_verdict_kinship :
    let ada := Actor.create .nil "Ada" .female
    let cid := { Actor.create ⟨⟨1⟩⟩ "Cid" .male with parents := [ada.id] }
    let p : Parties := ⟨ada, some cid⟩
    let a : Arbiter := { rules := fun _ => some .kinship, bridge := .empty }
    let b := { a with bridge := ⟨[.naming "summon" ada.id]⟩ }
    let scheme := Scheme.create "adopt" "Adopt" "kinship"
    RuleGraph.kinship.SelfContained ∧
      b.judgeScheme .empty scheme p = a.judge ((World.empty.addActor ada).addActor cid) "kinship" p ∧
      (b.judgeScheme .empty scheme p).warnings.length = 1 := by
  intro ada cid p a b scheme
  obtain ⟨-, same, -⟩ := self_contained_verdict a b ((World.empty.addActor ada).addActor cid) .empty
    "kinship" p .kinship rfl rfl rfl RuleGraph.selfContained_kinship
  exact ⟨RuleGraph.selfContained_kinship, same scheme rfl, by decide +kernel⟩

end Stratagem
