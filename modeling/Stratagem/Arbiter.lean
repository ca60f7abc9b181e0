import Stratagem.Walk.Run

/-!
# The arbiter

An `Arbiter` judges rules: it has the rule graphs, the bridge to the host and the settings of
evaluation. Judging never fails; an unknown rule, a graph without a Start node and a path that the
visit guard cuts short are faults, and a fault is one more error of the verdict.

* `Arbiter.events` is the record of judging a rule, alone or for a scheme, and `Verdict.ofEvents`
  the verdict on it.
* `Scheme.events` checks first whether the scheme may have a target or must have one.
-/

namespace Stratagem

/-- What rules are judged with. -/
structure Arbiter where
  /-- The graph of each rule. -/
  rules : String → Option RuleGraph
  bridge : Bridge
  settings : WalkSettings := {}

namespace Arbiter

/-- What the visits share when a rule is judged. -/
def evaluation (a : Arbiter) (world : World) (rule : String) (scheme : Option Scheme) :
    Evaluation where
  rule := rule
  scheme := scheme
  world := world
  bridge := a.bridge
  settings := a.settings

/-- What happens when a rule is judged for the parties, on its own or for a scheme. -/
def events (a : Arbiter) (world : World) (rule : String) (scheme : Option Scheme) (p : Parties) :
    List Event :=
  match a.rules rule with
  | none => [.fault (.unknownRule rule)]
  | some g =>
    match g.start? with
    | none => [.fault (.missingStart rule)]
    | some start => ((Walk.start start p).run (a.evaluation world rule scheme) g).toList

/-- Judge a rule on its own. -/
def judge (a : Arbiter) (world : World) (rule : String) (p : Parties) : Verdict :=
  .ofEvents (a.events world rule none p)

/-- Judge the rule of a scheme, without a look at whether the target is in place. -/
def judgeScheme (a : Arbiter) (world : World) (s : Scheme) (p : Parties) : Verdict :=
  .ofEvents (a.events world s.ruleId (some s) p)

end Arbiter

namespace Scheme

/-- What is wrong with the target of a scheme, or with its absence. -/
def targetFault? (s : Scheme) (target : Option Actor) : Option RuleFault :=
  match s.solitary, target with
  | true, some _ => some (.targetNotAllowed s.id)
  | false, none => some (.targetRequired s.id)
  | _, _ => none

/-- What happens when a scheme is checked for the parties. -/
def events (s : Scheme) (a : Arbiter) (world : World) (p : Parties) : List Event :=
  match s.targetFault? p.target with
  | some fault => [.fault fault]
  | none => a.events world s.ruleId (some s) p

/-- Whether the parties may start a scheme, and why not. -/
def check (s : Scheme) (a : Arbiter) (world : World) (p : Parties) : Verdict :=
  .ofEvents (s.events a world p)

end Scheme

end Stratagem
