import Stratagem.Message

/-!
# Scanning a template

A message is made in one pass over its template. Each turn of the pass takes up a token or one
character, and the pass ends when nothing of the template is left.

* `Parties.trials`: the tokens in force in the order in which each turn tries them, the one with
  more bytes first.
* `Scan.step` is one turn, and `Scan.Runs` a pass that has come to its end.
-/

namespace Stratagem

/-- How many bytes a text takes up in UTF-8. -/
def byteSize : List Char → Nat
  | [] => 0
  | c :: text => c.utf8Size + byteSize text

/-- The tokens in force, the conspirator's before the target's. -/
def Parties.inForce (p : Parties) (settings : WalkSettings) : List Token :=
  (Token.ofText? settings.conspiratorToken p.conspirator.name).toList
    ++ (p.target.bind fun t => Token.ofText? settings.targetToken t.name).toList

/-- The tokens in force in the order in which they are tried: the one with more bytes first, the
conspirator's of two with equally many. -/
def Parties.trials (p : Parties) (settings : WalkSettings) : List Token :=
  (p.inForce settings).mergeSort fun a b => byteSize b.text ≤ byteSize a.text

/-- A pass over a template: the message made so far and what is left of the template. -/
structure Scan where
  message : List Char
  rest : List Char
deriving DecidableEq, Repr

namespace Scan

/-- One turn of a pass, if there is anything left. -/
def step (trials : List Token) (s : Scan) : Option Scan :=
  match s.rest with
  | [] => none
  | c :: rest =>
    match Template.tokenAt? trials (c :: rest) with
    | some t => some ⟨s.message ++ t.name, (c :: rest).drop t.text.length⟩
    | none => some ⟨s.message ++ [c], rest⟩

/-- A pass that comes to its end after so many turns. -/
inductive Runs (trials : List Token) : Nat → Scan → Scan → Prop
  | done {s : Scan} : s.step trials = none → Runs trials 0 s s
  | turn {n : Nat} {s s' t : Scan} : s.step trials = some s' → Runs trials n s' t →
      Runs trials (n + 1) s t

variable {trials : List Token} {n m : Nat} {s t t' : Scan}

theorem step_eq_none_iff : s.step trials = none ↔ s.rest = [] := by
  obtain ⟨message, rest⟩ := s
  cases rest with
  | nil => exact ⟨fun _ => rfl, fun _ => rfl⟩
  | cons c rest =>
    constructor
    · intro ended
      simp only [step] at ended
      split at ended <;> cases ended
    · exact nofun

/-- A pass has one end, and comes to it after one number of turns. -/
theorem Runs.unique (one : Runs trials n s t) (other : Runs trials m s t') : n = m ∧ t = t' := by
  induction one generalizing m with
  | done ended =>
    cases other with
    | done _ => exact ⟨rfl, rfl⟩
    | turn goes _ =>
      rw [ended] at goes
      cases goes
  | turn goes _ ih =>
    cases other with
    | done ended =>
      rw [ended] at goes
      cases goes
    | turn goes' later =>
      obtain rfl := Option.some.inj (goes.symm.trans goes')
      obtain ⟨rfl, rfl⟩ := ih later
      exact ⟨rfl, rfl⟩

end Scan

end Stratagem
