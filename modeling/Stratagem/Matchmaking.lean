import Stratagem.Arbiter

/-!
# Searching for a match

A search tries candidates one by one until a rule passes for the seeker and a candidate. It yields
to its host after every batch of failed evaluations, so several searches can take turns.

* `World.candidates` is the pool: the keys of the active actors other than the seeker. The order
  in which a search tries them is any order of the pool.
* `Search.poll` goes on with a search until it yields or ends.
* `Search.run` polls to the end and gives the outcome, with a record of the candidates tried, the
  yields and the one report.
-/

namespace Stratagem

/-- The keys of the active actors other than the seeker, in ascending order. -/
def World.candidates (w : World) (seeker : ActorId) : List ActorId :=
  w.actorIds.filter fun id => id ≠ seeker && (w.actor? id).any Actor.isActive

/-- How a search ends. -/
inductive MatchOutcome
  | found (id : ActorId)
  | noMatch
deriving DecidableEq, Repr

def MatchOutcome.actor? : MatchOutcome → Option ActorId
  | .found id => some id
  | .noMatch => none

/-- What a search does that its host can tell. -/
inductive SearchEvent
  /-- The rule was judged for a candidate, and this happened. -/
  | tried (candidate : ActorId) (events : List Event)
  | yielded
  /-- The host was told the result. -/
  | reported (found : Option ActorId)

namespace SearchEvent

/-- What happened in the evaluation of a rule. -/
def events : SearchEvent → List Event
  | .tried _ events => events
  | .yielded | .reported _ => []

def isYield : SearchEvent → Bool
  | .yielded => true
  | .tried .. | .reported _ => false

/-- What the host was told. -/
def report? : SearchEvent → Option (Option ActorId)
  | .reported found => some found
  | .tried .. | .yielded => none

end SearchEvent

/-- How often a search yielded. -/
def yieldCount (events : List SearchEvent) : Nat := events.countP SearchEvent.isYield

/-- What a search needs to know. -/
structure Quest where
  arbiter : Arbiter
  world : World
  rule : String
  seeker : Actor
  settings : SearchSettings

/-- Evaluations between two yields. -/
def SearchSettings.batch (s : SearchSettings) : Nat := max s.batchSize.toNat 1

/-- A search between two polls. -/
structure Search where
  /-- The candidates that have not been tried, in the order in which they will be. -/
  remaining : List ActorId
  /-- How many candidates have been tried. -/
  tried : Nat
deriving DecidableEq, Repr

/-- What a poll comes to. -/
inductive Poll
  | yielded (s : Search)
  | ended (outcome : MatchOutcome)
deriving DecidableEq, Repr

namespace Quest

/-- What happens when the rule is judged for a candidate. -/
def events (q : Quest) (candidate : Actor) : List Event :=
  q.arbiter.events q.world q.rule none ⟨q.seeker, some candidate⟩

/-- Whether the rule passes for a candidate. -/
def passes (q : Quest) (candidate : Actor) : Bool := (Verdict.ofEvents (q.events candidate)).passed

/-- Try candidates until one passes, none is left, or a batch is full; and what happened on the
way. -/
def pollFrom (q : Quest) (tried : Nat) : List ActorId → Poll × List SearchEvent
  | [] => (.ended .noMatch, [.reported none])
  | id :: rest =>
    match q.world.actor? id with
    | none => q.pollFrom (tried + 1) rest
    | some candidate =>
      let events := q.events candidate
      if (Verdict.ofEvents events).passed then
        (.ended (.found id), [.tried id events, .reported (some id)])
      else if (tried + 1) % q.settings.batch = 0 then
        (.yielded { remaining := rest, tried := tried + 1 }, [.tried id events, .yielded])
      else
        let (poll, later) := q.pollFrom (tried + 1) rest
        (poll, .tried id events :: later)

end Quest

namespace Search

/-- The search that tries candidates in a given order. -/
def start (order : List ActorId) : Search := { remaining := order, tried := 0 }

/-- Go on with a search until it yields or ends. -/
def poll (q : Quest) (s : Search) : Poll × List SearchEvent := q.pollFrom s.tried s.remaining

/-- A search that yields has fewer candidates left. -/
theorem length_remaining_lt {q : Quest} {tried : Nat} {order : List ActorId} {s : Search}
    (h : (q.pollFrom tried order).1 = .yielded s) : s.remaining.length < order.length := by
  induction order generalizing tried with
  | nil => cases h
  | cons id rest ih =>
    unfold Quest.pollFrom at h
    split at h
    · exact Nat.lt_succ_of_lt (ih h)
    · dsimp only at h
      split at h
      · cases h
      · split at h
        · cases h
          exact Nat.lt_succ_self _
        · exact Nat.lt_succ_of_lt (ih h)

/-- Poll a search to its end: the outcome, and what happened on the way. -/
def run (q : Quest) (s : Search) : MatchOutcome × List SearchEvent :=
  match _h : s.poll q with
  | (.ended outcome, events) => (outcome, events)
  | (.yielded s', events) =>
    let (outcome, later) := s'.run q
    (outcome, events ++ later)
termination_by s.remaining.length
decreasing_by exact length_remaining_lt (congrArg Prod.fst _h)

/-- Poll several searches in turn, each round in the same order, until all have ended: what
happened, in order. -/
def takeTurns (polled : List (Quest × Search)) : List SearchEvent :=
  match polled with
  | [] => []
  | (q, s) :: rest =>
    match _h : s.poll q with
    | (.ended _, events) => events ++ takeTurns rest
    | (.yielded s', events) => events ++ takeTurns (rest ++ [(q, s')])
termination_by total (fun turn => turn.2.remaining.length + 1) polled
decreasing_by
  · simp only [total_cons]
    omega
  · have := length_remaining_lt (congrArg Prod.fst _h)
    simp only [total_append, total_cons, total_nil]
    omega

end Search

/-- Judge a rule for a pair, then yield once: whether it passes, and what happened. -/
def Quest.checkPair (q : Quest) (candidate : Actor) : Bool × List SearchEvent :=
  (q.passes candidate, [.tried candidate.id (q.events candidate), .yielded])

end Stratagem
