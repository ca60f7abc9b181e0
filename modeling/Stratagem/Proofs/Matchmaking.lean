import Stratagem.Matchmaking

/-!
# What a search finds

A search takes the candidates of its pool in some order and judges the rule for each until it passes
for one. The order and the yields decide which candidate is found and when, but not whether one is.

* `Search.run_cons_of_passes` and `Search.run_cons_of_fails` are the steps of a whole search.
* `World.mem_candidates`: who is in the pool.
* `Quest.Ends`: how a search over given candidates can end.
* `Quest.search_exact` is the result.
-/

namespace Stratagem

/-! ## The pool -/

theorem World.mem_actorIds {w : World} {id : ActorId} :
    id ∈ w.actorIds ↔ ∃ a, w.actor? id = some a := by
  rw [World.actorIds, List.mem_mergeSort, ← Registry.contains_iff]
  exact Option.isSome_iff_exists

/-- The pool has the active actors under other keys than the id of the seeker. -/
theorem World.mem_candidates {w : World} {seeker id : ActorId} :
    id ∈ w.candidates seeker ↔ id ≠ seeker ∧ ∃ a, w.actor? id = some a ∧ a.isActive = true := by
  unfold World.candidates
  rw [List.mem_filter, mem_actorIds]
  constructor
  · rintro ⟨⟨a, found⟩, eligible⟩
    rw [found] at eligible
    exact ⟨by simpa using (Bool.and_eq_true_iff.1 eligible).1, a, found,
      (Bool.and_eq_true_iff.1 eligible).2⟩
  · rintro ⟨other, a, found, active⟩
    rw [found]
    exact ⟨⟨a, rfl⟩, Bool.and_eq_true_iff.2 ⟨by simpa using other, active⟩⟩

theorem World.nodup_candidates (w : World) (seeker : ActorId) : (w.candidates seeker).Nodup :=
  ((List.mergeSort_perm ..).nodup_iff.2 w.actors.nodup_keys).filter _

/-- The pool is made of the keys of the actors, in whatever order they were entered. -/
theorem World.candidates_perm (w : World) (seeker : ActorId) :
    (w.candidates seeker).Perm
      (w.actors.keys.filter fun id => id ≠ seeker && (w.actor? id).any Actor.isActive) :=
  (List.mergeSort_perm ..).filter _

/-! ## One candidate after the other -/

namespace Search

variable {q : Quest} {id : ActorId} {candidate : Actor} {rest : List ActorId} {tried : Nat}
variable {s s' : Search} {outcome : MatchOutcome} {events : List SearchEvent}

theorem run_of_ended (polled : s.poll q = (.ended outcome, events)) :
    s.run q = (outcome, events) := by
  rw [run]
  split
  · next polled' =>
    cases polled.symm.trans polled'
    rfl
  · next polled' => cases polled.symm.trans polled'

theorem run_of_yielded (polled : s.poll q = (.yielded s', events)) :
    s.run q = ((s'.run q).1, events ++ (s'.run q).2) := by
  rw [run]
  split
  · next polled' => cases polled.symm.trans polled'
  · next polled' =>
    cases polled.symm.trans polled'
    rfl

theorem run_nil (q : Quest) (tried : Nat) :
    run q ⟨[], tried⟩ = (.noMatch, [.reported none]) :=
  run_of_ended rfl

/-- A search ends with the candidate that the rule passes for. -/
theorem run_cons_of_passes (found : q.world.actor? id = some candidate)
    (passes : q.passes candidate = true) :
    run q ⟨id :: rest, tried⟩ =
      (.found id, [.tried id (q.events candidate), .reported (some id)]) := by
  refine run_of_ended ?_
  simp only [poll, Quest.pollFrom, found]
  exact if_pos passes

/-- What comes after a failed trial: a yield, if the trial has filled a batch. -/
def yields (q : Quest) (tried : Nat) : List SearchEvent :=
  if tried % q.settings.batch = 0 then [.yielded] else []

/-- A search goes on behind a candidate that the rule fails for, with a yield after a full batch. -/
theorem run_cons_of_fails (found : q.world.actor? id = some candidate)
    (fails : q.passes candidate = false) :
    run q ⟨id :: rest, tried⟩ =
      ((run q ⟨rest, tried + 1⟩).1,
        .tried id (q.events candidate) :: yields q (tried + 1) ++
          (run q ⟨rest, tried + 1⟩).2) := by
  have failed : (Verdict.ofEvents (q.events candidate)).passed = false := fails
  by_cases full : (tried + 1) % q.settings.batch = 0
  · have polled : poll q ⟨id :: rest, tried⟩ =
        (.yielded ⟨rest, tried + 1⟩, [.tried id (q.events candidate), .yielded]) := by
      simp [poll, Quest.pollFrom, found, failed, full]
    rw [run_of_yielded polled, yields, if_pos full]
  · have polled : poll q ⟨id :: rest, tried⟩ =
        ((poll q ⟨rest, tried + 1⟩).1,
          .tried id (q.events candidate) :: (poll q ⟨rest, tried + 1⟩).2) := by
      simp [poll, Quest.pollFrom, found, failed, full]
    rw [yields, if_neg full]
    -- the trial stands in front of whatever the rest of this poll comes to
    obtain ⟨comes, later⟩ : ∃ comes, (poll q ⟨rest, tried + 1⟩).1 = comes := ⟨_, rfl⟩
    cases comes with
    | ended outcome =>
      rw [run_of_ended (polled.trans (Prod.ext later rfl)), run_of_ended (Prod.ext later rfl)]
      rfl
    | yielded s' =>
      rw [run_of_yielded (polled.trans (Prod.ext later rfl)), run_of_yielded (Prod.ext later rfl)]
      rfl

end Search

/-! ## How a search ends -/

/-- A search ends with the candidate that was tried last if the rule passes for it, and otherwise
when no candidate is left; the rule has failed for all that were tried before. -/
inductive Quest.Ends (q : Quest) : MatchOutcome → List (ActorId × Actor) → List ActorId → Prop
  | found (earlier : List (ActorId × Actor)) (id : ActorId) (candidate : Actor)
      (untried : List ActorId) : (∀ t ∈ earlier, q.passes t.2 = false) →
      q.passes candidate = true → q.Ends (.found id) (earlier ++ [(id, candidate)]) untried
  | noMatch (tries : List (ActorId × Actor)) : (∀ t ∈ tries, q.passes t.2 = false) →
      q.Ends .noMatch tries []

namespace Quest

variable {q : Quest} {outcome : MatchOutcome} {tries : List (ActorId × Actor)}
variable {untried order : List ActorId}

theorem Ends.cons {t : ActorId × Actor} (fails : q.passes t.2 = false)
    (ends : q.Ends outcome tries untried) : q.Ends outcome (t :: tries) untried := by
  cases ends with
  | found earlier id candidate untried failed passes =>
    exact .found (t :: earlier) id candidate untried (List.forall_mem_cons.2 ⟨fails, failed⟩) passes
  | noMatch tries failed => exact .noMatch _ (List.forall_mem_cons.2 ⟨fails, failed⟩)

/-- What a host sees of a search apart from its yields: the trials and the report. -/
def account (q : Quest) (outcome : MatchOutcome) (tries : List (ActorId × Actor)) :
    List SearchEvent :=
  tries.map (fun t => .tried t.1 (q.events t.2)) ++ [.reported outcome.actor?]

theorem filter_yields (q : Quest) (tried : Nat) :
    (Search.yields q tried).filter (fun x => !x.isYield) = [] := by
  unfold Search.yields
  split <;> rfl

/-- A search tries the first candidates of its order, one by one. -/
theorem exists_tries (resolves : ∀ id ∈ order, ∃ a, q.world.actor? id = some a) (tried : Nat) :
    ∃ tries untried, order = tries.map Prod.fst ++ untried ∧
      (∀ t ∈ tries, q.world.actor? t.1 = some t.2) ∧
      q.Ends (Search.run q ⟨order, tried⟩).1 tries untried ∧
      (Search.run q ⟨order, tried⟩).2.filter (fun x => !x.isYield) =
        q.account (Search.run q ⟨order, tried⟩).1 tries := by
  -- how many were tried before decides the yields only, so the induction is on the order alone
  induction order generalizing tried with
  | nil =>
    rw [Search.run_nil]
    exact ⟨[], [], rfl, nofun, .noMatch [] nofun, rfl⟩
  | cons id rest ih =>
    obtain ⟨⟨candidate, found⟩, resolves⟩ := List.forall_mem_cons.1 resolves
    cases passes : q.passes candidate with
    | true =>
      rw [Search.run_cons_of_passes found passes]
      exact ⟨[(id, candidate)], rest, rfl, List.forall_mem_singleton.2 found,
        .found [] id candidate rest nofun passes, rfl⟩
    | false =>
      obtain ⟨tries, untried, rfl, known, ends, record⟩ := ih resolves (tried + 1)
      rw [Search.run_cons_of_fails found passes]
      refine ⟨(id, candidate) :: tries, untried, rfl, List.forall_mem_cons.2 ⟨found, known⟩,
        ends.cons passes, ?_⟩
      rw [List.cons_append, List.filter_cons_of_pos rfl, List.filter_append, filter_yields, record]
      rfl

theorem mem_order_iff (shuffled : order.Perm (q.world.candidates q.seeker.id)) {id : ActorId} :
    id ∈ order ↔ id ≠ q.seeker.id ∧ ∃ a, q.world.actor? id = some a ∧ a.isActive = true :=
  shuffled.mem_iff.trans World.mem_candidates

/-- Whoever stands in the order of a search is active and not the seeker. -/
theorem eligible_of_mem (shuffled : order.Perm (q.world.candidates q.seeker.id)) {id : ActorId}
    {candidate : Actor} (met : id ∈ order) (found : q.world.actor? id = some candidate) :
    id ≠ q.seeker.id ∧ candidate.isActive = true := by
  obtain ⟨other, a, found', active⟩ := (mem_order_iff shuffled).1 met
  cases found.symm.trans found'
  exact ⟨other, active⟩

/-- A search of the pool tries the first of it, in whatever order the pool is. -/
theorem exists_tries_of_perm (shuffled : order.Perm (q.world.candidates q.seeker.id)) :
    ∃ tries untried, order = tries.map Prod.fst ++ untried ∧
      (∀ t ∈ tries, q.world.actor? t.1 = some t.2) ∧
      q.Ends ((Search.start order).run q).1 tries untried ∧
      ((Search.start order).run q).2.filter (fun x => !x.isYield) =
        q.account ((Search.start order).run q).1 tries :=
  exists_tries (fun _ met => ((mem_order_iff shuffled).1 met).2.imp fun _ => And.left) 0

/-- A search reports once, and it reports its outcome. -/
theorem reports_account : (q.account outcome tries).filterMap SearchEvent.report? =
    [outcome.actor?] := by
  unfold account
  rw [List.filterMap_append, List.filterMap_map]
  have silent : tries.filterMap (SearchEvent.report? ∘ fun t => .tried t.1 (q.events t.2)) = [] :=
    List.filterMap_eq_nil_iff.2 fun _ _ => rfl
  rw [silent]
  rfl

/-- Yields report nothing. -/
theorem reports_filter (events : List SearchEvent) :
    (events.filter fun x => !x.isYield).filterMap SearchEvent.report? =
      events.filterMap SearchEvent.report? := by
  have same : (fun x => if (!x.isYield) = true then x.report? else none) = SearchEvent.report? := by
    funext x
    cases x <;> rfl
  rw [List.filterMap_filter, same]

/-- No match is found if and only if the rule fails for everybody in the pool. -/
theorem outcome_eq_noMatch_iff (shuffled : order.Perm (q.world.candidates q.seeker.id)) :
    ((Search.start order).run q).1 = .noMatch ↔
      ∀ id a, q.world.actor? id = some a → a.isActive = true → id ≠ q.seeker.id →
        q.passes a = false := by
  obtain ⟨tries, untried, split, known, ends, -⟩ := exists_tries_of_perm shuffled
  constructor
  · intro none id a found active other
    rw [none] at ends
    cases ends with
    | noMatch _ failed =>
      -- nobody is left untried, so everybody in the pool was tried
      have met : id ∈ tries.map Prod.fst := by
        rw [List.append_nil] at split
        exact split ▸ (mem_order_iff shuffled).2 ⟨other, a, found, active⟩
      obtain ⟨t, ht, rfl⟩ := List.mem_map.1 met
      cases (known t ht).symm.trans found
      exact failed t ht
  · intro all
    generalize ((Search.start order).run q).1 = outcome at ends
    cases ends with
    | noMatch _ _ => rfl
    | found earlier id candidate untried _ passes =>
      -- the candidate that was found belongs to the pool, for which the rule should fail
      have found : q.world.actor? id = some candidate :=
        known (id, candidate) (List.mem_append_right _ (List.mem_singleton_self _))
      have met : id ∈ order := by simp [split]
      obtain ⟨other, active⟩ := eligible_of_mem shuffled met found
      cases passes.symm.trans (all id candidate found active other)

/-- Whether a match is found depends neither on the order of the pool nor on the settings. -/
theorem isSome_actor?_eq (shuffled : order.Perm (q.world.candidates q.seeker.id))
    {order' : List ActorId} (shuffled' : order'.Perm (q.world.candidates q.seeker.id))
    (settings : SearchSettings) :
    ((Search.start order').run { q with settings }).1.actor?.isSome =
      ((Search.start order).run q).1.actor?.isSome := by
  have isSome : ∀ outcome : MatchOutcome, outcome.actor?.isSome = true ↔ ¬outcome = .noMatch := by
    intro outcome
    cases outcome <;> simp [MatchOutcome.actor?]
  have alike : ((Search.start order').run { q with settings }).1 = .noMatch ↔
      ((Search.start order).run q).1 = .noMatch :=
    (outcome_eq_noMatch_iff (q := { q with settings }) shuffled').trans
      (outcome_eq_noMatch_iff shuffled).symm
  rw [Bool.eq_iff_iff, isSome, isSome, alike]

/-- In whatever order the pool is taken, a search judges the rule for its candidates one by one in
that order, for each at most once and for none after the first that it passes for. A candidate that
is found is an active actor under another key than the id of the seeker, and the rule passes for it
and fails for all that were tried before; no match is found exactly if the rule fails for every
active actor under such a key. Whether one is found is the same for all orders and settings. The
host is told once, and it is told the outcome. -/
theorem search_exact (q : Quest) {order : List ActorId}
    (shuffled : order.Perm (q.world.candidates q.seeker.id)) :
    let verdict (a : Actor) := q.arbiter.judge q.world q.rule ⟨q.seeker, some a⟩
    let outcome := ((Search.start order).run q).1
    let record := ((Search.start order).run q).2
    (∃ (tries : List (ActorId × Actor)) (untried : List ActorId),
      order = tries.map Prod.fst ++ untried ∧ (tries.map Prod.fst).Nodup ∧
      (∀ t ∈ tries, q.world.actor? t.1 = some t.2) ∧
      record.filter (fun x => !x.isYield) = q.account outcome tries ∧
      (outcome = .noMatch → untried = []) ∧
      ∀ id, outcome = .found id → ∃ earlier a, tries = earlier ++ [(id, a)] ∧
        id ≠ q.seeker.id ∧ a.isActive = true ∧ (verdict a).passed = true ∧
        ∀ t ∈ earlier, (verdict t.2).passed = false) ∧
    (outcome = .noMatch ↔ ∀ id a, q.world.actor? id = some a → a.isActive = true →
      id ≠ q.seeker.id → (verdict a).passed = false) ∧
    (∀ settings order', order'.Perm (q.world.candidates q.seeker.id) →
      ((Search.start order').run { q with settings }).1.actor?.isSome = outcome.actor?.isSome) ∧
    record.filterMap SearchEvent.report? = [outcome.actor?] := by
  intro verdict outcome record
  obtain ⟨tries, untried, split, known, ends, told⟩ := exists_tries_of_perm shuffled
  change q.Ends outcome tries untried at ends
  change record.filter _ = q.account outcome tries at told
  refine ⟨⟨tries, untried, split, ?_, known, told, ?_, ?_⟩, outcome_eq_noMatch_iff shuffled,
    fun settings order' shuffled' => isSome_actor?_eq shuffled shuffled' settings, ?_⟩
  · have distinct : order.Nodup := shuffled.nodup_iff.2 (World.nodup_candidates ..)
    exact distinct.sublist (split ▸ List.sublist_append_left _ _)
  · intro none
    rw [none] at ends
    cases ends
    rfl
  · intro id found
    rw [found] at ends
    cases ends with
    | found earlier _ candidate untried failed passes =>
      have own : q.world.actor? id = some candidate :=
        known (id, candidate) (List.mem_append_right _ (List.mem_singleton_self _))
      have met : id ∈ order := by simp [split]
      obtain ⟨other, active⟩ := eligible_of_mem shuffled met own
      exact ⟨earlier, candidate, rfl, other, active, passes, failed⟩
  · rw [← reports_filter, told, reports_account]

/-- Of three others one is passive, and the rule fails for the first of the rest: the second is
found, and the passive one is never tried. -/
theorem search_exact_second :
    let women : RuleGraph :=
      { document :=
          { id := "women"
            nodes := [.start, .gender, .error "no"]
            wires := [⟨0, .run, 1, some .target⟩, ⟨1, .male, 2, none⟩] }
        wellFormed := (GraphDocument.violation?_eq_none_iff _).1 rfl }
    let bob := Actor.create ⟨⟨1⟩⟩ "Bob" .male
    let cid := Actor.create ⟨⟨2⟩⟩ "Cid" .male
    let eve := { Actor.create ⟨⟨3⟩⟩ "Eve" .female with state := .passive }
    let ada := Actor.create ⟨⟨4⟩⟩ "Ada" .female
    let q : Quest :=
      { arbiter := { rules := fun _ => some women, bridge := .empty }
        world := [bob, ada, cid, eve].foldl World.addActor .empty
        rule := "women"
        seeker := bob
        settings := {} }
    let result := (Search.start [cid.id, ada.id]).run q
    [cid.id, ada.id].Perm (q.world.candidates bob.id) ∧ result.1 = .found ada.id ∧
      result.2.filterMap SearchEvent.report? = [some ada.id] ∧
      ∀ settings,
        ((Search.start [ada.id, cid.id]).run { q with settings }).1.actor?.isSome = true := by
  intro women bob cid eve ada q result
  have entered : [ada.id, cid.id].Perm (q.world.candidates bob.id) :=
    (q.world.candidates_perm bob.id).symm
  have shuffled := (List.Perm.swap ada.id cid.id []).trans entered
  obtain ⟨-, -, alike, told⟩ := search_exact q shuffled
  have found : result.1 = .found ada.id := by decide +kernel
  refine ⟨shuffled, found, told.trans (congrArg (fun o => [MatchOutcome.actor? o]) found), ?_⟩
  intro settings
  exact (alike settings _ entered).trans (congrArg (fun o => (MatchOutcome.actor? o).isSome) found)

end Quest

end Stratagem
