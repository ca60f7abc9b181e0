import Stratagem.Proofs.Matchmaking

/-!
# How often a search gives way

A search counts the candidates that it has tried and yields behind a failed trial whenever the count
is a multiple of the batch. Only the last trial of a search can pass, so the count is that of the
failed trials.

* `Paced` are the records that such a search can leave, and `Search.paced_run` that every search of
  actors of the world leaves one.
* `Paced.resume`: how a record goes on from any trial in it, and `Paced.exists_trial_of_yield` what
  stands before a yield.
* `Paced.yieldCount_eq`: the yields of a whole record, counted by the failed trials.
* `Paced.trialCount_le`: how many trials can stand together.
* `Quest.pacing_exact` is the result.
-/

namespace Stratagem

/-! ## Counting trials -/

namespace SearchEvent

/-- Whether the rule was judged for a candidate. -/
def isTrial : SearchEvent → Bool
  | .tried .. => true
  | .yielded | .reported _ => false

/-- Whether the rule was judged for a candidate and failed. -/
def isFailure : SearchEvent → Bool
  | .tried _ events => !(Verdict.ofEvents events).passed
  | .yielded | .reported _ => false

end SearchEvent

/-- How often the rule was judged. -/
def trialCount (record : List SearchEvent) : Nat := record.countP SearchEvent.isTrial

/-- How often the rule was judged and failed. -/
def failureCount (record : List SearchEvent) : Nat := record.countP SearchEvent.isFailure

section Counts

variable (id : ActorId) (events : List Event) (rest : List SearchEvent)

@[simp] theorem trialCount_tried : trialCount (.tried id events :: rest) = trialCount rest + 1 :=
  List.countP_cons_of_pos rfl

@[simp] theorem yieldCount_tried : yieldCount (.tried id events :: rest) = yieldCount rest := rfl

@[simp] theorem yieldCount_yielded : yieldCount (.yielded :: rest) = yieldCount rest + 1 :=
  List.countP_cons_of_pos rfl

@[simp] theorem failureCount_yielded : failureCount (.yielded :: rest) = failureCount rest := rfl

variable {events}

theorem failureCount_of_passed (passed : (Verdict.ofEvents events).passed = true) :
    failureCount (.tried id events :: rest) = failureCount rest :=
  List.countP_cons_of_neg (by simp [SearchEvent.isFailure, passed])

theorem failureCount_of_fails (fails : (Verdict.ofEvents events).passed = false) :
    failureCount (.tried id events :: rest) = failureCount rest + 1 :=
  List.countP_cons_of_pos (by simp [SearchEvent.isFailure, fails])

end Counts

/-! ## Records that keep the pace -/

/-- What searches record that yield behind a failed trial whenever a batch is full, with a number of
failed trials behind them. -/
inductive Paced (batch : Nat) : Nat → List SearchEvent → Prop
  | noMatch {failed : Nat} : Paced batch failed [.reported none]
  | found {failed : Nat} {id : ActorId} {events : List Event} :
      (Verdict.ofEvents events).passed = true →
      Paced batch failed [.tried id events, .reported (some id)]
  /-- A failed trial that does not fill the batch. -/
  | onward {failed : Nat} {id : ActorId} {events : List Event} {rest : List SearchEvent} :
      (Verdict.ofEvents events).passed = false → ¬ batch ∣ failed + 1 →
      Paced batch (failed + 1) rest → Paced batch failed (.tried id events :: rest)
  /-- A failed trial that fills the batch. -/
  | full {failed : Nat} {id : ActorId} {events : List Event} {rest : List SearchEvent} :
      (Verdict.ofEvents events).passed = false → batch ∣ failed + 1 →
      Paced batch (failed + 1) rest → Paced batch failed (.tried id events :: .yielded :: rest)

/-- A search of actors of the world keeps the pace. -/
theorem Search.paced_run {q : Quest} {order : List ActorId}
    (resolves : ∀ id ∈ order, ∃ a, q.world.actor? id = some a) (tried : Nat) :
    Paced q.settings.batch tried (Search.run q ⟨order, tried⟩).2 := by
  induction order generalizing tried with
  | nil =>
    rw [run_nil]
    exact .noMatch
  | cons id rest ih =>
    obtain ⟨⟨candidate, found⟩, resolves⟩ := List.forall_mem_cons.1 resolves
    have later := ih resolves (tried + 1)
    cases passes : q.passes candidate with
    | true =>
      rw [run_cons_of_passes found passes]
      exact .found passes
    | false =>
      rw [run_cons_of_fails found passes]
      by_cases full : q.settings.batch ∣ tried + 1
      · rw [yields, if_pos (Nat.mod_eq_zero_of_dvd full)]
        exact .full passes full later
      · rw [yields, if_neg fun zero => full (Nat.dvd_of_mod_eq_zero zero)]
        exact .onward passes full later

namespace Paced

variable {batch failed : Nat} {record before after part : List SearchEvent} {id : ActorId}
variable {events : List Event}

/-- No search begins with a yield. -/
theorem head?_ne_yielded (paced : Paced batch failed record) : record.head? ≠ some .yielded := by
  cases paced <;> simp

/-- From any trial on, a record goes on as that of a search with the failed trials counted so far. -/
theorem resume (paced : Paced batch failed (before ++ .tried id events :: after)) :
    Paced batch (failed + failureCount before) (.tried id events :: after) := by
  generalize whole : before ++ .tried id events :: after = record at paced
  -- a failed trial that is passed over moves from the record into the count
  induction paced generalizing before with
  | noMatch => cases before <;> simp at whole
  | found passed =>
    rcases before with _ | ⟨x, _ | ⟨y, before⟩⟩
    · obtain ⟨trial, rfl⟩ := List.cons.inj whole
      exact trial ▸ .found passed
    · simp at whole
    · simp at whole
  | onward fails within later ih =>
    cases before with
    | nil =>
      obtain ⟨trial, rfl⟩ := List.cons.inj whole
      exact trial ▸ .onward fails within later
    | cons x before =>
      obtain ⟨rfl, tail⟩ := List.cons.inj whole
      have goesOn := ih tail
      rw [Nat.add_right_comm, Nat.add_assoc] at goesOn
      rw [failureCount_of_fails _ _ fails]
      exact goesOn
  | full fails fills later ih =>
    rcases before with _ | ⟨x, _ | ⟨y, before⟩⟩
    · obtain ⟨trial, rfl⟩ := List.cons.inj whole
      exact trial ▸ .full fails fills later
    · simp at whole
    · simp only [List.cons_append, List.cons.injEq] at whole
      obtain ⟨rfl, rfl, tail⟩ := whole
      have goesOn := ih tail
      rw [Nat.add_right_comm, Nat.add_assoc] at goesOn
      rw [failureCount_of_fails _ _ fails, failureCount_yielded]
      exact goesOn

/-- A passed trial ends the search. -/
theorem eq_reported (paced : Paced batch failed (.tried id events :: after))
    (passed : (Verdict.ofEvents events).passed = true) : after = [.reported (some id)] := by
  cases paced with
  | found _ => rfl
  | onward fails _ _ | full fails _ _ => cases fails.symm.trans passed

/-- A search yields behind a failed trial if and only if the trial fills the batch. -/
theorem yields_iff (paced : Paced batch failed (.tried id events :: after))
    (fails : (Verdict.ofEvents events).passed = false) :
    after.head? = some .yielded ↔ batch ∣ failed + 1 := by
  cases paced with
  | found passed => cases fails.symm.trans passed
  | onward _ within later =>
    exact ⟨fun yields => absurd yields later.head?_ne_yielded, fun fills => absurd fills within⟩
  | full _ fills _ => exact ⟨fun _ => fills, fun _ => rfl⟩

/-- Directly before a yield stands a failed trial that fills the batch. -/
theorem exists_trial_of_yield (paced : Paced batch failed (before ++ .yielded :: after)) :
    ∃ earlier id events, before = earlier ++ [.tried id events] ∧
      (Verdict.ofEvents events).passed = false ∧ batch ∣ failed + failureCount earlier + 1 := by
  generalize whole : before ++ .yielded :: after = record at paced
  induction paced generalizing before with
  | noMatch => cases before <;> simp at whole
  | found passed => rcases before with _ | ⟨x, _ | ⟨y, before⟩⟩ <;> simp at whole
  | @onward failed id events rest fails within later ih =>
    cases before with
    | nil => cases whole
    | cons x before =>
      simp only [List.cons_append, List.cons.injEq] at whole
      obtain ⟨rfl, tail⟩ := whole
      obtain ⟨earlier, last, judged, rfl, failed', fills⟩ := ih tail
      refine ⟨.tried id events :: earlier, last, judged, rfl, failed', ?_⟩
      rw [failureCount_of_fails _ _ fails]
      rwa [Nat.add_right_comm failed, Nat.add_assoc failed] at fills
  | @full failed id events rest fails fills later ih =>
    rcases before with _ | ⟨x, _ | ⟨y, before⟩⟩
    · cases whole
    · obtain ⟨rfl, -⟩ := List.cons.inj whole
      exact ⟨[], id, events, rfl, fails, fills⟩
    · simp only [List.cons_append, List.cons.injEq] at whole
      obtain ⟨rfl, rfl, tail⟩ := whole
      obtain ⟨earlier, last, judged, rfl, failed', fills'⟩ := ih tail
      refine ⟨.tried id events :: .yielded :: earlier, last, judged, rfl, failed', ?_⟩
      rw [failureCount_of_fails _ _ fails, failureCount_yielded]
      rwa [Nat.add_right_comm failed, Nat.add_assoc failed] at fills'

/-- A search yields once for every batch of failed trials. -/
theorem yieldCount_eq (paced : Paced batch failed record) :
    failed / batch + yieldCount record = (failed + failureCount record) / batch := by
  induction paced with
  | noMatch => rfl
  | found passed =>
    rw [failureCount_of_passed _ _ passed]
    rfl
  | @onward failed id events rest fails within later ih =>
    rw [failureCount_of_fails _ _ fails, yieldCount_tried, ← Nat.succ_div_of_not_dvd within, ih]
    congr 1
    exact Nat.add_right_comm ..
  | @full failed id events rest fails fills later ih =>
    rw [failureCount_of_fails _ _ fails, yieldCount_tried, failureCount_yielded,
      yieldCount_yielded, ← Nat.add_assoc, Nat.add_right_comm, ← Nat.succ_div_of_dvd fills, ih]
    congr 1
    exact Nat.add_right_comm ..

/-- Without a yield, trials can only fill the batch up. -/
theorem mod_add_trialCount_le (positive : 0 < batch) (paced : Paced batch failed (part ++ after))
    (quiet : yieldCount part = 0) : failed % batch + trialCount part ≤ batch := by
  generalize whole : part ++ after = record at paced
  have room (n : Nat) : n % batch + 1 ≤ batch := Nat.mod_lt n positive
  induction paced generalizing part with
  | @noMatch failed =>
    have noTrial : trialCount part = 0 := by
      rcases part with _ | ⟨x, part⟩
      · rfl
      · simp only [List.cons_append, List.cons.injEq, List.append_eq_nil_iff] at whole
        obtain ⟨rfl, rfl, -⟩ := whole
        rfl
    rw [noTrial]
    exact Nat.le_of_lt (room failed)
  | @found failed id events passed =>
    have oneTrial : trialCount part ≤ 1 := by
      rcases part with _ | ⟨x, _ | ⟨y, part⟩⟩
      · exact Nat.zero_le 1
      · obtain ⟨rfl, -⟩ := List.cons.inj whole
        exact Nat.le_refl 1
      · simp only [List.cons_append, List.cons.injEq, List.append_eq_nil_iff] at whole
        obtain ⟨rfl, rfl, rfl, -⟩ := whole
        exact Nat.le_refl 1
    exact Nat.le_trans (Nat.add_le_add_left oneTrial _) (room failed)
  | @onward failed id events rest fails within later ih =>
    cases part with
    | nil => exact Nat.le_of_lt (room failed)
    | cons x part =>
      simp only [List.cons_append, List.cons.injEq] at whole
      obtain ⟨rfl, tail⟩ := whole
      -- the batch is not full yet, so the remainder grows by the trial
      have next : (failed + 1) % batch = failed % batch + 1 := by
        have same := Nat.succ_div_of_not_dvd within
        have := Nat.div_add_mod failed batch
        have := Nat.div_add_mod (failed + 1) batch
        rw [same] at this
        omega
      rw [yieldCount_tried] at quiet
      have filled := ih quiet tail
      rw [next, Nat.add_right_comm] at filled
      rw [trialCount_tried]
      exact filled
  | @full failed id events rest fails fills later ih =>
    rcases part with _ | ⟨x, _ | ⟨y, part⟩⟩
    · exact Nat.le_of_lt (room failed)
    · obtain ⟨rfl, -⟩ := List.cons.inj whole
      exact room failed
    · simp only [List.cons_append, List.cons.injEq] at whole
      obtain ⟨rfl, rfl, -⟩ := whole
      rw [yieldCount_tried, yieldCount_yielded] at quiet
      cases quiet

/-- No more than a batch of trials stands together with no yield between them. -/
theorem trialCount_le (positive : 0 < batch)
    (paced : Paced batch failed (before ++ part ++ after)) (quiet : yieldCount part = 0) :
    trialCount part ≤ batch := by
  rw [List.append_assoc] at paced
  induction part generalizing before with
  | nil => exact Nat.zero_le _
  | cons x part ih =>
    -- what stands before the first trial of the part leaves the count as it is
    cases x with
    | tried id events =>
      have filled := mod_add_trialCount_le positive paced.resume quiet
      omega
    | yielded =>
      rw [yieldCount_yielded] at quiet
      cases quiet
    | reported found =>
      rw [List.cons_append, List.append_cons] at paced
      exact ih paced quiet

end Paced

/-! ## Yields and polls -/

/-- A poll that yields records that as the last thing. -/
theorem Search.exists_of_poll_yielded {q : Quest} {s s' : Search}
    (yielded : (s.poll q).1 = .yielded s') :
    ∃ trials, (s.poll q).2 = trials ++ [.yielded] ∧ yieldCount trials = 0 := by
  obtain ⟨order, tried⟩ := s
  change (q.pollFrom tried order).1 = _ at yielded
  change ∃ trials, (q.pollFrom tried order).2 = _ ∧ _
  fun_induction Quest.pollFrom q tried order with
  | case1 | case3 => cases yielded
  | case2 tried id rest unknown ih => exact ih yielded
  | case4 tried id rest candidate found events fails full => exact ⟨[.tried id events], rfl, rfl⟩
  | case5 tried id rest candidate found events fails within poll later later_eq ih =>
    rw [later_eq] at ih
    obtain ⟨trials, rfl, none⟩ := ih yielded
    exact ⟨.tried id events :: trials, rfl, none⟩

/-- A poll that ends the search records no yield. -/
theorem Search.yieldCount_of_poll_ended {q : Quest} {s : Search} {outcome : MatchOutcome}
    (ended : (s.poll q).1 = .ended outcome) : yieldCount (s.poll q).2 = 0 := by
  obtain ⟨order, tried⟩ := s
  change (q.pollFrom tried order).1 = _ at ended
  change yieldCount (q.pollFrom tried order).2 = 0
  fun_induction Quest.pollFrom q tried order with
  | case1 | case3 => rfl
  | case2 tried id rest unknown ih => exact ih ended
  | case4 => cases ended
  | case5 tried id rest candidate found events fails within poll later later_eq ih =>
    rw [later_eq] at ih
    exact ih ended

/-! ## The pace of a search -/

namespace Quest

/-- What is recorded of a trial is what happens when the rule is judged for the candidate. -/
theorem events_of_trial {q : Quest} {order : List ActorId}
    (shuffled : order.Perm (q.world.candidates q.seeker.id)) {id : ActorId} {events : List Event}
    (tried : .tried id events ∈ ((Search.start order).run q).2) :
    ∃ candidate, q.world.actor? id = some candidate ∧ events = q.events candidate := by
  obtain ⟨tries, _, -, known, -, told⟩ := exists_tries_of_perm shuffled
  have kept : .tried id events ∈ q.account ((Search.start order).run q).1 tries :=
    told ▸ List.mem_filter.2 ⟨tried, rfl⟩
  rcases List.mem_append.1 kept with kept | kept
  · obtain ⟨t, met, same⟩ := List.mem_map.1 kept
    obtain ⟨rfl, rfl⟩ := SearchEvent.tried.inj same
    exact ⟨t.2, known t met, rfl⟩
  · cases List.mem_singleton.1 kept

/-- The batch of a search is its batch size, or one if that is zero. A trial judges the rule for a
candidate. After one that passes a search only reports; after one that fails it yields exactly if the
number of failed trials so far is a multiple of the batch, and it yields nowhere else. So it yields
once for every full batch of failed trials, and no more than a batch of trials stands before, between
or behind the yields. Each yield is the end of a poll, and every poll that goes on ends in one. -/
theorem pacing_exact (q : Quest) {order : List ActorId}
    (shuffled : order.Perm (q.world.candidates q.seeker.id)) :
    let batch := max q.settings.batchSize.toNat 1
    let record := ((Search.start order).run q).2
    q.settings.batch = batch ∧ 0 < batch ∧
    (∀ before id events after, record = before ++ .tried id events :: after →
      (∃ candidate, q.world.actor? id = some candidate ∧ events = q.events candidate) ∧
      ((Verdict.ofEvents events).passed = true → after = [.reported (some id)]) ∧
      ((Verdict.ofEvents events).passed = false →
        (after.head? = some .yielded ↔ batch ∣ failureCount before + 1))) ∧
    (∀ before after, record = before ++ .yielded :: after →
      ∃ earlier id events, before = earlier ++ [.tried id events] ∧
        (Verdict.ofEvents events).passed = false ∧ batch ∣ failureCount earlier + 1) ∧
    yieldCount record = failureCount record / batch ∧
    (∀ before part after, record = before ++ part ++ after → yieldCount part = 0 →
      trialCount part ≤ batch) ∧
    ∀ s : Search,
      (∀ s', (s.poll q).1 = .yielded s' →
        ∃ trials, (s.poll q).2 = trials ++ [.yielded] ∧ yieldCount trials = 0) ∧
      ∀ outcome, (s.poll q).1 = .ended outcome → yieldCount (s.poll q).2 = 0 := by
  intro batch record
  have positive : 0 < batch := Nat.le_max_right _ 1
  have resolves : ∀ id ∈ order, ∃ a, q.world.actor? id = some a :=
    fun _ met => ((mem_order_iff shuffled).1 met).2.imp fun _ => And.left
  have paced : Paced batch 0 record := Search.paced_run resolves 0
  refine ⟨rfl, positive, ?_, ?_, ?_, ?_, fun s =>
    ⟨fun _ => Search.exists_of_poll_yielded, fun _ => Search.yieldCount_of_poll_ended⟩⟩
  · intro before id events after whole
    have onward := Paced.resume (whole ▸ paced)
    rw [Nat.zero_add] at onward
    have tried : .tried id events ∈ record :=
      whole ▸ List.mem_append_right _ List.mem_cons_self
    exact ⟨events_of_trial shuffled tried, onward.eq_reported, onward.yields_iff⟩
  · intro before after whole
    have led := Paced.exists_trial_of_yield (whole ▸ paced)
    simpa only [Nat.zero_add] using led
  · have counted := paced.yieldCount_eq
    rwa [Nat.zero_div, Nat.zero_add, Nat.zero_add] at counted
  · intro before part after whole quiet
    exact Paced.trialCount_le positive (whole ▸ paced) quiet

/-- The rule fails for two candidates before it passes for the third. In batches of two that makes
one yield, right before the trial that passes; with a batch size of zero there are two. -/
theorem pacing_exact_third :
    let women : RuleGraph :=
      { document :=
          { id := "women"
            nodes := [.start, .gender, .error "no"]
            wires := [⟨0, .run, 1, some .target⟩, ⟨1, .male, 2, none⟩] }
        wellFormed := (GraphDocument.violation?_eq_none_iff _).1 rfl }
    let bob := Actor.create ⟨⟨1⟩⟩ "Bob" .male
    let cid := Actor.create ⟨⟨2⟩⟩ "Cid" .male
    let dan := Actor.create ⟨⟨3⟩⟩ "Dan" .male
    let ada := Actor.create ⟨⟨4⟩⟩ "Ada" .female
    let q (batchSize : UInt64) : Quest :=
      { arbiter := { rules := fun _ => some women, bridge := .empty }
        world := [bob, ada, dan, cid].foldl World.addActor .empty
        rule := "women"
        seeker := bob
        settings := { batchSize } }
    let record (batchSize : UInt64) := ((Search.start [cid.id, dan.id, ada.id]).run (q batchSize)).2
    [cid.id, dan.id, ada.id].Perm ((q 2).world.candidates bob.id) ∧
      (record 2).map SearchEvent.isYield = [false, false, true, false, false] ∧
      yieldCount (record 2) = 1 ∧ yieldCount (record 0) = 2 := by
  intro women bob cid dan ada q record
  have entered : [cid.id, dan.id, ada.id].Perm ((q 2).world.candidates bob.id) := by
    refine List.Perm.trans ?_ ((q 2).world.candidates_perm bob.id).symm
    decide +kernel
  have inPairs : yieldCount (record 2) = failureCount (record 2) / 2 :=
    (pacing_exact (q 2) entered).2.2.2.2.1
  have oneByOne : yieldCount (record 0) = failureCount (record 0) / 1 :=
    (pacing_exact (q 0) entered).2.2.2.2.1
  have fails : failureCount (record 2) = 2 ∧ failureCount (record 0) = 2 := by decide +kernel
  rw [fails.1] at inPairs
  rw [fails.2] at oneByOne
  exact ⟨entered, by decide +kernel, inPairs, oneByOne⟩

end Quest
end Stratagem
