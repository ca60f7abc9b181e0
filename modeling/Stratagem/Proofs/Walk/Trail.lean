import Stratagem.Proofs.Walk.Admission
import Stratagem.Proofs.Walk.Termination

/-!
# The trail of a walk

The steps of all branches share one trail, and the visits that wait on the stack hold indices into
it. What is said of the trail is therefore said of both: a visit that waits continues from a step
that is there, by a link of the graph, and once it is entered the same is said of its own step.

* `RuleGraph.Joins` is a link between two nodes, and `Trail.Links` that a step was reached by one.
* `Trail.Sound` is what holds of the trail and of the paths in it; `Walk.Sound.enter` that a visit
  keeps it, and `Walk.Sound.advance` that it keeps what is said of the stack as well.
* `WayBack` is the way back along the parents of a step, with a counter of 32 bits.
  `Trail.Sound.wayBack`: in a sound trail there is one from every origin, and the guard rules by
  what it comes to.
* `Walk.trails_sound` is the result for every evaluation.
-/

namespace Stratagem

/-! ## Links between steps -/

/-- A wire joins a port of one node to another, through a channel. -/
def RuleGraph.Joins (g : RuleGraph) (source dest : NodeId) (channel : Option Channel) : Prop :=
  ∃ kind port, g.kind? source = some kind ∧ port ∈ kind.ports ∧
    ⟨dest, channel⟩ ∈ g.outputs source port

/-- A visit that follows another is joined to it, by the port that was decided on. -/
theorem Visit.Leads.joins {e : Evaluation} {g : RuleGraph} {v w : Visit} (h : v.Leads e g w) :
    g.Joins v.node w.node w.channel := by
  obtain ⟨known, decided, linked⟩ := h
  exact ⟨_, _, known, Visit.decide_port_mem decided, linked⟩

namespace Trail

variable {g : RuleGraph} {t : Trail} {s : Situation} {origin : Option Nat}
variable {step : Step} {i : Nat}

/-- A step that has a parent was reached from it by a link of the graph, and the parent is there. -/
def Links (g : RuleGraph) (t : Trail) (step : Step) : Prop :=
  ∀ p, step.parent = some p → ∃ parent, t.steps[p]? = some parent ∧
    g.Joins parent.situation.node step.situation.node step.situation.channel

theorem getElem?_push_of_lt (known : t.Has origin) (there : i < t.size) :
    (t.push s origin known).steps[i]? = t.steps[i]? := by
  show (t.steps.push _)[i]? = _
  rw [Array.getElem?_push, if_neg (Nat.ne_of_lt there)]

theorem getElem?_push_size (known : t.Has origin) :
    (t.push s origin known).steps[t.size]? = some ⟨s, origin⟩ :=
  Array.getElem?_push_size

/-- A step that is added is behind no link that was there. -/
theorem Links.push (links : t.Links g step) (known : t.Has origin) :
    (t.push s origin known).Links g step := by
  intro p hp
  obtain ⟨parent, there, joined⟩ := links p hp
  have old : p < t.size := (Array.getElem?_eq_some_iff.1 there).1
  exact ⟨parent, (getElem?_push_of_lt known old).trans there, joined⟩

theorem path_eq_cons (there : t.steps[i]? = some step) :
    t.path (some i) = step.situation :: t.path step.parent := by
  obtain ⟨lt, rfl⟩ := Array.getElem?_eq_some_iff.1 there
  rw [path, dif_pos lt, pathTo_eq]

/-- What holds of Start and of every step if it holds of its parent holds of every origin: parents
were recorded earlier. -/
@[elab_as_elim]
theorem origin_induction {P : Option Nat → Prop} (t : Trail) (start : P none)
    (onward : ∀ i step, t.steps[i]? = some step → P step.parent → P (some i))
    (origin : Option Nat) (known : t.Has origin) : P origin := by
  have each (i : Nat) : i < t.size → P (some i) := by
    induction i using Nat.strongRecOn with
    | ind i ih =>
      intro lt
      have there : t.steps[i]? = some t.steps[i] := Array.getElem?_eq_getElem lt
      refine onward i _ there ?_
      cases hp : t.steps[i].parent with
      | none => exact start
      | some p =>
        have earlier : p < i := t.parent_lt i lt p hp
        exact ih p earlier (Nat.lt_trans earlier lt)
  cases origin with
  | none => exact start
  | some i => exact each i (known i rfl)

/-- The parent of a step was recorded before it. -/
theorem descends (there : t.steps[i]? = some step) {p : Nat} (hp : step.parent = some p) :
    p < i := by
  obtain ⟨lt, rfl⟩ := Array.getElem?_eq_some_iff.1 there
  exact t.parent_lt i lt p hp

/-- What holds of a trail between two visits. -/
structure Sound (limit : UInt32) (g : RuleGraph) (t : Trail) : Prop where
  /-- Parents were recorded before their steps. -/
  descends : ∀ (i : Nat) step p, t.steps[i]? = some step → step.parent = some p → p < i
  /-- They are there, and joined to their steps by a link of the graph. -/
  linked : ∀ step ∈ t.steps, t.Links g step
  /-- No path has a situation twice. -/
  distinct : ∀ origin, (t.path origin).Nodup
  /-- No path enters a node more often than it may. -/
  bounded : ∀ origin node, visits node (t.path origin) ≤ limit.toNat

theorem sound_empty (limit : UInt32) (g : RuleGraph) : Trail.empty.Sound limit g := by
  have paths : ∀ origin, Trail.empty.path origin = [] := by
    rintro (_ | i)
    · rfl
    · exact path_of_size_le _ (Nat.zero_le i)
  constructor
  · exact fun i step p there => descends there
  · exact fun step met => absurd met (Array.not_mem_empty step)
  · intro origin
    rw [paths]
    exact List.nodup_nil
  · intro origin node
    rw [paths]
    exact Nat.zero_le _

end Trail

/-! ## Entries of a node -/

section

variable {limit : UInt32} {path : List Situation} {s : Situation} {node : NodeId}

theorem visits_cons_of_eq (here : s.node = node) :
    visits node (s :: path) = visits node path + 1 := by
  simp [visits, here]

theorem visits_cons_of_ne (elsewhere : s.node ≠ node) :
    visits node (s :: path) = visits node path := by
  simp [visits, elsewhere]

/-- A path that the guard lets enter a node has entered none more often than it may. -/
theorem visits_cons_le (entering : guard? limit path s = none)
    (before : ∀ node, visits node path ≤ limit.toNat) (node : NodeId) :
    visits node (s :: path) ≤ limit.toNat := by
  by_cases here : s.node = node
  · rw [visits_cons_of_eq here, ← here]
    exact (guard?_eq_none_iff.1 entering).2
  · rw [visits_cons_of_ne here]
    exact before node

end

/-! ## One visit -/

/-- The step that a visit is once it is entered. -/
def Pending.step (p : Pending) : Step := ⟨p.visit.situation, p.origin⟩

namespace Walk

variable {e : Evaluation} {g : RuleGraph} {w w' : Walk} {p q : Pending} {rest : List Pending}
variable {events : List Event} {next : List Visit} {n : Nat}

/-- The trail once the guard was asked about the next visit: with its step if it may be entered,
also where that ends the evaluation, and otherwise as it was. -/
def nextTrail (e : Evaluation) (w : Walk) : Trail :=
  match hp : w.pending with
  | [] => w.trail
  | p :: _ =>
    match guard? e.settings.maxNodeVisits (w.trail.path p.origin) p.visit.situation with
    | none =>
      have top : p ∈ w.pending := hp ▸ List.mem_cons_self
      w.trail.push p.visit.situation p.origin (w.origins_known p top)
    | some _ => w.trail

theorem nextTrail_of_nil (none : w.pending = []) : w.nextTrail e = w.trail := by
  unfold nextTrail
  split
  · rfl
  · next hp =>
    rw [none] at hp
    cases hp

theorem nextTrail_of_cons (hp : w.pending = p :: rest) :
    w.nextTrail e =
      match guard? e.settings.maxNodeVisits (w.trail.path p.origin) p.visit.situation with
      | none => (w.enter p rest hp [] []).trail
      | some _ => w.trail := by
  unfold nextTrail
  split
  · next none =>
    rw [none] at hp
    cases hp
  · next q rest' hq =>
    obtain ⟨rfl, rfl⟩ := List.cons.inj (hq.symm.trans hp)
    rfl

theorem trail_of_advance (step : w.advance e g = .ongoing w') : w'.trail = w.nextTrail e := by
  obtain ⟨p, rest, hp, events, next, entering, -, rfl⟩ := advance_eq_ongoing_iff.1 step
  rw [nextTrail_of_cons hp, entering]
  rfl

/-- What holds of a walk between two visits: of its trail, and of the steps yet to be made. -/
structure Sound (e : Evaluation) (g : RuleGraph) (w : Walk) : Prop where
  trail : w.trail.Sound e.settings.maxNodeVisits g
  waiting : ∀ p ∈ w.pending, w.trail.Links g p.step

/-- The trail stays sound when a visit is entered, whether or not it ends the evaluation. -/
theorem Sound.enter (sound : w.Sound e g) (hp : w.pending = p :: rest)
    (entering : guard? e.settings.maxNodeVisits (w.trail.path p.origin) p.visit.situation = none) :
    (w.enter p rest hp events next).trail.Sound e.settings.maxNodeVisits g where
  descends := fun i step parent there => Trail.descends there
  linked := by
    intro step met
    have top : p ∈ w.pending := by simp [hp]
    have known : w.trail.Has p.origin := w.origins_known p top
    rcases Array.mem_push.1 met with old | rfl
    · exact (sound.trail.linked step old).push known
    · exact (sound.waiting p top).push known
  distinct :=
    forall_path_enter hp sound.trail.distinct
      (List.nodup_cons.2 ⟨(guard?_eq_none_iff.1 entering).1, sound.trail.distinct p.origin⟩)
  bounded :=
    forall_path_enter (P := fun path => ∀ node, visits node path ≤ _) hp sound.trail.bounded
      (visits_cons_le entering (sound.trail.bounded p.origin))

theorem Sound.nextTrail (sound : w.Sound e g) :
    (w.nextTrail e).Sound e.settings.maxNodeVisits g := by
  by_cases none : w.pending = []
  · rw [nextTrail_of_nil none]
    exact sound.trail
  · obtain ⟨p, rest, hp⟩ := List.exists_cons_of_ne_nil none
    rw [nextTrail_of_cons hp]
    split
    · next entering => exact sound.enter hp entering
    · exact sound.trail

/-- The visits that follow from one continue from its step, each by the link it came through. -/
theorem Sound.advance (sound : w.Sound e g) (step : w.advance e g = .ongoing w') :
    w'.Sound e g := by
  obtain ⟨p, rest, hp, events, next, entering, outcome, rfl⟩ := advance_eq_ongoing_iff.1 step
  have known : w.trail.Has p.origin := w.origins_known p (by simp [hp])
  refine ⟨sound.enter hp entering, fun q hq => ?_⟩
  rcases List.mem_append.1 hq with follows | waited
  · obtain ⟨v, hv, rfl⟩ := List.mem_map.1 follows
    rintro i ⟨⟩
    have leads : p.visit.Leads e g v := (Visit.mem_iff_leads outcome).1 hv
    exact ⟨p.step, Trail.getElem?_push_size known, leads.joins⟩
  · exact (sound.waiting q (by simp [hp, waited])).push known

theorem sound_start (node : NodeId) (parties : Parties) : (start node parties).Sound e g where
  trail := Trail.sound_empty _ g
  waiting := by
    intro q hq
    rw [List.mem_singleton.1 hq]
    nofun

theorem Advances.sound {node : NodeId} {parties : Parties}
    (run : Advances e g n (start node parties) w) : w.Sound e g :=
  run.invariant (fun _ _ step sound => sound.advance step) (sound_start node parties)

end Walk

/-! ## The way back -/

/-- The way back along the parents from an origin: it ends at the situation that is looked for, or
at Start with the count of the steps at its node. There is no way back past a step that is missing,
nor with a count that does not fit. -/
inductive WayBack (steps : Array Step) (s : Situation) :
    Option Nat → UInt32 → Option UInt32 → Prop
  | start {count : UInt32} : WayBack steps s none count (some count)
  | same {i : Nat} {step : Step} {count : UInt32} :
      steps[i]? = some step → step.situation = s → WayBack steps s (some i) count none
  | counted {i : Nat} {step : Step} {count : UInt32} {result : Option UInt32} :
      steps[i]? = some step → step.situation ≠ s → step.situation.node = s.node →
      count.toNat + 1 < UInt32.size → WayBack steps s step.parent (count + 1) result →
      WayBack steps s (some i) count result
  | passed {i : Nat} {step : Step} {count : UInt32} {result : Option UInt32} :
      steps[i]? = some step → step.situation.node ≠ s.node →
      WayBack steps s step.parent count result → WayBack steps s (some i) count result

/-- What looking back along a path gives: nothing if it has been in the situation, and else how
often it has entered the node, on top of a count. -/
def lookBack (s : Situation) (path : List Situation) (count : UInt32) : Option UInt32 :=
  if s ∈ path then none else some (count + UInt32.ofNat (visits s.node path))

/-- What the guard makes of that: it is a cycle if the situation was met, and over the limit if its
node was met as often as it may be. -/
def ruling (limit : UInt32) : Option UInt32 → Option GuardFault
  | none => some .cycle
  | some count => if limit ≤ count then some .overLimit else none

section

variable {s u : Situation} {path : List Situation} {count limit : UInt32}

theorem lookBack_nil : lookBack s [] count = some count := by
  simp [lookBack, visits]

theorem lookBack_cons_same : lookBack s (s :: path) count = none := by
  simp [lookBack]

theorem lookBack_cons_counted (differs : u ≠ s) (here : u.node = s.node) :
    lookBack s (u :: path) count = lookBack s path (count + 1) := by
  simp only [lookBack, List.mem_cons, differs.symm, false_or, visits_cons_of_eq here]
  rw [UInt32.ofNat_add, UInt32.add_assoc, UInt32.add_comm 1]
  rfl

theorem lookBack_cons_passed (elsewhere : u.node ≠ s.node) :
    lookBack s (u :: path) count = lookBack s path count := by
  have differs : s ≠ u := fun same => elsewhere (same ▸ rfl)
  simp only [lookBack, List.mem_cons, differs, false_or, visits_cons_of_ne elsewhere]

/-- The guard rules by what looking back gives, if the count fits. -/
theorem guard?_eq_ruling (fits : visits s.node path < UInt32.size) :
    guard? limit path s = ruling limit (lookBack s path 0) := by
  have same : limit ≤ UInt32.ofNat (visits s.node path) ↔ limit.toNat ≤ visits s.node path := by
    rw [UInt32.le_iff_toNat_le, UInt32.toNat_ofNat_of_lt' fits]
  unfold guard? lookBack
  by_cases met : s ∈ path
  · simp [met, ruling]
  · simp [met, ruling, same]

end

namespace Trail

variable {t : Trail} {s : Situation} {origin : Option Nat} {count : UInt32} {result : Option UInt32}

theorem lookBack_of_wayBack (back : WayBack t.steps s origin count result) :
    result = lookBack s (t.path origin) count := by
  induction back with
  | start => exact lookBack_nil.symm
  | same there found => rw [path_eq_cons there, found, lookBack_cons_same]
  | counted there differs here _ _ ih =>
    rw [path_eq_cons there, lookBack_cons_counted differs here, ih]
  | passed there elsewhere _ ih => rw [path_eq_cons there, lookBack_cons_passed elsewhere, ih]

/-- There is a way back from every origin along which the count fits. -/
theorem wayBack_lookBack (known : t.Has origin) (count : UInt32)
    (fits : count.toNat + visits s.node (t.path origin) < UInt32.size) :
    WayBack t.steps s origin count (lookBack s (t.path origin) count) := by
  revert count
  refine t.origin_induction ?start ?onward origin known
  case start =>
    intro count fits
    rw [show t.path none = [] from rfl, lookBack_nil]
    exact .start
  case onward =>
    intro i step there ih count fits
    rw [path_eq_cons there] at fits ⊢
    by_cases here : step.situation.node = s.node
    · by_cases found : step.situation = s
      · rw [found, lookBack_cons_same]
        exact .same there found
      · rw [visits_cons_of_eq here] at fits
        have room : count.toNat + 1 < UInt32.size := by omega
        have next : (count + 1).toNat = count.toNat + 1 := Nat.mod_eq_of_lt room
        rw [lookBack_cons_counted found here]
        exact .counted there found here room (ih _ (by omega))
    · rw [visits_cons_of_ne here] at fits
      rw [lookBack_cons_passed here]
      exact .passed there here (ih _ fits)

/-- The guard finds one way back, and rules by what it comes to. -/
theorem Sound.wayBack {limit : UInt32} {g : RuleGraph} (sound : t.Sound limit g)
    (known : t.Has origin) (s : Situation) :
    ∃ result, (∀ other, WayBack t.steps s origin 0 other ↔ other = result) ∧
      guard? limit (t.path origin) s = ruling limit result := by
  have fits : visits s.node (t.path origin) < UInt32.size :=
    Nat.lt_of_le_of_lt (sound.bounded origin s.node) limit.toNat_lt_size
  refine ⟨lookBack s (t.path origin) 0, fun other => ⟨lookBack_of_wayBack, ?_⟩,
    guard?_eq_ruling fits⟩
  rintro rfl
  exact wayBack_lookBack known 0 (by simpa using fits)

end Trail

/-! ## Every evaluation -/

/-- At every visit of an evaluation, before and after the guard has ruled on it: the parent of a
step comes before it and is joined to it by a link of the graph, through a port of its node and the
channel of the step; no path has a situation twice or enters a node more often than it may; and from
every visit that waits there is one way back, along which no step is missing and a counter of 32
bits has room, so that the guard rules by what it comes to. -/
theorem Walk.trails_sound (e : Evaluation) (g : RuleGraph) (start : NodeId) (p : Parties) (n : Nat)
    (w : Walk) (run : Walk.Advances e g n (.start start p) w) :
    let limit := e.settings.maxNodeVisits
    w.trail.Sound limit g ∧ (w.nextTrail e).Sound limit g ∧
    (∀ w', w.advance e g = .ongoing w' → w'.trail = w.nextTrail e) ∧
    ∀ q ∈ w.pending, w.trail.Has q.origin ∧ w.trail.Links g q.step ∧
      ∃ result,
        (∀ other, WayBack w.trail.steps q.visit.situation q.origin 0 other ↔ other = result) ∧
        guard? limit (w.trail.path q.origin) q.visit.situation = ruling limit result := by
  intro limit
  have sound : w.Sound e g := run.sound
  refine ⟨sound.trail, sound.nextTrail, fun w' => Walk.trail_of_advance, fun q hq => ?_⟩
  have known : w.trail.Has q.origin := w.origins_known q hq
  exact ⟨known, sound.waiting q hq, sound.trail.wayBack known _⟩

/-- A graph that has the parties swapped again and again, with one entry of each node: after two
visits the two that wait find their node once on their way back, and are over the limit. -/
theorem Walk.trails_sound_swapping :
    let ada := Actor.create .nil "Ada" .female
    let bob := Actor.create ⟨⟨1⟩⟩ "Bob" .male
    let p : Parties := ⟨ada, some bob⟩
    let e : Evaluation :=
      { rule := "swapping", scheme := none, world := (World.empty.addActor ada).addActor bob
        bridge := ⟨[.swapping]⟩, settings := { maxNodeVisits := 1 } }
    let once : Visit := ⟨1, some .dual, p, some bob⟩
    let twice : Visit := ⟨1, some .dual, ⟨bob, some ada⟩, some ada⟩
    let entered := (Walk.start 0 p).enter ⟨.first 0 p, none⟩ [] rfl [] [once]
    let w := entered.enter ⟨once, some 0⟩ [] rfl [.asked "swap" (e.context p)] [twice, twice]
    Walk.Advances e .swapping 2 (.start 0 p) w ∧ w.trail.Sound 1 .swapping ∧
      (w.nextTrail e).Sound 1 .swapping ∧
      ∀ other, WayBack w.trail.steps twice.situation (some 1) 0 other ↔ other = some 1 := by
  intro ada bob p e once twice entered w
  have first : (start 0 p).advance e .swapping = .ongoing entered := rfl
  have path : entered.trail.path (some 0) = [(Visit.first 0 p).situation] :=
    Trail.path_push_size _ _ none (Trail.has_none _)
  have entering : guard? 1 (entered.trail.path (some 0)) once.situation = none := by
    rw [path]
    rfl
  have second : entered.advance e .swapping = .ongoing w :=
    Walk.advance_eq_ongoing_iff.2 ⟨_, _, rfl, _, _, entering, rfl, rfl⟩
  have run : Walk.Advances e .swapping 2 (start 0 p) w := .visit first (.visit second .none)
  obtain ⟨sound, next, -, back⟩ := Walk.trails_sound e .swapping 0 p 2 w run
  obtain ⟨-, -, result, one, -⟩ := back ⟨twice, some 1⟩ List.mem_cons_self
  have met : WayBack w.trail.steps twice.situation (some 1) 0 (some 1) :=
    .counted rfl (by decide) rfl (by decide) (.passed rfl (by decide) .start)
  obtain rfl := (one (some 1)).1 met
  exact ⟨run, sound, next, one⟩

end Stratagem
