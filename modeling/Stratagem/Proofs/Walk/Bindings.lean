import Stratagem.Proofs.Walk.Path

/-!
# The actors that a walk binds

A visit binds a conspirator, perhaps a target, and the actor that its branch is about. They come to
it by two ways only: from the parties that the evaluation began with, and from the world, where an
Invoke node looks up what the host has answered.

* `Binds` says that every bound actor has some property, and `WalkPath.binds` that a property of
  the first parties and of the actors of the world holds of whatever a walk binds.
* `Coherent` parties have no two actors with one identifier among themselves and the world;
  `Coherent.visit_eq`: for them a situation is all there is to a visit.
-/

namespace Stratagem

/-! ## What is handed on -/

/-- Every actor that is bound has a property. -/
structure Binds (P : Actor → Prop) (parties : Parties) (subject : Option Actor) : Prop where
  conspirator : P parties.conspirator
  target : ∀ t, parties.target = some t → P t
  subject : ∀ s, subject = some s → P s

namespace Visit

variable {P : Actor → Prop} {e : Evaluation} {v : Visit} {port : Port} {parties : Parties}
variable {subject : Option Actor}

theorem actor_of_binds (bound : Binds P v.parties v.subject) {a : Actor}
    (h : v.actor? = some a) : P a := by
  unfold actor? at h
  split at h
  · exact Option.some.inj h ▸ bound.conspirator
  · exact bound.target a h
  · exact bound.subject a h
  · exact bound.subject a h
  · exact bound.subject a h

theorem binds_judge {choose : Actor → Port} (bound : Binds P v.parties v.subject)
    (h : v.judge choose = .follow port parties subject) : Binds P parties subject := by
  unfold judge at h
  split at h
  · next a about =>
    cases h
    have judged : P a := actor_of_binds bound about
    exact ⟨bound.conspirator, bound.target, fun s eq => Option.some.inj eq ▸ judged⟩
  · cases h

theorem binds_judgePair {holds : Actor → Actor → Bool} (bound : Binds P v.parties v.subject)
    (h : v.judgePair holds = .follow port parties subject) : Binds P parties subject := by
  unfold judgePair at h
  split at h
  · cases h
    exact bound
  · cases h

/-- An actor that was found takes one of the places, or none. -/
theorem binds_bindActor (bound : Binds P v.parties v.subject) {a : Actor} (found : P a) :
    Binds P (bindActor v.parties v.channel a) (some a) := by
  have about : ∀ s, some a = some s → P s := fun s eq => Option.some.inj eq ▸ found
  unfold bindActor
  split
  · exact ⟨found, bound.target, about⟩
  · exact ⟨bound.conspirator, about, about⟩
  · exact ⟨bound.conspirator, about, about⟩
  · exact ⟨bound.conspirator, bound.target, about⟩
  · exact ⟨bound.conspirator, bound.target, about⟩

theorem binds_followAnswer {world : World} {answer : Option Answer}
    (known : ∀ id a, world.actor? id = some a → P a) (bound : Binds P v.parties v.subject)
    (h : v.followAnswer world answer = .follow port parties subject) :
    Binds P parties subject := by
  unfold followAnswer at h
  split at h
  · cases h
    exact bound
  · cases h
    exact bound
  · split at h
    · next a found =>
      cases h
      exact binds_bindActor bound (known _ a found)
    · cases h
      exact bound
  · split at h
    · next conspirator target foundC foundT =>
      cases h
      have second : ∀ s, some target = some s → P s :=
        fun s eq => Option.some.inj eq ▸ known _ target foundT
      exact ⟨known _ conspirator foundC, second, second⟩
    · cases h
      exact bound
  · cases h
    exact bound
  · cases h
    exact bound

/-- Whatever a visit hands on was bound by it or is an actor of the world. -/
theorem binds_decide {kind : NodeKind} (known : ∀ id a, e.world.actor? id = some a → P a)
    (bound : Binds P v.parties v.subject)
    (h : v.decide e kind = .follow port parties subject) : Binds P parties subject := by
  -- only an answer of the host brings in actors that were not bound before
  cases kind with
  | start | warning message =>
    cases h
    exact bound
  | error message =>
    rw [decide] at h
    split at h
    · cases h
    · cases h
      exact bound
  | gender | isAutonomous => exact binds_judge bound h
  | getActor _ | getClan _ | getRole _ | getFamily _ => exact binds_judge bound h
  | isParent | isSibling => exact binds_judgePair bound h
  | invoke method => exact binds_followAnswer known bound h

theorem binds_first {p : Parties} {node : NodeId} (conspirator : P p.conspirator)
    (target : ∀ t, p.target = some t → P t) :
    Binds P (first node p).parties (first node p).subject := by
  refine ⟨conspirator, target, ?_⟩
  intro s eq
  cases h : p.target with
  | none =>
    have : p.conspirator = s := by simpa [first, h] using eq
    exact this ▸ conspirator
  | some t =>
    have : t = s := by simpa [first, h] using eq
    exact target s (this ▸ h)

end Visit

variable {P : Actor → Prop} {e : Evaluation} {g : RuleGraph} {first v w : Visit}
variable {path : List Visit}

theorem Visit.Leads.binds (known : ∀ id a, e.world.actor? id = some a → P a)
    (leads : v.Leads e g w) (bound : Binds P v.parties v.subject) :
    Binds P w.parties w.subject := by
  obtain ⟨-, decided, -⟩ := leads
  exact Visit.binds_decide known bound decided

/-- A property of what the first visit binds and of the actors of the world holds of whatever a
walk binds, at its end and on its path. -/
theorem WalkPath.binds (known : ∀ id a, e.world.actor? id = some a → P a)
    (bound : Binds P first.parties first.subject) (walk : WalkPath e g first path v) :
    ∀ u ∈ v :: path, Binds P u.parties u.subject := by
  induction walk with
  | start => simpa using bound
  | onward _ leads ih =>
    -- the last visit binds what the one before it handed on
    intro u hu
    rcases List.mem_cons.1 hu with rfl | hu
    · exact leads.binds known (ih _ List.mem_cons_self)
    · exact ih u hu

/-! ## Coherent parties -/

/-- The parties and the actors of a world. -/
def roster (world : World) (p : Parties) : List Actor :=
  p.conspirator :: (p.target.toList ++ world.actors.values)

/-- No two different actors among the parties and the actors of a world have one identifier. -/
def Coherent (world : World) (p : Parties) : Prop :=
  ∀ a ∈ roster world p, ∀ b ∈ roster world p, a.id = b.id → a = b

instance (world : World) (p : Parties) : Decidable (Coherent world p) :=
  inferInstanceAs (Decidable (∀ a ∈ roster world p, ∀ b ∈ roster world p, a.id = b.id → a = b))

namespace World

/-- Every actor stands under its own identifier. -/
def OwnKeys (world : World) : Prop :=
  ∀ entry ∈ world.actors.entries, entry.2.id = entry.1

variable {world : World}

theorem ownKeys_of_empty (h : world.actors = .empty) : world.OwnKeys := by
  intro entry met
  rw [h] at met
  exact absurd met List.not_mem_nil

theorem OwnKeys.addActor (own : world.OwnKeys) (a : Actor) : (world.addActor a).OwnKeys := by
  intro entry met
  rcases Registry.mem_insert met with rfl | met
  · rfl
  · exact own entry met

/-- Adding actors to a world keeps each under its own identifier. -/
theorem ownKeys_foldl {actors : List Actor} (own : world.OwnKeys) :
    (actors.foldl World.addActor world).OwnKeys := by
  induction actors generalizing world with
  | nil => exact own
  | cons a actors ih => exact ih (own.addActor a)

/-- Parties from a world that has every actor under its own identifier are coherent. -/
theorem OwnKeys.coherent (own : world.OwnKeys) {p : Parties}
    (conspirator : p.conspirator ∈ world.actors.values)
    (target : ∀ t, p.target = some t → t ∈ world.actors.values) : Coherent world p := by
  have values : ∀ a ∈ roster world p, a ∈ world.actors.values := by
    intro a ha
    rcases List.mem_cons.1 ha with rfl | ha
    · exact conspirator
    · rcases List.mem_append.1 ha with ha | ha
      · exact target a (Option.mem_toList.1 ha)
      · exact ha
  intro a ha b hb same
  obtain ⟨x, hx, rfl⟩ := List.mem_map.1 (values a ha)
  obtain ⟨y, hy, rfl⟩ := List.mem_map.1 (values b hb)
  have keys : x.1 = y.1 := by rw [← own x hx, ← own y hy, same]
  have found := Registry.find?_of_mem hx
  rw [keys, Registry.find?_of_mem hy] at found
  exact (Option.some.inj found).symm

end World

/-- Whatever a walk binds is on the roster. -/
theorem WalkPath.binds_roster {p : Parties} {start : NodeId}
    (walk : WalkPath e g (.first start p) path v) :
    ∀ u ∈ v :: path, Binds (· ∈ roster e.world p) u.parties u.subject := by
  refine walk.binds ?_ (Visit.binds_first List.mem_cons_self ?_)
  · intro id a found
    refine List.mem_cons_of_mem _ (List.mem_append_right _ ?_)
    exact Registry.mem_values_of_find? found
  · intro t eq
    refine List.mem_cons_of_mem _ (List.mem_append_left _ ?_)
    exact Option.mem_toList.2 eq

theorem Coherent.option_eq {world : World} {p : Parties} (coherent : Coherent world p)
    {a b : Option Actor} (ha : ∀ x, a = some x → x ∈ roster world p)
    (hb : ∀ x, b = some x → x ∈ roster world p) (same : a.map (·.id) = b.map (·.id)) : a = b := by
  cases a with
  | none =>
    cases b with
    | none => rfl
    | some y => cases same
  | some x =>
    cases b with
    | none => cases same
    | some y =>
      have ids : x.id = y.id := Option.some.inj same
      rw [coherent x (ha x rfl) y (hb y rfl) ids]

/-- For coherent parties two visits in one situation are one visit. -/
theorem Coherent.visit_eq {world : World} {p : Parties} (coherent : Coherent world p)
    (hv : Binds (· ∈ roster world p) v.parties v.subject)
    (hw : Binds (· ∈ roster world p) w.parties w.subject)
    (same : v.situation = w.situation) : v = w := by
  obtain ⟨node, channel, conspirator, target, subject⟩ := Situation.mk.inj same
  have hc := coherent _ hv.conspirator _ hw.conspirator conspirator
  have ht := coherent.option_eq hv.target hw.target target
  have hs := coherent.option_eq hv.subject hw.subject subject
  cases v with
  | mk _ _ parties _ =>
    cases w with
    | mk _ _ parties' _ =>
      cases parties
      cases parties'
      simp_all

end Stratagem
