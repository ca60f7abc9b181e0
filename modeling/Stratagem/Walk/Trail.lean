import Stratagem.Walk.Visit

/-!
# Trails

The steps of all branches of an evaluation are recorded in one growing `Trail`. A step knows the
step that led to it, which was recorded earlier, so walking back from a step gives the path on
which it was reached and always comes to an end.

* `Trail.path` is the path that ends at a step, the nearest situation first.
* `Trail.path_push`: recording a step leaves every earlier path as it was, and
  `Trail.path_push_size`: puts the new situation in front of the path it continues.
* `guard?` is the visit guard: a path may repeat no situation and may enter a node at most
  `limit` times.
-/

namespace Stratagem

/-- A visit that was entered. -/
structure Step where
  situation : Situation
  /-- The step that led here; none at Start. -/
  parent : Option Nat
deriving DecidableEq, Repr

/-- The steps of an evaluation, in the order in which they were entered. -/
structure Trail where
  steps : Array Step
  parent_lt : ∀ (i : Nat) (h : i < steps.size) (p : Nat), steps[i].parent = some p → p < i

namespace Trail

/-- The trail before the first step. -/
def empty : Trail := ⟨#[], fun _ h => absurd h (Nat.not_lt_zero _)⟩

instance : Inhabited Trail := ⟨empty⟩

/-- How many steps are recorded. -/
abbrev size (t : Trail) : Nat := t.steps.size

/-- Whether an origin is Start or a recorded step. -/
def Has (t : Trail) (origin : Option Nat) : Prop := ∀ i, origin = some i → i < t.size

theorem has_none (t : Trail) : t.Has none := fun _ h => nomatch h

/-- Record a step that continues the path from `origin`. -/
def push (t : Trail) (s : Situation) (origin : Option Nat) (known : t.Has origin) : Trail where
  steps := t.steps.push ⟨s, origin⟩
  parent_lt := by
    intro i h p hp
    rw [Array.size_push] at h
    rw [Array.getElem_push] at hp
    split at hp
    · next old => exact t.parent_lt i old p hp
    · next new =>
      have last : i = t.steps.size := by omega
      exact last ▸ known p hp

theorem size_push (t : Trail) (s : Situation) (origin : Option Nat) (known : t.Has origin) :
    (t.push s origin known).size = t.size + 1 :=
  Array.size_push ..

theorem lt_size_push (t : Trail) (s : Situation) (origin : Option Nat) (known : t.Has origin)
    {i : Nat} (h : i ≤ t.size) : i < (t.push s origin known).size := by
  rw [size_push]; omega

/-- The path that ends at a step, nearest first. -/
def pathTo (t : Trail) (i : Nat) (h : i < t.size) : List Situation :=
  t.steps[i].situation ::
    match hp : t.steps[i].parent with
    | none => []
    | some p => t.pathTo p (Nat.lt_trans (t.parent_lt i h p hp) h)
termination_by i
decreasing_by exact t.parent_lt i h p hp

/-- The path from which a visit continues, nearest first. -/
def path (t : Trail) : Option Nat → List Situation
  | none => []
  | some i => if h : i < t.size then t.pathTo i h else []

/-- An origin that is not recorded has no path. -/
theorem path_of_size_le (t : Trail) {i : Nat} (h : t.size ≤ i) : t.path (some i) = [] :=
  dif_neg (Nat.not_lt.2 h)

theorem pathTo_eq (t : Trail) (i : Nat) (h : i < t.size) :
    t.pathTo i h = t.steps[i].situation :: t.path t.steps[i].parent := by
  rw [pathTo]
  congr 1
  split
  · next hp => rw [hp]; rfl
  · next p hp =>
    have lt : p < t.size := Nat.lt_trans (t.parent_lt i h p hp) h
    simp only [hp, path, dif_pos lt]

theorem pathTo_push (t : Trail) (s : Situation) (origin : Option Nat) (known : t.Has origin)
    (i : Nat) (h : i < t.size) :
    (t.push s origin known).pathTo i (t.lt_size_push s origin known (Nat.le_of_lt h)) =
      t.pathTo i h := by
  induction i using Nat.strongRecOn with
  | ind i ih =>
    have lt : i < (t.push s origin known).size := t.lt_size_push s origin known (Nat.le_of_lt h)
    have same : (t.push s origin known).steps[i] = t.steps[i] := Array.getElem_push_lt h
    rw [pathTo_eq, pathTo_eq t i h, same]
    congr 1
    cases hp : t.steps[i].parent with
    | none => rfl
    | some p =>
      have below : p < i := t.parent_lt i h p hp
      have hpt : p < t.size := Nat.lt_trans below h
      have hpp : p < (t.push s origin known).size := t.lt_size_push s origin known (by omega)
      simp only [path, dif_pos hpt, dif_pos hpp]
      exact ih p below hpt

/-- Recording a step leaves the paths of earlier origins as they were. -/
theorem path_push (t : Trail) (s : Situation) (origin : Option Nat) (known : t.Has origin)
    {other : Option Nat} (h : t.Has other) :
    (t.push s origin known).path other = t.path other := by
  cases other with
  | none => rfl
  | some i =>
    have lt : i < t.size := h i rfl
    have lt' : i < (t.push s origin known).size := t.lt_size_push s origin known (by omega)
    simp only [path, dif_pos lt, dif_pos lt']
    exact pathTo_push t s origin known i lt

/-- The new step stands in front of the path that it continues. -/
theorem path_push_size (t : Trail) (s : Situation) (origin : Option Nat) (known : t.Has origin) :
    (t.push s origin known).path (some t.size) = s :: t.path origin := by
  have lt : t.size < (t.push s origin known).size := t.lt_size_push s origin known (by omega)
  have last : (t.push s origin known).steps[t.size] = ⟨s, origin⟩ :=
    Array.getElem_push_eq
  rw [path, dif_pos lt, pathTo_eq, last]
  exact congrArg (s :: ·) (path_push t s origin known known)

end Trail

/-! ## The visit guard -/

/-- Why a visit may not be entered. -/
inductive GuardFault
  /-- The path has been in this situation before and would repeat itself forever. -/
  | cycle
  /-- The path has entered the node as often as it may. -/
  | overLimit
deriving DecidableEq, Repr

/-- How often a path enters a node. -/
def visits (node : NodeId) (path : List Situation) : Nat := path.countP (·.node = node)

/-- Whether a path may go on to a situation. -/
def guard? (limit : UInt32) (path : List Situation) (s : Situation) : Option GuardFault :=
  if s ∈ path then some .cycle
  else if limit.toNat ≤ visits s.node path then some .overLimit
  else none

theorem guard?_eq_none_iff {limit : UInt32} {path : List Situation} {s : Situation} :
    guard? limit path s = none ↔ s ∉ path ∧ visits s.node path < limit.toNat := by
  unfold guard?
  split
  · next h => simp [h]
  · next h =>
    split
    · next hl => simp [Nat.not_lt.2 hl]
    · next hl => simp [h, Nat.lt_of_not_le hl]

end Stratagem
