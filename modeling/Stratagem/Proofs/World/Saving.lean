import Stratagem.Proofs.Variable.Edit
import Stratagem.Proofs.World.Document

/-!
# Saved worlds

A world that is saved and read again is the same world without its hooks, if the text of each of its
doubles is read as that double. It is read at all if and only if its doubles are finite: the text of
a NaN or of an infinity is `null`, which is no double.

* `World.ofSnapshot_snapshot` is what a saved world is read as, and `World.snapshot_exact` says when
  nothing of it is lost.
* `World.loads_iff` tells which worlds can be read again.
* `World.isFinite_edit` is the step and `World.isFinite_edited` the run: edits of its variables do
  not spoil a world unless one of them brings in a double that is not finite.
* `World.edited_loads_iff` is what this comes to for a world that is edited and saved.
-/

namespace Stratagem

open Json

/-! ## Values -/

/-- A double that is read at all is finite. -/
theorem Binary64.isFinite_of_reread? {x y : Binary64} (read : x.reread? = some y) :
    x.isFinite = true := by
  obtain ⟨-, -, -, finite⟩ := exists_readsAs_float_reread? 0 x
  rw [← finite, read]
  rfl

/-- A variable whose double is read as that double loses nothing but its hook. -/
theorem Variable.reread_eq_duplicate {v : Variable}
    (exact : ∀ x, v.value = .float x → x.reread? = some x) : v.reread = v.duplicate := by
  have same : v.value.reread = v.value := by
    cases content : v.value with
    | float x => rw [Value.reread, exact x content, Option.getD_some]
    | _ => rfl
  rw [reread, same]
  rfl

namespace World

variable {w : World} {f g : Variable → Variable}

/-- Two changes of the variables have one effect on a world if they agree on its variables. -/
theorem mapVars_congr (same : ∀ v ∈ w.allVars, f v = g v) : w.mapVars f = w.mapVars g := by
  have set {s : VariableSet} (same : ∀ v ∈ s.toList, f v = g v) : s.map f = s.map g :=
    congrArg VariableSet.mk (List.map_congr_left same)
  simp only [allVars, List.mem_append, List.mem_flatMap] at same
  have actors : w.actors.map (·.mapVars f) = w.actors.map (·.mapVars g) := by
    refine Registry.map_congr fun a ha => ?_
    rw [Actor.mapVars, set fun v hv => same v (.inl (.inl (.inl ⟨a, ha, hv⟩)))]
    rfl
  have clans : w.clans.map (·.mapVars f) = w.clans.map (·.mapVars g) := by
    refine Registry.map_congr fun c hc => ?_
    rw [Clan.mapVars, set fun v hv => same v (.inl (.inl (.inr ⟨c, hc, hv⟩)))]
    rfl
  have families : w.families.map (·.mapVars f) = w.families.map (·.mapVars g) := by
    refine Registry.map_congr fun m hm => ?_
    rw [Family.mapVars, set fun v hv => same v (.inl (.inr ⟨m, hm, hv⟩))]
    rfl
  have vars : w.vars.map f = w.vars.map g := set fun v hv => same v (.inr hv)
  rw [mapVars, actors, clans, families, vars]
  rfl

/-! ## What a saved world is read as -/

/-- A saved world is read with the variables that its own are read as if its doubles are finite, and
refused for its content, not for its form, if one of them is not. -/
theorem ofSnapshot_snapshot (w : World) :
    ofSnapshot w.snapshot =
      if w.isFinite then .ok (w.mapVars Variable.reread) else .error .mismatch := by
  obtain ⟨v, reads, back⟩ := w.gives_toJson
  have parsed : parse? w.snapshot = some v := parse?_pretty_of_readsAs reads (by decide)
  rw [ofSnapshot, readText, parsed]
  dsimp only
  rw [back]
  cases w.isFinite with
  | true => rfl
  | false =>
    -- `null` is readable, so the refusal is that of the reader.
    show Except.error (if v.isReadable then Fault.mismatch else .malformed) = .error .mismatch
    rw [reads.isReadable, if_pos rfl]

/-- A saved world is read with the same entities under the same keys, and with the same variables in
the same order, if every double is read from its text as that double, which no NaN and no infinity
is. Only the hooks are gone. Nothing else is asked of the world: its entities may stand under keys
that are not their ids, a name may be that of several variables, an index may lie beyond its
options, and a reference may lead nowhere. -/
theorem snapshot_exact (w : World)
    (exact : ∀ v ∈ w.allVars, ∀ x, v.value = .float x → x.reread? = some x) :
    ofSnapshot w.snapshot = .ok (w.mapVars Variable.duplicate) := by
  have finite : w.isFinite = true := by
    refine List.all_eq_true.2 fun v hv => Value.isFinite_iff.2 fun x content => ?_
    exact Binary64.isFinite_of_reread? (exact v hv x content)
  have same : w.mapVars Variable.reread = w.mapVars Variable.duplicate :=
    mapVars_congr fun v hv => Variable.reread_eq_duplicate (exact v hv)
  rw [ofSnapshot_snapshot, finite, if_pos rfl, same]

/-- Ada stands under a key that is not her id, is her own parent and a member of a clan that is not
there. She has two watched variables of one name: one selects a mood beyond the moods, the other is
one half. The world has a variable that refers to nobody. -/
theorem snapshot_exact_misfiled :
    let half : Binary64 := ⟨0x3FE0000000000000⟩
    let mood : Variable :=
      { id := ⟨⟨1⟩⟩, name := "Mood", value := .enumeration 7 ["Calm"], watched := true }
    let odds : Variable := { id := ⟨⟨2⟩⟩, name := "Mood", value := .float half, watched := true }
    let rival : Variable := { id := ⟨⟨2⟩⟩, name := "", value := .actor none }
    let ada : Actor :=
      { Actor.create ⟨⟨3⟩⟩ "Ada" .female with
        clan := some ⟨⟨4⟩⟩, parents := [⟨⟨3⟩⟩], vars := ⟨[mood, odds]⟩ }
    let w : World :=
      { World.empty with actors := Registry.ofList [(⟨⟨5⟩⟩, ada)], vars := ⟨[rival]⟩ }
    let copy : Actor := { ada with vars := ⟨[mood.duplicate, odds.duplicate]⟩ }
    half.reread? = some half ∧
      ofSnapshot w.snapshot = .ok { w with actors := Registry.ofList [(⟨⟨5⟩⟩, copy)] } := by
  intro half mood odds rival ada w copy
  have same : half.reread? = some half := by decide +kernel
  refine ⟨same, (snapshot_exact w ?_).trans rfl⟩
  intro v hv x content
  have listed : v ∈ [mood, odds, rival] := hv
  simp only [List.mem_cons, List.not_mem_nil, or_false] at listed
  rcases listed with rfl | rfl | rfl
  · cases content
  · cases content
    exact same
  · cases content

/-! ## Which worlds can be read again -/

theorem isFinite_iff :
    w.isFinite = true ↔ ∀ v ∈ w.allVars, ∀ x, v.value = .float x → x.isFinite = true := by
  simp only [isFinite, List.all_eq_true, Value.isFinite_iff]

theorem loads_iff_isFinite : (∃ w', ofSnapshot w.snapshot = .ok w') ↔ w.isFinite = true := by
  rw [ofSnapshot_snapshot]
  cases w.isFinite <;> simp

/-- A saved world can be read again if and only if its doubles are finite. -/
theorem loads_iff (w : World) :
    (∃ w', ofSnapshot w.snapshot = .ok w') ↔
      ∀ v ∈ w.allVars, ∀ x, v.value = .float x → x.isFinite = true := by
  rw [loads_iff_isFinite, isFinite_iff]

end World

/-! ## Edits of the variables of a world -/

/-- Whose variables are changed. -/
inductive VariableOwner
  | world
  | actor (key : ActorId)
  | clan (key : ClanId)
  | family (key : FamilyId)
deriving DecidableEq, Repr

/-- The world after an edit of the variables of an owner, who may be missing. -/
def World.edit (w : World) (edit : VariableEdit) : VariableOwner → World
  | .world => { w with vars := edit.apply w.vars }
  | .actor key =>
    { w with actors := w.actors.modify key fun a => { a with vars := edit.apply a.vars } }
  | .clan key =>
    { w with clans := w.clans.modify key fun c => { c with vars := edit.apply c.vars } }
  | .family key =>
    { w with families := w.families.modify key fun f => { f with vars := edit.apply f.vars } }

/-- The world after one edit behind the other. -/
def World.edited (w : World) (edits : List (VariableOwner × VariableEdit)) : World :=
  edits.foldl (fun w e => w.edit e.2 e.1) w

namespace World

variable {w : World}

/-- An edit that brings in no double that is not finite leaves none. -/
theorem isFinite_edit {edit : VariableEdit} {owner : VariableOwner} (old : w.isFinite = true)
    (new : edit.value.isFinite = true) : (w.edit edit owner).isFinite = true := by
  simp only [isFinite_eq, Bool.and_eq_true, List.all_eq_true] at old ⊢
  obtain ⟨⟨⟨actors, clans⟩, families⟩, vars⟩ := old
  cases owner with
  | world => exact ⟨⟨⟨actors, clans⟩, families⟩, VariableSet.isFinite_apply vars new⟩
  | actor key =>
    refine ⟨⟨⟨?_, clans⟩, families⟩, vars⟩
    exact Registry.forall_values_modify actors fun a ha =>
      VariableSet.isFinite_apply (actors a ha) new
  | clan key =>
    refine ⟨⟨⟨actors, ?_⟩, families⟩, vars⟩
    exact Registry.forall_values_modify clans fun c hc =>
      VariableSet.isFinite_apply (clans c hc) new
  | family key =>
    refine ⟨⟨⟨actors, clans⟩, ?_⟩, vars⟩
    exact Registry.forall_values_modify families fun f hf =>
      VariableSet.isFinite_apply (families f hf) new

theorem isFinite_edited {edits : List (VariableOwner × VariableEdit)} (old : w.isFinite = true)
    (new : ∀ e ∈ edits, e.2.value.isFinite = true) : (w.edited edits).isFinite = true := by
  unfold edited
  induction edits generalizing w with
  | nil => exact old
  | cons e edits ih =>
    obtain ⟨first, others⟩ := List.forall_mem_cons.1 new
    exact ih (isFinite_edit old first) others

/-- A world that can be read again can still be read again after edits, if none of them brings in a
double that is not finite. -/
theorem loads_edited {edits : List (VariableOwner × VariableEdit)}
    (loads : ∃ w', ofSnapshot w.snapshot = .ok w')
    (finite : ∀ e ∈ edits, ∀ x, e.2.value = .float x → x.isFinite = true) :
    ∃ w', ofSnapshot (w.edited edits).snapshot = .ok w' := by
  have new : ∀ e ∈ edits, e.2.value.isFinite = true :=
    fun e he => Value.isFinite_iff.2 (finite e he)
  rw [loads_iff_isFinite] at loads ⊢
  exact isFinite_edited loads new

/-- After any edits of its variables a saved world can be read again if and only if its doubles are
finite. So it can if it could before them, and none of them brings in a NaN or an infinity. -/
theorem edited_loads_iff (w : World) (edits : List (VariableOwner × VariableEdit)) :
    ((∃ w', ofSnapshot (w.edited edits).snapshot = .ok w') ↔
      ∀ v ∈ (w.edited edits).allVars, ∀ x, v.value = .float x → x.isFinite = true) ∧
    ((∃ w', ofSnapshot w.snapshot = .ok w') →
      (∀ e ∈ edits, ∀ x, e.2.value = .float x → x.isFinite = true) →
        ∃ w', ofSnapshot (w.edited edits).snapshot = .ok w') :=
  ⟨(w.edited edits).loads_iff, loads_edited⟩

/-- A world with a variable that is not a number is saved, but cannot be read again. -/
theorem luck_not_loaded :
    let luck : Variable := { id := ⟨⟨1⟩⟩, name := "Luck", value := .float .nan }
    ¬ ∃ w', ofSnapshot (World.empty.edited [(.world, .add luck)]).snapshot = .ok w' := by
  intro luck
  rw [loads_iff_isFinite]
  decide

end World

end Stratagem
