import Mathlib.Algebra.Order.BigOperators.Group.List
import Mathlib.Algebra.Order.Group.Nat
import Stratagem.Proofs.Message.Cut

/-!
# Templates without a target

Without a target the token of the target is not bound, so a template is cut through it as through
any other text. The message is the one that a target called like its token would make, unless the
token of the conspirator begins inside of that of the target.

* `Template.Interferes` tells which two tokens can be met in this way.
* `Template.Cut.letters`: a token that is not bound is cut into its characters.
* `Template.eq_of_flatMap_shown`: a message that shows its template shows each token as it is.
* `Template.target_token_kept_iff` is the result.
-/

namespace Stratagem.Template

/-- Whether a token `c` can begin inside of a place where a token `t` is taken up: either it stands
inside of `t`, which is longer, or it goes on behind the end of `t`, and does not begin where `t`
does. -/
def Interferes (c t : List Char) : Prop :=
  ∃ j < t.length, (c.length < t.length ∧ c <+: t.drop j) ∨
    (t.drop j <+: c ∧ ¬ c <+: t.take j ++ c)

instance (c t : List Char) : Decidable (Interferes c t) :=
  inferInstanceAs (Decidable (∃ j < t.length, _))

variable {s : WalkSettings} {targeted : Bool} {text rest : List Char} {a : Party}
  {pieces : List Piece} {p : Parties}

theorem Bound.eq_conspirator (bound : Bound s false a) : a = .conspirator := by
  cases a with
  | conspirator => rfl
  | target => cases bound.2

/-! ## Cutting through a token -/

/-- A token that begins inside of another can be met in it, unless it begins where that one does and
is at least as long. -/
theorem interferes_of_starts {c t rest : List Char} {j : Nat} (inside : j < t.length)
    (starts : c <+: (t ++ rest).drop j) :
    Interferes c t ∨ t.length ≤ c.length ∧ c <+: t ++ rest := by
  rw [List.drop_append_of_le_length inside.le] at starts
  have ends : t.take j ++ t.drop j = t := List.take_append_drop j t
  have less : (t.drop j).length ≤ t.length := (List.drop_suffix j t).length_le
  by_cases within : c.length < t.length
  · refine .inl ?_
    rcases List.prefix_or_prefix_of_prefix starts (List.prefix_append _ _) with short | long
    · exact ⟨j, inside, .inl ⟨within, short⟩⟩
    · by_cases early : c <+: t.take j ++ c
      · have whole : t.take j ++ t.drop j <+: t.take j ++ c :=
          List.prefix_append_right_inj _ |>.2 long
        rw [ends] at whole
        have begins : c <+: t := List.prefix_of_prefix_length_le early whole within.le
        exact ⟨0, Nat.zero_lt_of_lt inside, .inl ⟨within, begins⟩⟩
      · exact ⟨j, inside, .inr ⟨long, early⟩⟩
  · have covers := Nat.le_of_not_lt within
    by_cases early : c <+: t.take j ++ c
    · have onward : t.take j ++ c <+: t.take j ++ (t.drop j ++ rest) :=
        List.prefix_append_right_inj _ |>.2 starts
      rw [← List.append_assoc, ends] at onward
      exact .inr ⟨covers, early.trans onward⟩
    · have long : t.drop j <+: c :=
        List.prefix_of_prefix_length_le (List.prefix_append _ rest) starts (less.trans covers)
      exact .inl ⟨j, inside, .inr ⟨long, early⟩⟩

/-- The token of the conspirator does not begin inside of one of the target that is taken up. -/
theorem Leads.not_starts_inside (leads : Leads s true text .target)
    (apart : ¬ Interferes (s.token .conspirator) (s.token .target)) {j : Nat}
    (inside : j < (s.token .target).length) : ¬ s.token .conspirator <+: text.drop j := by
  intro starts
  obtain ⟨rest, rfl⟩ := leads.starts
  obtain ⟨covers, early⟩ := (interferes_of_starts inside starts).resolve_left apart
  have begins : Begins s true (s.token .target ++ rest) .conspirator := by
    refine ⟨fun empty => ?_, early⟩
    rw [empty, List.length_nil] at covers
    omega
  exact leads.first rfl (leads.toBegins.token_eq begins (covers.antisymm (leads.longest _ begins)))

/-- A text in which the token of the conspirator begins nowhere is cut into its characters. -/
theorem Cut.letters {x : List Char} (cut : Cut s false rest pieces)
    (absent : ∀ j < x.length, ¬ s.token .conspirator <+: (x ++ rest).drop j) :
    Cut s false (x ++ rest) (x.map .letter ++ pieces) := by
  induction x with
  | nil => exact cut
  | cons c x ih =>
    refine .letter (fun a begins => ?_) (ih fun j inside => ?_)
    · obtain rfl := begins.bound.eq_conspirator
      exact absent 0 (Nat.zero_lt_succ _) begins.starts
    · exact absent (j + 1) (Nat.succ_lt_succ inside)

/-- A piece of a template, cut as if there was no target. -/
def Piece.untargeted (s : WalkSettings) : Piece → List Piece
  | .name .target => (s.token .target).map .letter
  | piece => [piece]

theorem Begins.of_untargeted (begins : Begins s false text a) : Begins s true text a := by
  obtain rfl := begins.bound.eq_conspirator
  exact ⟨begins.bound, begins.starts⟩

/-- Without a target each token of one is cut into its characters. -/
theorem Cut.untargeted (cut : Cut s true text pieces)
    (apart : ¬ Interferes (s.token .conspirator) (s.token .target)) :
    Cut s false text (pieces.flatMap (Piece.untargeted s)) := by
  induction cut with
  | done => exact .done
  | @name a text rest pieces leads whole _ ih =>
    cases a with
    | conspirator =>
      refine .name ⟨⟨leads.bound, leads.starts⟩, fun b begins => ?_, nofun⟩ whole ih
      exact leads.longest b begins.of_untargeted
    | target =>
      subst whole
      exact ih.letters fun j inside => leads.not_starts_inside apart inside
  | letter plain _ ih => exact .letter (fun a begins => plain a begins.of_untargeted) ih

/-- A target called like its token makes the same message as none. -/
theorem flatMap_shown_untargeted {p q : Parties}
    (same : q.name .conspirator = p.name .conspirator) (own : p.name .target = s.token .target) :
    (pieces.flatMap (Piece.untargeted s)).flatMap (Piece.shown q)
      = pieces.flatMap (Piece.shown p) := by
  rw [List.flatMap_assoc]
  refine List.flatMap_congr fun piece _ => ?_
  rcases piece with (_ | _) | c
  · simp only [Piece.untargeted, Piece.shown, List.flatMap_singleton, same]
  · simp only [Piece.untargeted, Piece.shown, List.flatMap_map, List.flatMap_singleton', own]
  · simp only [Piece.untargeted, Piece.shown, List.flatMap_singleton]

/-! ## Texts that tell the two apart -/

/-- Where a token can be met in another, there is a text that begins with that one, has the first
inside, and has no room for it behind the other. It does not begin with the first, unless that is
shorter. -/
theorem Interferes.exists_text {c t : List Char} (met : Interferes c t) :
    ∃ rest, c <:+: t ++ rest ∧ (c.length < t.length ∨ ¬ c <+: t ++ rest) ∧
      (c = [] ∨ rest.length < c.length) := by
  obtain ⟨j, inside, ⟨within, stands⟩ | ⟨⟨rest, rfl⟩, late⟩⟩ := met
  · refine ⟨[], ?_, .inl within, ?_⟩
    · rw [List.append_nil]
      exact stands.isInfix.trans (List.drop_suffix j t).isInfix
    · exact c.eq_nil_or_concat.imp_right fun ⟨_, _, whole⟩ => by simp [whole]
  · have whole : t.take j ++ (t.drop j ++ rest) = t ++ rest := by
      rw [← List.append_assoc, List.take_append_drop]
    refine ⟨rest, whole ▸ (List.suffix_append _ _).isInfix, .inr (whole ▸ late), .inr ?_⟩
    rw [List.length_append, List.length_drop]
    omega

theorem Bound.target_leads (bound : Bound s true .target)
    (late : (s.token .conspirator).length < (s.token .target).length ∨
      ¬ s.token .conspirator <+: s.token .target ++ rest) :
    Leads s true (s.token .target ++ rest) .target := by
  refine ⟨⟨bound, List.prefix_append _ _⟩, ?_, fun _ same => ?_⟩
  · rintro (_ | _) begins
    · exact (late.resolve_right (not_not_intro begins.starts)).le
    · exact Nat.le_refl _
  · rcases late with shorter | absent
    · rw [same] at shorter
      exact Nat.lt_irrefl _ shorter
    · exact absent (same ▸ List.prefix_append _ _)

/-- A text with a token in it that alone is bound has a piece that is the token. -/
theorem Cut.name_mem (cut : Cut s false text pieces) (bound : Bound s false .conspirator)
    (stands : s.token .conspirator <:+: text) : .name .conspirator ∈ pieces := by
  induction cut with
  | done => exact absurd (List.infix_nil.1 stands) bound
  | name leads _ _ _ =>
    obtain rfl := leads.bound.eq_conspirator
    exact List.mem_cons_self
  | letter plain _ ih =>
    rcases List.infix_cons_iff.1 stands with starts | later
    · exact absurd ⟨bound, starts⟩ (plain .conspirator)
    · exact List.mem_cons_of_mem _ (ih later)

/-- Two ways of writing pieces that write the same text, one of them never longer, agree on each
piece. -/
theorem eq_of_flatMap_eq {α β : Type} {f g : α → List β} {l : List α}
    (le : ∀ x ∈ l, (f x).length ≤ (g x).length) (same : l.flatMap f = l.flatMap g) :
    ∀ x ∈ l, f x = g x := by
  induction l with
  | nil => exact nofun
  | cons a l ih =>
    rw [List.forall_mem_cons] at le
    simp only [List.flatMap_cons] at same
    have shorter : (l.flatMap f).length ≤ (l.flatMap g).length := by
      simp only [List.length_flatMap]
      exact List.sum_le_sum le.2
    have long := congrArg List.length same
    simp only [List.length_append] at long
    obtain ⟨first, later⟩ := List.append_inj same (by have := le.1; omega)
    exact List.forall_mem_cons.2 ⟨first, ih le.2 later⟩

/-- A message that shows its template shows the token of the conspirator as it is. -/
theorem Cut.name_eq (cut : Cut s false text pieces) (shown : pieces.flatMap (Piece.shown p) = text)
    (met : .name .conspirator ∈ pieces) : p.name .conspirator = s.token .conspirator := by
  have same := shown.trans cut.flatMap_written.symm
  rcases Nat.le_total (p.name .conspirator).length (s.token .conspirator).length with le | le
  · refine eq_of_flatMap_eq (fun piece met => ?_) same _ met
    cases piece with
    | name a =>
      obtain rfl := (cut.of_mem_name met).1.eq_conspirator
      exact le
    | letter c => exact Nat.le_refl _
  · refine (eq_of_flatMap_eq (fun piece met => ?_) same.symm _ met).symm
    cases piece with
    | name a =>
      obtain rfl := (cut.of_mem_name met).1.eq_conspirator
      exact le
    | letter c => exact Nat.le_refl _

/-! ## With and without a target -/

section
variable {c t : Actor} {template : String}

/-- Where the tokens cannot be met in one another, a target called like its token makes the same
message as none. -/
theorem render_untargeted (own : t.name = s.targetToken)
    (apart : ¬ Interferes (s.token .conspirator) (s.token .target)) :
    Parties.render ⟨c, none⟩ s template = Parties.render ⟨c, some t⟩ s template := by
  obtain ⟨pieces, cut⟩ := exists_cut s true template.toList
  rw [render_of_cut (p := ⟨c, some t⟩) cut, render_of_cut (p := ⟨c, none⟩) (cut.untargeted apart),
    flatMap_shown_untargeted (p := ⟨c, some t⟩) (q := ⟨c, none⟩) rfl (congrArg String.toList own)]

/-- If every bound token is the name that it stands for, the message is the template. -/
theorem render_eq_self (own : ∀ a, Bound s p.target.isSome a → p.name a = s.token a) :
    p.render s template = template := by
  obtain ⟨pieces, cut⟩ := exists_cut s p.target.isSome template.toList
  rw [render_of_cut cut, cut.flatMap_shown_eq fun a met => own a (cut.of_mem_name met).1,
    String.ofList_toList]

/-- Where the tokens can be met in one another, some template keeps the token of the target if there
is one that is called like it, and loses it without a target. -/
theorem Interferes.exists_template (met : Interferes (s.token .conspirator) (s.token .target))
    (bound : Bound s false .conspirator) (own : t.name = s.targetToken)
    (other : c.name ≠ s.conspiratorToken) :
    ∃ template, Parties.render ⟨c, none⟩ s template ≠ Parties.render ⟨c, some t⟩ s template := by
  have filled : Bound s true .target := by
    refine ⟨fun empty => ?_, rfl⟩
    obtain ⟨j, inside, -⟩ := met
    rw [empty] at inside
    exact Nat.not_lt_zero j inside
  obtain ⟨rest, stands, late, short⟩ := met.exists_text
  refine ⟨String.ofList (s.token .target ++ rest), fun same => other ?_⟩
  -- with a target nothing but its token is taken up, which is shown as it is
  obtain ⟨more, cut⟩ := exists_cut s true rest
  have kept : Parties.render ⟨c, some t⟩ s (String.ofList (s.token .target ++ rest))
      = String.ofList (s.token .target ++ rest) := by
    have whole : Cut s true (String.ofList (s.token .target ++ rest)).toList
        (.name .target :: more) := by
      rw [String.toList_ofList]
      exact .name (filled.target_leads late) rfl cut
    rw [render_of_cut (p := ⟨c, some t⟩) whole, whole.flatMap_shown_eq, String.ofList_toList]
    rintro (_ | _) met
    · have inside := (cut.of_mem_name ((List.mem_cons.1 met).resolve_left nofun)).2.length_le
      have := short.resolve_left bound
      omega
    · exact congrArg String.toList own
  -- without one the token of the conspirator is taken up somewhere
  obtain ⟨pieces, plain⟩ := exists_cut s false (String.ofList (s.token .target ++ rest)).toList
  have shown := String.ofList_injective <|
    (render_of_cut (p := ⟨c, none⟩) plain).symm.trans (same.trans kept)
  rw [String.toList_ofList] at plain
  exact String.toList_injective (plain.name_eq shown (plain.name_mem bound stands))

end

/-- Having no target makes the same messages of all templates as having one that is called like its
token, exactly if the conspirator is called like its own, or that token is not bound, or it cannot
begin inside of a place where the other is taken up. -/
theorem target_token_kept_iff (s : WalkSettings) (c t : Actor) :
    (∀ template, Parties.render ⟨c, none⟩ s template
      = Parties.render ⟨c, some { t with name := s.targetToken }⟩ s template) ↔
    c.name = s.conspiratorToken ∨ s.conspiratorToken = "" ∨
      ¬ Interferes s.conspiratorToken.toList s.targetToken.toList := by
  constructor
  · intro kept
    by_contra differ
    obtain ⟨other, filled, met⟩ := not_or.1 differ |>.imp_right not_or.1
    have bound : Bound s false .conspirator := fun empty => filled (String.toList_eq_nil_iff.1 empty)
    obtain ⟨template, lost⟩ := (not_not.1 met).exists_template
      (t := { t with name := s.targetToken }) bound rfl other
    exact lost (kept template)
  · intro kept template
    by_cases met : Interferes (s.token .conspirator) (s.token .target)
    · have own {targeted : Bool} (bound : Bound s targeted .conspirator) :
          c.name.toList = s.token .conspirator := by
        rcases kept with own | empty | apart
        · exact congrArg String.toList own
        · exact absurd (congrArg String.toList empty) bound
        · exact absurd met apart
      rw [render_eq_self, render_eq_self]
      · rintro (_ | _) bound
        · exact own bound
        · rfl
      · rintro (_ | _) bound
        · exact own bound
        · cases bound.2
    · exact render_untargeted rfl met

/-- Without a target a token of one is not left as written where each half of it is the token of the
conspirator. -/
theorem target_token_split :
    let s : WalkSettings := { conspiratorToken := "$", targetToken := "$$" }
    let arya : Actor := .create .nil "Arya" .female
    Parties.render ⟨arya, none⟩ s "$$" = "AryaArya" ∧
      Parties.render ⟨arya, some (.create .nil s.targetToken .male)⟩ s "$$" = "$$" := by
  intro s arya
  have token : s.token .conspirator = ['$'] := by decide
  have half (rest : List Char) : Leads s false ('$' :: rest) .conspirator := by
    refine ⟨⟨by decide, token ▸ List.prefix_append ['$'] rest⟩, fun a begins => ?_, nofun⟩
    obtain rfl := begins.bound.eq_conspirator
    exact Nat.le_refl _
  have halves : Cut s false ['$', '$'] [.name .conspirator, .name .conspirator] :=
    .name (half _) (by decide : _ = _ ++ ['$']) (.name (half _) (by decide : _ = _ ++ []) .done)
  have whole : Cut s true ['$', '$'] [.name .target] :=
    .name ⟨⟨by decide, by decide⟩, by rintro (_ | _) _ <;> decide, by decide⟩
      (by decide : _ = _ ++ []) .done
  exact ⟨(render_of_cut (p := ⟨arya, none⟩) halves).trans (by decide),
    (render_of_cut (p := ⟨arya, some _⟩) whole).trans (by decide)⟩

end Stratagem.Template
