import Mathlib.Data.List.Infix
import Stratagem.Message.Scan

/-!
# The pieces of a template

A template is cut from left to right into tokens and single characters, and its message shows each
token as a name. The cut depends on the tokens and on whether there is a target, never on the names.

* `Template.Leads`: which token is taken up where several begin.
* `Template.Cut` tells the cuts of a template, and `Template.Cut.unique` that there is only one.
* `Template.Finds`: an order of trying the tokens that finds the one to be taken up. The order by
  bytes and the order by characters both do.
* `Template.rendering_exact` is the result.
-/

namespace Stratagem

/-- The two actors that a token can stand for. -/
inductive Party
  | conspirator | target
deriving DecidableEq, Repr

/-- The token of a party. -/
def WalkSettings.token (s : WalkSettings) : Party → List Char
  | .conspirator => s.conspiratorToken.toList
  | .target => s.targetToken.toList

/-- The name of a party. -/
def Parties.name (p : Parties) : Party → List Char
  | .conspirator => p.conspirator.name.toList
  | .target => (p.target.map fun t => t.name.toList).getD []

/-- The token of a party together with its name. -/
def Parties.tokenOf (p : Parties) (s : WalkSettings) (a : Party) : Token := ⟨s.token a, p.name a⟩

namespace Template

/-! ## Which token is taken up -/

/-- Whether the token of a party is bound: the target's only if there is a target, and none that is
empty. -/
def Bound (s : WalkSettings) (targeted : Bool) : Party → Prop
  | .conspirator => s.token .conspirator ≠ []
  | .target => s.token .target ≠ [] ∧ targeted = true

/-- Whether the token of a party is bound and a text begins with it. -/
structure Begins (s : WalkSettings) (targeted : Bool) (text : List Char) (a : Party) : Prop where
  bound : Bound s targeted a
  starts : s.token a <+: text

/-- Whether the token of a party is the longest that a text begins with, the conspirator's if both
are the same. -/
structure Leads (s : WalkSettings) (targeted : Bool) (text : List Char) (a : Party) : Prop
    extends Begins s targeted text a where
  longest : ∀ b, Begins s targeted text b → (s.token b).length ≤ (s.token a).length
  first : a = .target → s.token .target ≠ s.token .conspirator

variable {s : WalkSettings} {targeted : Bool} {text rest : List Char} {a b : Party}

theorem Bound.token_ne_nil (bound : Bound s targeted a) : s.token a ≠ [] := by
  cases a with
  | conspirator => exact bound
  | target => exact bound.1

/-- Two tokens that begin one text are equal if they are equally long. -/
theorem Begins.token_eq (one : Begins s targeted text a) (other : Begins s targeted text b)
    (long : (s.token a).length = (s.token b).length) : s.token a = s.token b :=
  (List.prefix_of_prefix_length_le one.starts other.starts long.le).eq_of_length long

/-- Where a token begins, one is taken up. -/
theorem exists_leads (begins : Begins s targeted text a) : ∃ b, Leads s targeted text b := by
  by_cases here : Begins s targeted text .conspirator ∧
      (Begins s targeted text .target → (s.token .target).length ≤ (s.token .conspirator).length)
  · refine ⟨.conspirator, here.1, ?_, nofun⟩
    rintro (_ | _) other
    · exact Nat.le_refl _
    · exact here.2 other
  · -- the conspirator's token does not begin here, or the target's is longer
    have other : Begins s targeted text .target ∧ (Begins s targeted text .conspirator →
        (s.token .conspirator).length < (s.token .target).length) := by
      rw [not_and_or] at here
      rcases here with absent | shorter
      · cases a with
        | conspirator => exact absurd begins absent
        | target => exact ⟨begins, fun present => absurd present absent⟩
      · obtain ⟨target, longer⟩ := Classical.not_imp.1 shorter
        exact ⟨target, fun _ => Nat.lt_of_not_le longer⟩
    refine ⟨.target, other.1, ?_, ?_⟩
    · rintro (_ | _) present
      · exact (other.2 present).le
      · exact Nat.le_refl _
    · intro _ same
      have bound : Bound s targeted .conspirator := by
        show s.token .conspirator ≠ []
        exact same ▸ other.1.bound.token_ne_nil
      have shorter := other.2 ⟨bound, same ▸ other.1.starts⟩
      rw [same] at shorter
      exact Nat.lt_irrefl _ shorter

theorem Leads.unique (one : Leads s targeted text a) (other : Leads s targeted text b) :
    a = b := by
  have same : s.token a = s.token b := one.toBegins.token_eq other.toBegins
    (Nat.le_antisymm (other.longest a one.toBegins) (one.longest b other.toBegins))
  cases a <;> cases b
  · rfl
  · exact absurd same.symm (other.first rfl)
  · exact absurd same (one.first rfl)
  · rfl

/-! ## Cuts -/

/-- A piece of a template. -/
inductive Piece
  /-- The token of a party. -/
  | name (a : Party)
  | letter (c : Char)
deriving DecidableEq, Repr

/-- A piece as it stands in the template. -/
def Piece.written (s : WalkSettings) : Piece → List Char
  | .name a => s.token a
  | .letter c => [c]

/-- A piece as the message shows it. -/
def Piece.shown (p : Parties) : Piece → List Char
  | .name a => p.name a
  | .letter c => [c]

/-- The cuts of a text: where tokens begin, the one that leads is a piece; elsewhere a single
character is. -/
inductive Cut (s : WalkSettings) (targeted : Bool) : List Char → List Piece → Prop
  | done : Cut s targeted [] []
  | name {a : Party} {text rest : List Char} {pieces : List Piece} : Leads s targeted text a →
      text = s.token a ++ rest → Cut s targeted rest pieces →
      Cut s targeted text (.name a :: pieces)
  | letter {c : Char} {rest : List Char} {pieces : List Piece} :
      (∀ a, ¬ Begins s targeted (c :: rest) a) → Cut s targeted rest pieces →
      Cut s targeted (c :: rest) (.letter c :: pieces)

variable {pieces : List Piece}

theorem exists_cut (s : WalkSettings) (targeted : Bool) (text : List Char) :
    ∃ pieces, Cut s targeted text pieces := by
  -- A piece may be several characters long, so the induction is on the length of what is left.
  induction long : text.length using Nat.strongRecOn generalizing text with
  | ind n ih =>
    subst long
    by_cases begins : ∃ a, Begins s targeted text a
    · obtain ⟨a, leads⟩ := begins.elim fun _ begins => exists_leads begins
      obtain ⟨rest, whole⟩ := leads.starts
      have filled := List.length_pos_iff.2 leads.bound.token_ne_nil
      have shorter : rest.length < text.length := by
        rw [← whole, List.length_append]
        omega
      obtain ⟨pieces, cut⟩ := ih _ shorter rest rfl
      exact ⟨_, .name leads whole.symm cut⟩
    · cases text with
      | nil => exact ⟨_, .done⟩
      | cons c rest =>
        obtain ⟨pieces, cut⟩ := ih _ (Nat.lt_succ_self _) rest rfl
        exact ⟨_, .letter (not_exists.1 begins) cut⟩

theorem not_begins_nil : ¬ Begins s targeted [] a := fun begins =>
  begins.bound.token_ne_nil (List.prefix_nil.1 begins.starts)

theorem Cut.unique {others : List Piece} (one : Cut s targeted text pieces)
    (other : Cut s targeted text others) : pieces = others := by
  induction one generalizing others with
  | done =>
    cases other with
    | done => rfl
    | name leads _ _ => exact absurd leads.toBegins not_begins_nil
  | name leads whole _ ih =>
    cases other with
    | done => exact absurd leads.toBegins not_begins_nil
    | name leads' whole' later =>
      obtain rfl := leads.unique leads'
      obtain rfl := List.append_cancel_left (whole.symm.trans whole')
      rw [ih later]
    | letter plain _ => exact absurd leads.toBegins (plain _)
  | letter plain _ ih =>
    cases other with
    | name leads _ _ => exact absurd leads.toBegins (plain _)
    | letter _ later => rw [ih later]

/-- The pieces of a text make up the text. -/
theorem Cut.flatMap_written (cut : Cut s targeted text pieces) :
    pieces.flatMap (Piece.written s) = text := by
  induction cut with
  | done => rfl
  | name _ whole _ ih => rw [whole, List.flatMap_cons, ih, Piece.written]
  | letter _ _ ih => rw [List.flatMap_cons, ih, Piece.written, List.singleton_append]

/-- A piece of a text that is a token is bound and stands in the text. -/
theorem Cut.of_mem_name (cut : Cut s targeted text pieces) (met : .name a ∈ pieces) :
    Bound s targeted a ∧ s.token a <:+: text := by
  induction cut with
  | done => cases met
  | name leads whole _ ih =>
    rcases List.mem_cons.1 met with here | met
    · obtain rfl := Piece.name.inj here
      exact ⟨leads.bound, leads.starts.isInfix⟩
    · obtain ⟨bound, inside⟩ := ih met
      exact ⟨bound, inside.trans (whole ▸ (List.suffix_append _ _).isInfix)⟩
  | letter _ _ ih =>
    obtain ⟨bound, inside⟩ := ih ((List.mem_cons.1 met).resolve_left nofun)
    exact ⟨bound, inside.trans (List.suffix_cons _ _).isInfix⟩

/-- If every token of a text has itself for a name, the message shows the text. -/
theorem Cut.flatMap_shown_eq {p : Parties} (cut : Cut s targeted text pieces)
    (own : ∀ a, .name a ∈ pieces → p.name a = s.token a) :
    pieces.flatMap (Piece.shown p) = text := by
  refine (List.flatMap_congr fun piece met => ?_).trans cut.flatMap_written
  cases piece with
  | name a => exact own a met
  | letter c => rfl

/-! ## Trying the tokens in order -/

variable {p : Parties} {tokens : List Token} {t : Token}

instance : DecidablePred (Bound s targeted)
  | .conspirator => inferInstanceAs (Decidable (_ ≠ _))
  | .target => inferInstanceAs (Decidable (_ ∧ _))

theorem ofText?_eq (text name : String) :
    Token.ofText? text name = if text.toList ≠ [] then some ⟨text.toList, name.toList⟩ else none := by
  unfold Token.ofText?
  by_cases empty : text = ""
  · subst empty
    rfl
  · rw [if_neg (by simpa using empty), if_pos (by simpa using empty)]

/-- The tokens in force are those of the parties whose token is bound. -/
theorem inForce_eq (p : Parties) (s : WalkSettings) :
    p.inForce s = ([Party.conspirator, .target].filter
      fun a => decide (Bound s p.target.isSome a)).map (p.tokenOf s) := by
  unfold Parties.inForce
  rw [ofText?_eq]
  cases known : p.target with
  | none =>
    by_cases first : s.conspiratorToken.toList = [] <;>
      simp [Bound, WalkSettings.token, first, Parties.tokenOf, Parties.name]
  | some t =>
    rw [Option.bind_some, ofText?_eq]
    by_cases first : s.conspiratorToken.toList = [] <;>
      by_cases second : s.targetToken.toList = [] <;>
        simp [Bound, WalkSettings.token, first, second, Parties.tokenOf, Parties.name, known]

theorem mem_inForce : t ∈ p.inForce s ↔ ∃ a, Bound s p.target.isSome a ∧ t = p.tokenOf s a := by
  rw [inForce_eq, List.mem_map]
  constructor
  · rintro ⟨a, met, rfl⟩
    exact ⟨a, of_decide_eq_true (List.mem_filter.1 met).2, rfl⟩
  · rintro ⟨a, bound, rfl⟩
    refine ⟨a, List.mem_filter.2 ⟨?_, decide_eq_true bound⟩, rfl⟩
    cases a <;> simp

/-- Trying these tokens one after the other finds the one to be taken up, wherever there is one. -/
structure Finds (s : WalkSettings) (p : Parties) (tokens : List Token) : Prop where
  leads : ∀ {text a}, Leads s p.target.isSome text a →
    tokenAt? tokens text = some (p.tokenOf s a)
  plain : ∀ {text}, (∀ a, ¬ Begins s p.target.isSome text a) → tokenAt? tokens text = none

theorem tokenAt?_cons (t : Token) (tokens : List Token) (text : List Char) :
    tokenAt? (t :: tokens) text = if t.text <+: text then some t else tokenAt? tokens text := by
  unfold tokenAt?
  rw [List.find?_cons]
  by_cases starts : t.text <+: text
  · rw [List.isPrefixOf_iff_prefix.2 starts, if_pos starts]
  · rw [Bool.eq_false_iff.2 fun h => starts (List.isPrefixOf_iff_prefix.1 h), if_neg starts]

theorem mergeSort_pair {α : Type} (le : α → α → Bool) (a b : α) :
    [a, b].mergeSort le = if le a b then [a, b] else [b, a] := by
  simp [List.mergeSort, List.MergeSort.Internal.splitInTwo, List.merge]

/-- The tokens may be tried in the order of any size that grows with a text: where the tokens of both
parties begin, one of them begins with the other, and the longer is tried first. -/
theorem finds_mergeSort {size : List Char → Nat}
    (grows : ∀ x y : List Char, x <+: y → x ≠ y → size x < size y) :
    Finds s p ((p.inForce s).mergeSort fun a b => size b.text ≤ size a.text) where
  plain := by
    intro text plain
    refine List.find?_eq_none.2 fun t met starts => ?_
    obtain ⟨a, bound, rfl⟩ := mem_inForce.1 ((List.mergeSort_perm _ _).mem_iff.1 met)
    exact plain a ⟨bound, List.isPrefixOf_iff_prefix.1 starts⟩
  leads := by
    intro text a leads
    have shorter : ∀ b, Begins s p.target.isSome text b → s.token b ≠ s.token a →
        size (s.token b) < size (s.token a) := fun b begins differ =>
      grows _ _ (List.prefix_of_prefix_length_le begins.starts leads.starts
        (leads.longest b begins)) differ
    have here : (p.tokenOf s a).text <+: text := leads.starts
    rw [inForce_eq]
    -- If the other token stands first, it is not shorter, so it does not begin here.
    cases a with
    | conspirator =>
      by_cases other : Bound s p.target.isSome .target
      · rw [List.filter_eq_self.2 (by simp [leads.bound, other])]
        simp only [List.map_cons, List.map_nil, mergeSort_pair, decide_eq_true_eq]
        split
        · rw [tokenAt?_cons, if_pos here]
        · next first =>
          rw [tokenAt?_cons, if_neg, tokenAt?_cons, if_pos here]
          intro starts
          refine first (Nat.le_of_lt (shorter .target ⟨other, starts⟩ fun same => ?_))
          exact first (congrArg size same).le
      · simp [leads.bound, other, tokenAt?_cons, here]
    | target =>
      by_cases other : Bound s p.target.isSome .conspirator
      · rw [List.filter_eq_self.2 (by simp [leads.bound, other])]
        simp only [List.map_cons, List.map_nil, mergeSort_pair, decide_eq_true_eq]
        split
        · next first =>
          rw [tokenAt?_cons, if_neg, tokenAt?_cons, if_pos here]
          intro starts
          have less := shorter .conspirator ⟨other, starts⟩ (leads.first rfl).symm
          exact Nat.not_lt_of_le first less
        · rw [tokenAt?_cons, if_pos here]
      · simp [leads.bound, other, tokenAt?_cons, here]

theorem length_grows (x y : List Char) (starts : x <+: y) (differ : x ≠ y) :
    x.length < y.length :=
  Nat.lt_of_le_of_ne starts.length_le fun same => differ (starts.eq_of_length same)

theorem byteSize_append (x y : List Char) : byteSize (x ++ y) = byteSize x + byteSize y := by
  induction x with
  | nil => exact (Nat.zero_add _).symm
  | cons c x ih => rw [List.cons_append, byteSize, ih, byteSize, Nat.add_assoc]

theorem byteSize_grows (x y : List Char) (starts : x <+: y) (differ : x ≠ y) :
    byteSize x < byteSize y := by
  obtain ⟨z, rfl⟩ := starts
  cases z with
  | nil => exact absurd (List.append_nil x).symm differ
  | cons c z =>
    have one := c.utf8Size_pos
    rw [byteSize_append, byteSize]
    omega

/-- The tokens are found in the order in which messages are made of them. -/
theorem finds_tokens (p : Parties) (s : WalkSettings) : Finds s p (p.tokens s) :=
  finds_mergeSort length_grows

/-- The tokens are found in the order of their bytes. -/
theorem finds_trials (p : Parties) (s : WalkSettings) : Finds s p (p.trials s) :=
  finds_mergeSort byteSize_grows

/-! ## Messages -/

/-- A message shows the pieces of its template. -/
theorem fill_of_cut (finds : Finds s p tokens) (cut : Cut s p.target.isSome text pieces) :
    fill tokens 0 text = pieces.flatMap (Piece.shown p) := by
  induction cut with
  | done => rfl
  | @name a text rest pieces leads whole _ ih =>
    -- The token is taken up at its first character, and the rest of it is skipped.
    obtain ⟨c, more, token⟩ := List.exists_cons_of_ne_nil leads.bound.token_ne_nil
    have here := finds.leads leads
    rw [whole, token, List.cons_append] at here ⊢
    simp only [fill, here, Parties.tokenOf, token, List.length_cons, Nat.add_sub_cancel]
    rw [fill_skip, List.drop_left, ih, List.flatMap_cons, Piece.shown]
  | letter plain _ ih =>
    simp only [fill, finds.plain plain, ih, List.flatMap_cons, Piece.shown, List.singleton_append]

/-- A pass over a template takes up one piece after the other. -/
theorem runs_of_cut (finds : Finds s p tokens) (cut : Cut s p.target.isSome text pieces)
    (message : List Char) :
    Scan.Runs tokens pieces.length ⟨message, text⟩
      ⟨message ++ pieces.flatMap (Piece.shown p), []⟩ := by
  induction cut generalizing message with
  | done =>
    rw [List.flatMap_nil, List.append_nil]
    exact .done rfl
  | @name a text rest pieces leads whole _ ih =>
    have turn : Scan.step tokens ⟨message, text⟩ = some ⟨message ++ p.name a, rest⟩ := by
      obtain ⟨c, more, token⟩ := List.exists_cons_of_ne_nil leads.bound.token_ne_nil
      have here := finds.leads leads
      rw [whole, token, List.cons_append] at here ⊢
      simp only [Scan.step, here, Parties.tokenOf]
      rw [token, ← List.cons_append, List.drop_left]
    rw [List.flatMap_cons, ← List.append_assoc]
    exact .turn turn (ih _)
  | @letter c rest pieces plain _ ih =>
    have turn : Scan.step tokens ⟨message, c :: rest⟩ = some ⟨message ++ [c], rest⟩ := by
      simp only [Scan.step, finds.plain plain]
    rw [List.flatMap_cons, ← List.append_assoc]
    exact .turn turn (ih _)

theorem render_of_cut {template : String} (cut : Cut s p.target.isSome template.toList pieces) :
    p.render s template = String.ofList (pieces.flatMap (Piece.shown p)) :=
  congrArg String.ofList (fill_of_cut (finds_tokens p s) cut)

/-- A template is cut in exactly one way, which the names of the actors have no part in: its pieces
are the longest bound token at each place where one begins, the conspirator's if both are the same,
and single characters elsewhere. The pass over the template has one run, of as many turns as there
are pieces, and the message that it leaves shows each token as a name. So a template without tokens
is its own message, and so is any template if every bound token is the name that it stands for. -/
theorem rendering_exact (s : WalkSettings) (targeted : Bool) (template : String) :
    ∃ pieces, Cut s targeted template.toList pieces ∧
      (∀ others, Cut s targeted template.toList others → others = pieces) ∧
      pieces.flatMap (Piece.written s) = template.toList ∧
      ∀ p : Parties, p.target.isSome = targeted →
        (∀ t, t ∈ p.trials s ↔ ∃ a, Bound s targeted a ∧ t = p.tokenOf s a) ∧
        p.render s template = String.ofList (pieces.flatMap (Piece.shown p)) ∧
        (∀ n last, Scan.Runs (p.trials s) n ⟨[], template.toList⟩ last ↔
          n = pieces.length ∧ last = ⟨(p.render s template).toList, []⟩) ∧
        ((∀ a, Bound s targeted a → ¬ s.token a <:+: template.toList) →
          p.render s template = template) ∧
        ((∀ a, Bound s targeted a → p.name a = s.token a) → p.render s template = template) := by
  obtain ⟨pieces, cut⟩ := exists_cut s targeted template.toList
  refine ⟨pieces, cut, fun _ other => other.unique cut, cut.flatMap_written, ?_⟩
  rintro p rfl
  have rendered := render_of_cut cut
  have unchanged : (∀ a, .name a ∈ pieces → p.name a = s.token a) →
      p.render s template = template := by
    intro own
    rw [rendered, cut.flatMap_shown_eq own, String.ofList_toList]
  have runs := runs_of_cut (finds_trials p s) cut []
  rw [List.nil_append, ← String.toList_ofList (l := pieces.flatMap (Piece.shown p)), ← rendered]
    at runs
  refine ⟨fun t => ?_, rendered, fun n last => ⟨fun run => run.unique runs, ?_⟩, ?_, ?_⟩
  · rw [Parties.trials, (List.mergeSort_perm _ _).mem_iff, mem_inForce]
  · rintro ⟨rfl, rfl⟩
    exact runs
  · exact fun absent => unchanged fun a met =>
      absurd (cut.of_mem_name met).2 (absent a (cut.of_mem_name met).1)
  · exact fun own => unchanged fun a met => own a (cut.of_mem_name met).1

/-- Of two tokens that begin at one place the longer is taken up, and the name of the conspirator,
which looks like a token, stays as it is. -/
theorem rendering_exact_overlapping :
    let s : WalkSettings := { conspiratorToken := "$", targetToken := "$$" }
    let p : Parties := ⟨.create .nil "$$" .male, some (.create .nil "Vera" .female)⟩
    p.target.isSome = true ∧ p.render s "$$$" = "Vera$$" := by
  intro s p
  obtain ⟨pieces, -, unique, -, renders⟩ := rendering_exact s true "$$$"
  have longer : Leads s true ['$', '$', '$'] .target :=
    ⟨⟨by decide, by decide⟩, by rintro (_ | _) _ <;> decide, by decide⟩
  have alone : Leads s true ['$'] .conspirator := by
    refine ⟨⟨by decide, by decide⟩, ?_, nofun⟩
    rintro (_ | _) begins
    · exact Nat.le_refl _
    · exact absurd begins.starts (by decide)
  have cut : Cut s true ['$', '$', '$'] [.name .target, .name .conspirator] :=
    .name longer (by decide : _ = _ ++ ['$']) (.name alone (by decide : _ = _ ++ []) .done)
  obtain rfl := unique _ cut
  exact ⟨rfl, (renders p rfl).2.1.trans (by decide)⟩

end Template

end Stratagem
