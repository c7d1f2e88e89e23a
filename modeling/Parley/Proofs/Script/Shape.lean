import Parley.Proofs.Script.WellFormed

/-!
# Shapes of Parsed Scripts

Whoever runs or lints a script meets its statements one by one, at whatever depth they lie. We state
what the well-formedness of a script amounts to for each of them:

* `Expr.isShaped_of_wellFormed`: every connective has operands, and a negation has exactly one;
* `Phrase.isShaped_of_wellFormed`: every pick has alternatives;
* `Statement.isWellFormed_of_mem_walk`: every statement inside a well-formed one is well formed
  where it lies;
* `Script.isFormed_of_parse`: the expressions and texts of every statement of a parsed script have
  their shapes, and only the text of a saying can have more than one part;
* `Script.mem_walk_of_mem_bodies`: this covers what is inside the bodies that are run on their own.
-/

namespace Parley

namespace Expr

/-- An expression itself has the operands that its operator takes. -/
def IsFormed : Expr → Prop
  | .connect .not operands => operands.length = 1
  | .connect _ operands => operands ≠ []
  | _ => True

/-- An expression and all expressions inside it have their operands. -/
def IsShaped (e : Expr) : Prop :=
  ∀ x ∈ e.walk, x.IsFormed

theorem isShaped_atom {e : Expr} (hwalk : e.walk = [e]) (he : e.IsFormed) : e.IsShaped := by
  intro x hx
  rw [hwalk, List.mem_singleton] at hx
  exact hx ▸ he

theorem isShaped_compare {op : Comparison} {l r : Expr} (hl : l.IsShaped) (hr : r.IsShaped) :
    (compare op l r).IsShaped := by
  intro x hx
  rw [walk, List.mem_cons, List.mem_append] at hx
  rcases hx with rfl | hx | hx
  · exact trivial
  · exact hl x hx
  · exact hr x hx

theorem isShaped_connect {op : Connective} {operands : List Expr}
    (hop : (connect op operands).IsFormed) (h : ∀ x ∈ walkAll operands, x.IsFormed) :
    (connect op operands).IsShaped := by
  intro x hx
  rw [walk, List.mem_cons] at hx
  rcases hx with rfl | hx
  · exact hop
  · exact h x hx

/-- An operator that has the operands it takes. -/
theorem isFormed_connect {op : Connective} {operands : List Expr} (hsome : operands ≠ [])
    (hnot : op = .not → operands.length = 1) : (connect op operands).IsFormed := by
  cases op with
  | not => exact hnot rfl
  | and => exact hsome
  | or => exact hsome

mutual

/-- A well-formed expression has its operands, and so have all expressions inside it. -/
theorem isShaped_of_wellFormed : ∀ e : Expr, e.IsWellFormed → e.IsShaped
  | .literal _, _ => isShaped_atom rfl trivial
  | .var _, _ => isShaped_atom rfl trivial
  | .compare _ left right, h =>
    isShaped_compare (isShaped_of_wellFormed left h.1) (isShaped_of_wellFormed right h.2)
  | .connect _ operands, h =>
    isShaped_connect (isFormed_connect h.1 h.2.1) (areShaped_of_wellFormed operands h.2.2)

theorem areShaped_of_wellFormed : ∀ es : List Expr, AreWellFormed es → ∀ x ∈ walkAll es, x.IsFormed
  | [], _ => fun _ hx => nomatch hx
  | e :: rest, h => by
    intro x hx
    rw [walkAll, List.mem_append] at hx
    exact hx.elim (isShaped_of_wellFormed e h.1 x) (areShaped_of_wellFormed rest h.2 x)

end

end Expr

/-- Every pick of a phrase has alternatives. -/
def Phrase.IsShaped (phrase : Phrase) : Prop :=
  .pick [] ∉ phrase

namespace Phrase

theorem isShaped_of_wellFormed {phrase : Phrase} (h : phrase.IsWellFormed) : phrase.IsShaped :=
  fun hmem => h (.pick []) hmem rfl

theorem IsSingle.shaped {phrase : Phrase} (h : phrase.IsSingle) :
    phrase.IsShaped ∧ ∃ part, phrase = [part] := by
  obtain ⟨part, rfl, hpart⟩ := h
  exact ⟨isShaped_of_wellFormed (List.forall_mem_singleton.2 hpart), part, rfl⟩

end Phrase

namespace Statement

/-- The expressions of a statement itself, statements inside it aside. -/
def exprs : Statement → List Expr
  | .cond clauses => clauses.filterMap fun c =>
    match c.test with
    | .expr e => some e
    | .otherwise => none
  | .option _ guard _ => guard.toList
  | .assign _ value => [value]
  | _ => []

/-- The texts of a statement itself, statements inside it aside. -/
def phrases : Statement → List Phrase
  | .say text => [text]
  | .option label _ _ => [label]
  | .give _ message => [message]
  | .finish message => message.toList
  | _ => []

/-- A statement itself has the shape that the parser sees to. -/
structure IsFormed (s : Statement) : Prop where
  exprs : ∀ e ∈ s.exprs, e.IsShaped
  phrases : ∀ p ∈ s.phrases, p.IsShaped
  /-- Only the text of a saying is put together from parts. -/
  single : ∀ p ∈ s.phrases, s = .say p ∨ ∃ part, p = [part]

theorem isFormed_of_phrase {s : Statement} {phrase : Phrase} (hexprs : s.exprs = [])
    (hphrases : s.phrases = [phrase]) (h : phrase.IsShaped ∧ ∃ part, phrase = [part]) :
    s.IsFormed := by
  refine ⟨?_, ?_, ?_⟩
  · rw [hexprs]
    exact List.forall_mem_nil _
  · rw [hphrases, List.forall_mem_singleton]
    exact h.1
  · rw [hphrases, List.forall_mem_singleton]
    exact .inr h.2

theorem isFormed_of_expr {s : Statement} (hexprs : ∀ e ∈ s.exprs, e.IsShaped)
    (hphrases : s.phrases = []) : s.IsFormed := by
  refine ⟨hexprs, ?_, ?_⟩
  · rw [hphrases]
    exact List.forall_mem_nil _
  · rw [hphrases]
    exact List.forall_mem_nil _

theorem exprs_cond_cons (t : Test) (body : List Statement) (rest : List Clause) :
    (cond (.mk t body :: rest)).exprs =
      (match t with
        | .expr e => [e]
        | .otherwise => []) ++ (cond rest).exprs := by
  cases t <;> rfl

/-- The tests of well-formed clauses are in shape. -/
theorem exprs_cond_shaped {inOption : Bool} {clauses : List Clause}
    (h : Clause.AreWellFormed inOption clauses) : ∀ e ∈ (cond clauses).exprs, e.IsShaped := by
  induction clauses with
  | nil => exact List.forall_mem_nil _
  | cons c rest ih =>
    obtain ⟨t, body⟩ := c
    obtain ⟨-, ht, -, hrest⟩ := h
    intro e he
    rw [exprs_cond_cons, List.mem_append] at he
    rcases he with he | he
    · cases t with
      | otherwise => exact absurd he List.not_mem_nil
      | expr e' => exact List.mem_singleton.1 he ▸ Expr.isShaped_of_wellFormed e' ht
    · exact ih hrest e he

/-- A well-formed statement itself is in shape. -/
theorem isFormed_of_wellFormed {inOption : Bool} {s : Statement} (h : s.IsWellFormed inOption) :
    s.IsFormed := by
  cases s with
  | cond clauses => exact isFormed_of_expr (exprs_cond_shaped h.2) rfl
  | say text =>
    exact ⟨List.forall_mem_nil _, List.forall_mem_singleton.2 (Phrase.isShaped_of_wellFormed h.2),
      List.forall_mem_singleton.2 (.inl rfl)⟩
  | option label guard body =>
    obtain ⟨-, hlabel, hguard, -⟩ := h
    refine ⟨fun e he => ?_, List.forall_mem_singleton.2 hlabel.shaped.1,
      List.forall_mem_singleton.2 (.inr hlabel.shaped.2)⟩
    exact Expr.isShaped_of_wellFormed e (hguard e (Option.mem_toList.1 he))
  | give item message => exact isFormed_of_phrase rfl rfl h.2.shaped
  | offer item => exact isFormed_of_expr (List.forall_mem_nil _) rfl
  | spend amount => exact isFormed_of_expr (List.forall_mem_nil _) rfl
  | assign name value =>
    exact isFormed_of_expr (List.forall_mem_singleton.2 (Expr.isShaped_of_wellFormed value h.2)) rfl
  | finish message =>
    cases message with
    | none => exact isFormed_of_expr (List.forall_mem_nil _) rfl
    | some text => exact isFormed_of_phrase rfl rfl (h text rfl).shaped

mutual

/-- Every statement inside a well-formed statement is well formed where it lies, which may be in an
option. -/
theorem isWellFormed_of_mem_walk {inOption : Bool} : ∀ s : Statement, s.IsWellFormed inOption →
    ∀ x ∈ s.walk, x.IsWellFormed inOption ∨ x.IsWellFormed true
  | .cond clauses, h => by
    rw [walk, List.forall_mem_cons]
    exact ⟨.inl h, isWellFormed_of_mem_walkClauses clauses h.2⟩
  | .option label guard body, h => by
    have hbody : AreWellFormed true body := h.2.2.2
    rw [walk, List.forall_mem_cons]
    exact ⟨.inl h, fun x hx => .inr (or_self_iff.1 (isWellFormed_of_mem_walkBody body hbody x hx))⟩
  | .say _, h => List.forall_mem_singleton.2 (.inl h)
  | .give _ _, h => List.forall_mem_singleton.2 (.inl h)
  | .offer _, h => List.forall_mem_singleton.2 (.inl h)
  | .spend _, h => List.forall_mem_singleton.2 (.inl h)
  | .assign _ _, h => List.forall_mem_singleton.2 (.inl h)
  | .finish _, h => List.forall_mem_singleton.2 (.inl h)

theorem isWellFormed_of_mem_walkClauses {inOption : Bool} : ∀ clauses : List Clause,
    Clause.AreWellFormed inOption clauses →
      ∀ x ∈ walkClauses clauses, x.IsWellFormed inOption ∨ x.IsWellFormed true
  | [], _ => List.forall_mem_nil _
  | .mk _ body :: rest, ⟨_, _, hbody, hrest⟩ => by
    intro x hx
    rw [walkClauses, List.mem_append] at hx
    exact hx.elim (isWellFormed_of_mem_walkBody body hbody x)
      (isWellFormed_of_mem_walkClauses rest hrest x)

theorem isWellFormed_of_mem_walkBody {inOption : Bool} : ∀ body : List Statement,
    AreWellFormed inOption body →
      ∀ x ∈ walkBody body, x.IsWellFormed inOption ∨ x.IsWellFormed true
  | [], _ => List.forall_mem_nil _
  | s :: rest, ⟨hs, hrest⟩ => by
    intro x hx
    rw [walkBody, List.mem_append] at hx
    exact hx.elim (isWellFormed_of_mem_walk s hs x) (isWellFormed_of_mem_walkBody rest hrest x)

end

/-- No option lies in the body of an option. -/
theorem option_notMem_walkBody {label inner : Phrase} {guard innerGuard : Option Expr}
    {body innerBody : List Statement} {inOption : Bool}
    (h : (option label guard body).IsWellFormed inOption) :
    .option inner innerGuard innerBody ∉ walkBody body := by
  intro hmem
  obtain ⟨-, -, -, hbody⟩ := h
  -- an option inside another one would have to lie outside of it
  have hinner := or_self_iff.1 (isWellFormed_of_mem_walkBody body hbody _ hmem)
  exact absurd hinner.1 Bool.noConfusion

end Statement

/-! ## Bodies inside a script -/

namespace Statement

mutual

/-- What is inside a statement inside a statement is inside it. -/
theorem walk_trans {x y : Statement} : ∀ s : Statement, x ∈ s.walk → y ∈ x.walk → y ∈ s.walk
  | .cond clauses, hx, hy => by
    rw [walk, List.mem_cons] at hx
    rcases hx with rfl | hx
    · exact hy
    · exact List.mem_cons_of_mem _ (walkClauses_trans clauses hx hy)
  | .option label guard body, hx, hy => by
    rw [walk, List.mem_cons] at hx
    rcases hx with rfl | hx
    · exact hy
    · exact List.mem_cons_of_mem _ (walkBody_trans body hx hy)
  | .say _, hx, hy => List.mem_singleton.1 hx ▸ hy
  | .give _ _, hx, hy => List.mem_singleton.1 hx ▸ hy
  | .offer _, hx, hy => List.mem_singleton.1 hx ▸ hy
  | .spend _, hx, hy => List.mem_singleton.1 hx ▸ hy
  | .assign _ _, hx, hy => List.mem_singleton.1 hx ▸ hy
  | .finish _, hx, hy => List.mem_singleton.1 hx ▸ hy

theorem walkClauses_trans {x y : Statement} : ∀ clauses : List Clause,
    x ∈ walkClauses clauses → y ∈ x.walk → y ∈ walkClauses clauses
  | .mk _ body :: rest, hx, hy => by
    rw [walkClauses, List.mem_append] at hx ⊢
    exact hx.imp (walkBody_trans body · hy) (walkClauses_trans rest · hy)

theorem walkBody_trans {x y : Statement} : ∀ body : List Statement,
    x ∈ walkBody body → y ∈ x.walk → y ∈ walkBody body
  | s :: rest, hx, hy => by
    rw [walkBody, List.mem_append] at hx ⊢
    exact hx.imp (walk_trans s · hy) (walkBody_trans rest · hy)

end

/-- The body that a statement keeps for later. -/
def body? : Statement → Option (List Statement)
  | .option _ _ body => some body
  | _ => none

theorem eq_option_of_body? {s : Statement} {body : List Statement} (h : s.body? = some body) :
    ∃ label guard, s = .option label guard body := by
  cases s with
  | option label guard own =>
    cases h
    exact ⟨label, guard, rfl⟩
  | _ => cases h

end Statement

namespace Script

variable {script : Script}

/-- The bodies that are run on their own: the one of the script, and those of its options. -/
def bodies (script : Script) : List (List Statement) :=
  script.body :: script.walk.filterMap Statement.body?

/-- What is inside a body of a script is inside the script. -/
theorem mem_walk_of_mem_bodies {body : List Statement} (hbody : body ∈ script.bodies)
    {s : Statement} (hs : s ∈ Statement.walkBody body) : s ∈ script.walk := by
  rcases List.mem_cons.1 hbody with rfl | hbody
  · exact hs
  · obtain ⟨o, ho, hobody⟩ := List.mem_filterMap.1 hbody
    obtain ⟨label, guard, rfl⟩ := Statement.eq_option_of_body? hobody
    exact Statement.walkBody_trans script.body ho (List.mem_cons_of_mem _ hs)

/-- Every statement of a parsed script is well formed where it lies. -/
theorem isWellFormed_of_parse {text archetype source : String} {limits : Limits}
    (h : parse text archetype source limits = .ok script) {s : Statement} (hs : s ∈ script.walk) :
    ∃ inOption, s.IsWellFormed inOption := by
  obtain ⟨body, hparse, rfl⟩ := parse_eq_ok.mp h
  have hbody := (parseBody_wellFormed text limits).of_eq_ok hparse
  rcases Statement.isWellFormed_of_mem_walkBody body hbody s hs with hs | hs
  · exact ⟨false, hs⟩
  · exact ⟨true, hs⟩

/-- Every statement of a parsed script has the shape that the parser sees to, however deep it lies.
-/
theorem isFormed_of_parse {text archetype source : String} {limits : Limits}
    (h : parse text archetype source limits = .ok script) : ∀ s ∈ script.walk, s.IsFormed := by
  intro s hs
  obtain ⟨inOption, hwellFormed⟩ := isWellFormed_of_parse h hs
  exact Statement.isFormed_of_wellFormed hwellFormed

end Script

end Parley
