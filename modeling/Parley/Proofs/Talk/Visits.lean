import Mathlib.Data.List.Basic
import Parley.Proofs.Talk.Run

/-!
# What a Run Visits

A run goes through the statements of its body in the order in which they are written. It passes over
clauses that are not taken and over what follows a closing statement, and it never enters the body
of an option. We prove:

* `Statement.map_placedBody`: a body with its statements marked by whether they lie in an option is
  what lint and the library walk over;
* `Statement.surfaceBody_eq`: what a run can visit is what lies outside the bodies of options, conds
  aside;
* `Walk.visitsBody_sublist`: the visited statements stand in the body in this order, and none of
  them is visited twice;
* `Walk.execBody_visited`: a relation between a run and its visits that each visited statement keeps
  is kept by the whole run;
* `Walk.run_options`: the options of a turn are the visited ones whose guards hold.
-/

namespace Parley

namespace Statement

mutual

/-- The statements that a run of a statement can visit: itself, or those of the clauses. The bodies
of options are no part of it. -/
def surface : Statement → List Statement
  | .cond clauses => surfaceClauses clauses
  | s => [s]

/-- The statements that a run of clauses can visit. -/
def surfaceClauses : List Clause → List Statement
  | [] => []
  | .mk _ body :: rest => surfaceBody body ++ surfaceClauses rest

/-- The statements that a run of a body can visit. -/
def surfaceBody : List Statement → List Statement
  | [] => []
  | s :: rest => surface s ++ surfaceBody rest

end

/-- Whether a statement chooses among clauses. -/
def isCond : Statement → Bool
  | .cond _ => true
  | _ => false

/-! ## What lies outside of options -/

mutual

/-- A statement and all statements inside it, each with whether it lies in the body of an option. -/
def placed (inOption : Bool) : Statement → List (Statement × Bool)
  | .cond clauses => (.cond clauses, inOption) :: placedClauses inOption clauses
  | .option label guard body => (.option label guard body, inOption) :: placedBody true body
  | s => [(s, inOption)]

/-- All statements of the bodies of clauses, each with whether it lies in the body of an option. -/
def placedClauses (inOption : Bool) : List Clause → List (Statement × Bool)
  | [] => []
  | .mk _ body :: rest => placedBody inOption body ++ placedClauses inOption rest

/-- All statements of a body, each with whether it lies in the body of an option. -/
def placedBody (inOption : Bool) : List Statement → List (Statement × Bool)
  | [] => []
  | s :: rest => placed inOption s ++ placedBody inOption rest

end

mutual

theorem map_placed (inOption : Bool) : ∀ s : Statement, (placed inOption s).map Prod.fst = s.walk
  | .cond clauses => by
    rw [placed, walk, List.map_cons, map_placedClauses inOption clauses]
  | .option label guard body => by
    rw [placed, walk, List.map_cons, map_placedBody true body]
  | .say _ => rfl
  | .give _ _ => rfl
  | .offer _ => rfl
  | .spend _ => rfl
  | .assign _ _ => rfl
  | .finish _ => rfl

theorem map_placedClauses (inOption : Bool) :
    ∀ clauses : List Clause, (placedClauses inOption clauses).map Prod.fst = walkClauses clauses
  | [] => rfl
  | .mk _ body :: rest => by
    rw [placedClauses, walkClauses, List.map_append, map_placedBody inOption body,
      map_placedClauses inOption rest]

/-- The marked statements are those of the walk. -/
theorem map_placedBody (inOption : Bool) :
    ∀ body : List Statement, (placedBody inOption body).map Prod.fst = walkBody body
  | [] => rfl
  | s :: rest => by
    rw [placedBody, walkBody, List.map_append, map_placed inOption s, map_placedBody inOption rest]

end

/-- The statements that are marked as lying outside the bodies of options. -/
def unmarked (statements : List (Statement × Bool)) : List Statement :=
  (statements.filter fun p => !p.2).map Prod.fst

@[simp]
theorem unmarked_append (a b : List (Statement × Bool)) :
    unmarked (a ++ b) = unmarked a ++ unmarked b := by
  simp [unmarked]

/-- The statements of a body that do not lie in the body of an option. -/
def outside (body : List Statement) : List Statement :=
  unmarked (placedBody false body)

theorem outside_sublist (body : List Statement) : (outside body).Sublist (walkBody body) := by
  rw [← map_placedBody false body]
  exact List.filter_sublist.map Prod.fst

mutual

theorem unmarked_placed_true : ∀ s : Statement, unmarked (placed true s) = []
  | .cond clauses => unmarked_placedClauses_true clauses
  | .option _ _ body => unmarked_placedBody_true body
  | .say _ => rfl
  | .give _ _ => rfl
  | .offer _ => rfl
  | .spend _ => rfl
  | .assign _ _ => rfl
  | .finish _ => rfl

theorem unmarked_placedClauses_true :
    ∀ clauses : List Clause, unmarked (placedClauses true clauses) = []
  | [] => rfl
  | .mk _ body :: rest => by
    rw [placedClauses, unmarked_append, unmarked_placedBody_true body,
      unmarked_placedClauses_true rest, List.append_nil]

/-- Everything in the body of an option is marked. -/
theorem unmarked_placedBody_true : ∀ body : List Statement, unmarked (placedBody true body) = []
  | [] => rfl
  | s :: rest => by
    rw [placedBody, unmarked_append, unmarked_placed_true s, unmarked_placedBody_true rest,
      List.append_nil]

end

mutual

theorem surface_eq : ∀ s : Statement,
    s.surface = (unmarked (placed false s)).filter fun x => !x.isCond
  -- the cond itself is passed over, and an option hides its body
  | .cond clauses => surfaceClauses_eq clauses
  | .option label guard body => by
    have hbody : unmarked (placed false (.option label guard body)) =
        .option label guard body :: unmarked (placedBody true body) := rfl
    rw [hbody, unmarked_placedBody_true]
    rfl
  | .say _ => rfl
  | .give _ _ => rfl
  | .offer _ => rfl
  | .spend _ => rfl
  | .assign _ _ => rfl
  | .finish _ => rfl

theorem surfaceClauses_eq : ∀ clauses : List Clause,
    surfaceClauses clauses = (unmarked (placedClauses false clauses)).filter fun x => !x.isCond
  | [] => rfl
  | .mk _ body :: rest => by
    rw [surfaceClauses, placedClauses, unmarked_append, List.filter_append, surfaceBody_eq body,
      surfaceClauses_eq rest, outside]

/-- What a run of a body can visit is what lies outside the bodies of options, conds aside. -/
theorem surfaceBody_eq : ∀ body : List Statement,
    surfaceBody body = (outside body).filter fun x => !x.isCond
  | [] => rfl
  | s :: rest => by
    rw [surfaceBody, outside, placedBody, unmarked_append, List.filter_append, surface_eq s,
      surfaceBody_eq rest, outside]

end

theorem surfaceBody_sublist (body : List Statement) :
    (surfaceBody body).Sublist (outside body) := by
  rw [surfaceBody_eq]
  exact List.filter_sublist

theorem surfaceBody_sublist_walk (body : List Statement) :
    (surfaceBody body).Sublist (walkBody body) :=
  (surfaceBody_sublist body).trans (outside_sublist body)

end Statement

/-- The statement that offers an option. -/
def Choice.statement (choice : Choice) : Statement :=
  .option choice.label choice.guard choice.body

namespace Walk

/-- A statement that a run came to, with the run as it was then. -/
abbrev Visit := Statement × Walk

mutual

/-- What the run of a statement visits. -/
def visits (env : Environment) : Statement → Walk → List Visit
  | .cond clauses, w => visitsClauses env clauses w
  | s, w => [(s, w)]

/-- What the run of clauses visits: what lies in the first one that is taken. -/
def visitsClauses (env : Environment) : List Clause → Walk → List Visit
  | [], _ => []
  | .mk t body :: rest, w =>
    match w.holds env t with
    | (.error _, _) => []
    | (.ok true, w) => visitsBody env body w
    | (.ok false, w) => visitsClauses env rest w

/-- What the run of a body visits, up to the first statement that does not lead to the next. -/
def visitsBody (env : Environment) : List Statement → Walk → List Visit
  | [], _ => []
  | s :: rest, w =>
    visits env s w ++
      match exec env s w with
      | (.next, w) => visitsBody env rest w
      | _ => []

end

variable {env : Environment}

/-! ## Order -/

mutual

theorem visits_sublist : ∀ (s : Statement) (w : Walk),
    ((visits env s w).map Prod.fst).Sublist s.surface
  | .cond clauses, w => by
    rw [visits, Statement.surface]
    exact visitsClauses_sublist clauses w
  | .say _, _ => .refl _
  | .option _ _ _, _ => .refl _
  | .give _ _, _ => .refl _
  | .offer _, _ => .refl _
  | .spend _, _ => .refl _
  | .assign _ _, _ => .refl _
  | .finish _, _ => .refl _

theorem visitsClauses_sublist : ∀ (clauses : List Clause) (w : Walk),
    ((visitsClauses env clauses w).map Prod.fst).Sublist (Statement.surfaceClauses clauses)
  | [], _ => .refl _
  | .mk t body :: rest, w => by
    rw [visitsClauses, Statement.surfaceClauses]
    split
    · exact List.nil_sublist _
    · exact (visitsBody_sublist body _).trans (List.sublist_append_left _ _)
    · exact (visitsClauses_sublist rest _).trans (List.sublist_append_right _ _)

/-- The visited statements stand in the body in the order in which they are visited. -/
theorem visitsBody_sublist : ∀ (body : List Statement) (w : Walk),
    ((visitsBody env body w).map Prod.fst).Sublist (Statement.surfaceBody body)
  | [], _ => .refl _
  | s :: rest, w => by
    rw [visitsBody, Statement.surfaceBody, List.map_append]
    refine (visits_sublist s w).append ?_
    split
    · exact visitsBody_sublist rest _
    · exact List.nil_sublist _

end

/-- Every visited statement is one of the body. -/
theorem mem_walkBody_of_visit {body : List Statement} {w : Walk} {v : Visit}
    (hv : v ∈ visitsBody env body w) : v.1 ∈ Statement.walkBody body :=
  ((visitsBody_sublist body w).trans (Statement.surfaceBody_sublist_walk body)).subset
    (List.mem_map_of_mem hv)

/-! ## Invariants -/

/-- A relation between what was visited and the run that got there, kept by notes and by each
statement that is visited. -/
structure IsKept (env : Environment) (I : List Visit → Walk → Prop) : Prop where
  note : ∀ visited w notice, I visited w → I visited (w.note notice)
  step : ∀ s visited w, s.isCond = false → I visited w →
    I (visited ++ [(s, w)]) (exec env s w).2

section Invariants

variable {I : List Visit → Walk → Prop}

/-- A test is no visit. -/
theorem IsKept.noted (hI : IsKept env I) {visited : List Visit} {w w' : Walk} (hw : w.Noted w')
    (h : I visited w) : I visited w' := by
  cases hw with
  | nothing => exact h
  | notice notice => exact hI.note visited w notice h

mutual

theorem exec_visited (hI : IsKept env I) : ∀ (s : Statement) {visited : List Visit} {w : Walk},
    I visited w → I (visited ++ visits env s w) (exec env s w).2
  | .cond clauses, visited, w, h => by
    rw [exec, visits]
    exact execClauses_visited hI clauses h
  -- every other statement is visited once, by itself
  | .say text, visited, w, h => hI.step (.say text) visited w rfl h
  | .option label guard body, visited, w, h => hI.step (.option label guard body) visited w rfl h
  | .give item message, visited, w, h => hI.step (.give item message) visited w rfl h
  | .offer item, visited, w, h => hI.step (.offer item) visited w rfl h
  | .spend amount, visited, w, h => hI.step (.spend amount) visited w rfl h
  | .assign name value, visited, w, h => hI.step (.assign name value) visited w rfl h
  | .finish message, visited, w, h => hI.step (.finish message) visited w rfl h

theorem execClauses_visited (hI : IsKept env I) :
    ∀ (clauses : List Clause) {visited : List Visit} {w : Walk}, I visited w →
      I (visited ++ visitsClauses env clauses w) (execClauses env clauses w).2
  | [], visited, w, h => by simpa [execClauses, visitsClauses] using h
  | .mk t body :: rest, visited, w, h => by
    have htest : I visited (w.holds env t).2 := hI.noted (holds_noted t w) h
    rw [execClauses, visitsClauses]
    rcases hholds : w.holds env t with ⟨_ | taken, w'⟩
    · rw [hholds] at htest
      simpa using htest
    · rw [hholds] at htest
      cases taken with
      | true => exact execBody_visited hI body htest
      | false => exact execClauses_visited hI rest htest

/-- A relation that each visited statement keeps is kept by the whole run. -/
theorem execBody_visited (hI : IsKept env I) :
    ∀ (body : List Statement) {visited : List Visit} {w : Walk}, I visited w →
      I (visited ++ visitsBody env body w) (execBody env body w).2
  | [], visited, w, h => by simpa [execBody, visitsBody] using h
  | s :: rest, visited, w, h => by
    have hfirst : I (visited ++ visits env s w) (exec env s w).2 := exec_visited hI s h
    rw [execBody, visitsBody, ← List.append_assoc]
    rcases hexec : exec env s w with ⟨flow, w'⟩
    rw [hexec] at hfirst
    -- what follows is visited only if the first statement leads on
    cases flow with
    | next => exact execBody_visited hI rest hfirst
    | ended => simpa using hfirst
    | failed fault => simpa using hfirst

end

/-- What holds at the start, and is kept, holds of a whole run and all that it has visited. -/
theorem run_visited (hI : IsKept env I) {viewer : Option String} {dice : Dice}
    {body : List Statement} {turn : Turn} {w : Walk} (hstart : I [] (start viewer dice))
    (h : run env viewer dice body = (.ok turn, w)) :
    I (visitsBody env body (start viewer dice)) w := by
  obtain ⟨rfl, -⟩ := run_ok h
  exact execBody_visited hI body hstart

/-- A property that every step keeps holds wherever a run comes to. -/
theorem visit_induction {P : Walk → Prop} (hstep : ∀ w w', Step env w w' → P w → P w')
    (body : List Statement) {w : Walk} (hw : P w) : ∀ v ∈ visitsBody env body w, P v.2 := by
  have hkept : IsKept env fun visited u => P u ∧ ∀ v ∈ visited, P v.2 := by
    refine ⟨fun visited u notice hu => ⟨hstep _ _ (.note u notice) hu.1, hu.2⟩, ?_⟩
    intro s visited u _ hu
    refine ⟨?_, List.forall_mem_append.2 ⟨hu.2, List.forall_mem_singleton.2 hu.1⟩⟩
    have hbody : P (execBody env [s] u).2 := execBody_induction hstep [s] hu.1
    rw [execBody] at hbody
    rcases hexec : exec env s u with ⟨flow, u'⟩
    rw [hexec] at hbody
    cases flow <;> exact hbody
  exact (execBody_visited hkept body ⟨hw, List.forall_mem_nil _⟩).2

end Invariants

/-! ## Options -/

/-- The option that a visited statement offers, if its guard holds. -/
def offered? (env : Environment) : Visit → Option Choice
  | (.option label guard body, w) =>
    match w.allows env guard with
    | (.ok true, _) => some ⟨label, guard, body⟩
    | _ => none
  | _ => none

/-- A statement gathers the option that it offers, and nothing else. -/
theorem exec_options (s : Statement) (w : Walk) (h : s.isCond = false) :
    (exec env s w).2.turn.options = w.turn.options ++ (offered? env (s, w)).toList := by
  have hnothing : w.turn.options = w.turn.options ++ [] := (List.append_nil _).symm
  cases s with
  | cond clauses => cases h
  | say text => exact hnothing
  | give item message => exact hnothing
  | offer item => exact hnothing
  | spend amount => exact hnothing
  | finish message => cases message <;> exact hnothing
  | assign name value =>
    rw [exec]
    split <;> exact hnothing
  | option label guard body =>
    have hguard : (w.allows env guard).2.turn = w.turn := (allows_noted guard w).turn
    rw [exec, offered?]
    rcases hallows : w.allows env guard with ⟨_ | allowed, w'⟩
    · rw [hallows] at hguard
      exact (congrArg Turn.options hguard).trans hnothing
    · rw [hallows] at hguard
      cases allowed with
      | true => exact congrArg (·.options ++ [_]) hguard
      | false => exact (congrArg Turn.options hguard).trans hnothing

/-- The options of a turn are those that were visited and whose guards held then, in the order of
the visits. -/
theorem run_options {viewer : Option String} {dice : Dice} {body : List Statement} {turn : Turn}
    {w : Walk} (h : run env viewer dice body = (.ok turn, w)) :
    turn.options = (visitsBody env body (start viewer dice)).filterMap (offered? env) := by
  have hkept : IsKept env fun visited u => u.turn.options = visited.filterMap (offered? env) := by
    refine ⟨fun _ _ _ hu => hu, fun s visited u hs hu => ?_⟩
    rw [exec_options s u hs, hu, List.filterMap_append, List.filterMap_eq_flatMap_toList _ [_],
      List.flatMap_singleton]
  obtain ⟨-, hturn⟩ := run_ok h
  rw [hturn]
  exact run_visited hkept rfl h

/-- A visit that offers an option is one of the statement that offers it. -/
theorem statement_of_offered? {v : Visit} {choice : Choice} (h : offered? env v = some choice) :
    choice.statement = v.1 := by
  rw [offered?.eq_def] at h
  split at h
  · split at h
    · cases h
      rfl
    · cases h
  · cases h

theorem offered_sublist (visited : List Visit) :
    ((visited.filterMap (offered? env)).map Choice.statement).Sublist (visited.map Prod.fst) := by
  induction visited with
  | nil => exact .refl _
  | cons v rest ih =>
    cases hoffered : offered? env v with
    | none =>
      rw [List.filterMap_cons_none hoffered]
      exact ih.cons _
    | some choice =>
      rw [List.filterMap_cons_some hoffered, List.map_cons, statement_of_offered? hoffered]
      exact ih.cons_cons _

/-- The options of a turn stand in the body in the order in which they are gathered. -/
theorem run_options_sublist {viewer : Option String} {dice : Dice} {body : List Statement}
    {turn : Turn} {w : Walk} (h : run env viewer dice body = (.ok turn, w)) :
    (turn.options.map Choice.statement).Sublist (Statement.surfaceBody body) := by
  rw [run_options h]
  exact (offered_sublist _).trans (visitsBody_sublist body _)

end Walk

end Parley
