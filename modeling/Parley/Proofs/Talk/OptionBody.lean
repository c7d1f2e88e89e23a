import Parley.Talk.Turn

/-!
# Option Bodies Lie Still

A run gathers the options that it reaches and leaves their bodies alone. To say so, the bodies of all
options are emptied (`Statement.bare`): the run of an emptied body goes as the run of the body
itself, up to the bodies of the options that it gathers.

* `Walk.execBody_bare`: the statement for a run under way;
* `Walk.run_bare`: the emptied body yields the same turn, with emptied options.
-/

namespace Parley

namespace Statement

mutual

/-- A statement with the bodies of all options emptied. -/
def bare : Statement → Statement
  | .cond clauses => .cond (bareClauses clauses)
  | .option label guard _ => .option label guard []
  | s => s

/-- Clauses with the bodies of all options emptied. -/
def bareClauses : List Clause → List Clause
  | [] => []
  | .mk t body :: rest => .mk t (bareBody body) :: bareClauses rest

/-- A body with the bodies of all options emptied. -/
def bareBody : List Statement → List Statement
  | [] => []
  | s :: rest => bare s :: bareBody rest

end

end Statement

/-- A choice with its body emptied. -/
def Choice.bare (choice : Choice) : Choice :=
  { choice with body := [] }

/-- A turn with the bodies of its options emptied. -/
def Turn.bare (turn : Turn) : Turn :=
  { turn with options := turn.options.map Choice.bare }

namespace Walk

/-- A walk with the bodies of the gathered options emptied. -/
def bare (w : Walk) : Walk :=
  { w with turn := w.turn.bare }

variable {env : Environment}

theorem offerChoice_bare (w : Walk) (choice : Choice) :
    w.bare.offerChoice choice.bare = (w.offerChoice choice).bare := by
  simp [offerChoice, bare, Turn.bare]

/-- A test does not look at options. -/
theorem test_bare (e : Expr) (w : Walk) :
    w.bare.test env e = ((w.test env e).1, (w.test env e).2.bare) := by
  have hlookup : w.bare.lookup env = w.lookup env := rfl
  rw [test, test, hlookup]
  split <;> rfl

/-- The test of a clause does not look at options. -/
theorem holds_bare (t : Test) (w : Walk) :
    w.bare.holds env t = ((w.holds env t).1, (w.holds env t).2.bare) := by
  cases t with
  | otherwise => rfl
  | expr e => exact test_bare e w

/-- The guard of an option does not look at options. -/
theorem allows_bare (guard : Option Expr) (w : Walk) :
    w.bare.allows env guard = ((w.allows env guard).1, (w.allows env guard).2.bare) := by
  cases guard with
  | none => rfl
  | some e => exact test_bare e w

mutual

/-- The run of a statement does not look at the bodies of options. -/
theorem exec_bare : ∀ (s : Statement) (w : Walk),
    exec env s.bare w.bare = ((exec env s w).1, (exec env s w).2.bare)
  | .cond clauses, w => by
    rw [Statement.bare, exec, exec]
    exact execClauses_bare clauses w
  | .say text, w => rfl
  | .option label guard body, w => by
    -- An option is gathered with the body as it is written, on both sides or on neither.
    rw [Statement.bare, exec, exec, allows_bare]
    generalize w.allows env guard = answer
    obtain ⟨answer, w'⟩ := answer
    match answer with
    | .error fault => rfl
    | .ok true => exact Prod.ext rfl (offerChoice_bare w' ⟨label, guard, body⟩)
    | .ok false => rfl
  | .assign name value, w => by
    -- An assignment reads the stage and the environment, which are the same on both sides.
    have hassign : w.bare.assign env name value = w.assign env name value := rfl
    show exec env (.assign name value) w.bare = _
    rw [exec, exec, hassign]
    split <;> rfl
  | .give item message, w => rfl
  | .spend amount, w => rfl
  | .offer item, w => rfl
  | .finish none, w => rfl
  | .finish (some message), w => rfl

/-- The run of a chain of clauses does not look at the bodies of options. -/
theorem execClauses_bare : ∀ (clauses : List Clause) (w : Walk),
    execClauses env (Statement.bareClauses clauses) w.bare =
      ((execClauses env clauses w).1, (execClauses env clauses w).2.bare)
  | [], w => rfl
  | .mk t body :: rest, w => by
    -- The test gives the same answer on both sides, so both enter the body or both go on.
    rw [Statement.bareClauses, execClauses, execClauses, holds_bare]
    generalize w.holds env t = answer
    obtain ⟨answer, w'⟩ := answer
    match answer with
    | .error fault => rfl
    | .ok true => exact execBody_bare body w'
    | .ok false => exact execClauses_bare rest w'

/-- The run of a body does not look at the bodies of options. -/
theorem execBody_bare : ∀ (body : List Statement) (w : Walk),
    execBody env (Statement.bareBody body) w.bare =
      ((execBody env body w).1, (execBody env body w).2.bare)
  | [], w => rfl
  | s :: rest, w => by
    rw [Statement.bareBody, execBody, execBody, exec_bare s w]
    -- How the first statement ended decides whether the rest is run, on both sides alike.
    generalize exec env s w = answer
    obtain ⟨flow, w'⟩ := answer
    match flow with
    | .next => exact execBody_bare rest w'
    | .ended => rfl
    | .failed fault => rfl

end

/-- A body yields the same turn whatever the bodies of its options are, up to these bodies. -/
theorem run_bare {viewer : Option String} {dice : Dice} {body : List Statement} {turn : Turn}
    {w : Walk} (h : run env viewer dice body = (.ok turn, w)) :
    run env viewer dice (Statement.bareBody body) = (.ok turn.bare, w.bare) := by
  have hexec : execBody env (Statement.bareBody body) (start viewer dice).bare =
      ((execBody env body (start viewer dice)).1, (execBody env body (start viewer dice)).2.bare) :=
    execBody_bare body (start viewer dice)
  rw [run] at h ⊢
  -- At the start no option has been gathered, so that there is nothing to empty.
  rw [show start viewer dice = (start viewer dice).bare from rfl, hexec]
  split at h
  · next hbody =>
    cases h
    rw [hbody]
    rfl
  · next hbody =>
    cases h
    rw [hbody]
    rfl
  · cases h

end Walk

end Parley
