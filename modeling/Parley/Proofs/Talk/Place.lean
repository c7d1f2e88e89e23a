import Parley.Talk.Turn

/-!
# Places in Bodies

On its way through a body a run goes into the clauses of conds, and through their bodies in turn. A
place is what stands around a part of a body, in front of it and behind it, at every depth of conds.
The body of an option is not run where the option stands, so no place of a body lies inside of one.

Main definitions: `Place.fill` puts statements into a place, `Place.front` forgets what stands
behind it.

Main results:

* `Walk.execBody_append`: of two bodies put together the second is run where the first has led to,
  unless that was the end;
* `Walk.execBody_fill_congr`: bodies that run alike can replace each other at every place.
-/

namespace Parley

/-- A place in a body. -/
inductive Place
  /-- Between statements of the body itself. -/
  | here (before after : List Statement)
  /-- At a place in the body of a clause of a cond. -/
  | inside (before : List Statement) (earlier : List Clause) (test : Test) (inner : Place)
      (later : List Clause) (after : List Statement)

namespace Place

/-- The body with statements at a place. -/
def fill : Place → List Statement → List Statement
  | here before after, filling => before ++ filling ++ after
  | inside before earlier test inner later after, filling =>
    before ++ .cond (earlier ++ .mk test (inner.fill filling) :: later) :: after

/-- The place with nothing behind it, at any depth: neither statements nor clauses. -/
def front : Place → Place
  | here before _ => here before []
  | inside before earlier test inner _ _ => inside before earlier test inner.front [] []

end Place

namespace Walk

variable {env : Environment}

/-- A run that goes on, unless it has come to an end or failed. -/
def andThen (result : Flow × Walk) (next : Walk → Flow × Walk) : Flow × Walk :=
  match result with
  | (.next, w) => next w
  | (flow, w) => (flow, w)

@[simp]
theorem andThen_next (w : Walk) (next : Walk → Flow × Walk) :
    andThen (.next, w) next = next w := rfl

@[simp]
theorem andThen_ended (w : Walk) (next : Walk → Flow × Walk) :
    andThen (.ended, w) next = (.ended, w) := rfl

@[simp]
theorem andThen_failed (fault : Fault) (w : Walk) (next : Walk → Flow × Walk) :
    andThen (.failed fault, w) next = (.failed fault, w) := rfl

theorem andThen_assoc (result : Flow × Walk) (f g : Walk → Flow × Walk) :
    andThen (andThen result f) g = andThen result fun w => andThen (f w) g := by
  obtain ⟨flow, w⟩ := result
  cases flow <;> rfl

/-- Nothing is left to do behind the last statement. -/
@[simp]
theorem andThen_nil (result : Flow × Walk) : andThen result (execBody env []) = result := by
  obtain ⟨flow, w⟩ := result
  cases flow <;> rfl

theorem execBody_cons (s : Statement) (rest : List Statement) (w : Walk) :
    execBody env (s :: rest) w = andThen (exec env s w) (execBody env rest) := by
  rw [execBody]
  rfl

@[simp]
theorem execBody_singleton (s : Statement) (w : Walk) : execBody env [s] w = exec env s w := by
  rw [execBody_cons, andThen_nil]

/-- The second of two bodies is run where the first has led to, unless that was the end. -/
theorem execBody_append (a b : List Statement) (w : Walk) :
    execBody env (a ++ b) w = andThen (execBody env a w) (execBody env b) := by
  induction a generalizing w with
  | nil => rfl
  | cons s rest ih =>
    rw [List.cons_append, execBody_cons, execBody_cons, andThen_assoc]
    congr 1
    ext1 u
    exact ih u

/-- Clauses are run alike if the bodies of one of them are. -/
theorem execClauses_replace {a b : List Statement} (h : ∀ w, execBody env a w = execBody env b w)
    (earlier : List Clause) (t : Test) (later : List Clause) (w : Walk) :
    execClauses env (earlier ++ .mk t a :: later) w =
      execClauses env (earlier ++ .mk t b :: later) w := by
  induction earlier generalizing w with
  | nil =>
    rw [List.nil_append, List.nil_append, execClauses, execClauses]
    split
    · rfl
    · exact h _
    · rfl
  | cons c rest ih =>
    obtain ⟨test, body⟩ := c
    rw [List.cons_append, List.cons_append, execClauses, execClauses]
    split
    · rfl
    · rfl
    · exact ih _

/-- Bodies that are run alike can replace each other at every place. -/
theorem execBody_fill_congr {a b : List Statement} (h : ∀ w, execBody env a w = execBody env b w)
    (place : Place) (w : Walk) :
    execBody env (place.fill a) w = execBody env (place.fill b) w := by
  induction place generalizing w with
  | here before after =>
    rw [Place.fill, Place.fill, List.append_assoc, List.append_assoc, execBody_append,
      execBody_append before]
    congr 1
    ext1 u
    rw [execBody_append, execBody_append b, h u]
  | inside before earlier test inner later after ih =>
    -- the cond that the place lies in is run alike, and so is what stands around it
    rw [Place.fill, Place.fill, execBody_append, execBody_append before]
    congr 1
    ext1 u
    rw [execBody_cons, execBody_cons, exec, exec, execClauses_replace ih]

end Walk

end Parley
