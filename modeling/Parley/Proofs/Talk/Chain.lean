import Parley.Proofs.Talk.Place

/-!
# Conds Are Chains of Ifs

The tests of a cond are evaluated one after the other. A test that is not true is passed, with a
note if it could not be evaluated, and the first one that is true decides which body is run. We
prove:

* `Walk.holds_of_isTrue`, `Walk.holds_of_isFalse`, `Walk.holds_of_breaks`: a test is true, false or
  breaks the run, and what follows from each;
* `Walk.selects`: a cond runs the body of its first clause whose test is true, and looks no further;
* `Walk.cond_chain`: a cond can be written as a chain of conds of two clauses, at every place of a
  body.
-/

namespace Parley

/-! ## What a test can come to -/

namespace Test

/-- The test is true: its expression counts as true, or it is the catch-all. -/
def IsTrue (look : Lookup) : Test → Prop
  | .otherwise => True
  | .expr e => ∃ x, e.eval look = .ok x ∧ x.isTruthy = true

/-- The test is false: its expression does not count as true, or compares what has no order. -/
def IsFalse (look : Lookup) : Test → Prop
  | .otherwise => False
  | .expr e => (∃ x, e.eval look = .ok x ∧ x.isTruthy = false) ∨
    ∃ cause, e.eval look = .error (.eval cause)

/-- The test cannot be evaluated for a reason that a run does not recover from. -/
def Breaks (look : Lookup) (fault : Fault) : Test → Prop
  | .otherwise => False
  | .expr e => e.eval look = .error fault ∧ ∀ cause, fault ≠ .eval cause

/-- What is noted of a test that is passed: why it has no value, if it has none. -/
def notices (look : Lookup) : Test → List Notice
  | .otherwise => []
  | .expr e =>
    match e.eval look with
    | .error (.eval cause) => [.failedTest (.eval cause)]
    | _ => []

/-- There is nothing else that a test can come to. -/
theorem isTrue_or_isFalse_or_breaks (look : Lookup) (t : Test) :
    t.IsTrue look ∨ t.IsFalse look ∨ ∃ fault, t.Breaks look fault := by
  cases t with
  | otherwise => exact .inl trivial
  | expr e =>
    rcases heval : e.eval look with fault | x
    · by_cases hcause : ∃ cause, fault = .eval cause
      · obtain ⟨cause, rfl⟩ := hcause
        exact .inr (.inl (.inr ⟨cause, heval⟩))
      · exact .inr (.inr ⟨fault, heval, not_exists.1 hcause⟩)
    · rcases htruth : x.isTruthy with _ | _
      · exact .inr (.inl (.inl ⟨x, heval, htruth⟩))
      · exact .inl ⟨x, heval, htruth⟩

end Test

namespace Walk

variable {env : Environment} {w : Walk} {t : Test}

/-- The run with several things noted. -/
def noteAll (w : Walk) (notices : List Notice) : Walk :=
  { w with notices := w.notices ++ notices }

@[simp]
theorem noteAll_nil (w : Walk) : w.noteAll [] = w := by
  simp [noteAll]

@[simp]
theorem noteAll_noteAll (w : Walk) (a b : List Notice) :
    (w.noteAll a).noteAll b = w.noteAll (a ++ b) := by
  simp [noteAll]

/-- Notes are not seen by the script. -/
@[simp]
theorem lookup_noteAll (w : Walk) (notices : List Notice) :
    (w.noteAll notices).lookup env = w.lookup env := rfl

theorem holds_of_isTrue (h : t.IsTrue (w.lookup env)) : w.holds env t = (.ok true, w) := by
  cases t with
  | otherwise => rfl
  | expr e =>
    obtain ⟨x, heval, htruth⟩ := h
    simp only [holds, test, Expr.test, heval, Except.map, htruth]

/-- A test that is false is passed with its notices. -/
theorem holds_of_isFalse (h : t.IsFalse (w.lookup env)) :
    w.holds env t = (.ok false, w.noteAll (t.notices (w.lookup env))) := by
  cases t with
  | otherwise => exact h.elim
  | expr e =>
    rcases h with ⟨x, heval, htruth⟩ | ⟨cause, heval⟩
    · simp only [holds, test, Expr.test, Test.notices, heval, Except.map, htruth, noteAll_nil]
    · simp only [holds, test, Expr.test, Test.notices, heval, Except.map]
      rfl

theorem holds_of_breaks {fault : Fault} (h : t.Breaks (w.lookup env) fault) :
    w.holds env t = (.error fault, w) := by
  cases t with
  | otherwise => exact h.elim
  | expr e =>
    obtain ⟨heval, hcause⟩ := h
    simp only [holds, test, Expr.test, heval, Except.map]

/-! ## Which clause is taken -/

/-- A clause whose test is true is taken, whatever the clauses behind it are. -/
theorem execClauses_of_isTrue (h : t.IsTrue (w.lookup env)) (body : List Statement)
    (later : List Clause) : execClauses env (.mk t body :: later) w = execBody env body w := by
  rw [execClauses, holds_of_isTrue h]

theorem execClauses_of_isFalse (h : t.IsFalse (w.lookup env)) (body : List Statement)
    (later : List Clause) :
    execClauses env (.mk t body :: later) w =
      execClauses env later (w.noteAll (t.notices (w.lookup env))) := by
  rw [execClauses, holds_of_isFalse h]

theorem execClauses_of_breaks {fault : Fault} (h : t.Breaks (w.lookup env) fault)
    (body : List Statement) (later : List Clause) :
    execClauses env (.mk t body :: later) w = (.failed fault, w) := by
  rw [execClauses, holds_of_breaks h]

/-- The run after the tests of some clauses, none of which was true. -/
def past (env : Environment) (passed : List Clause) (w : Walk) : Walk :=
  w.noteAll (passed.flatMap fun c => c.test.notices (w.lookup env))

theorem past_cons (c : Clause) (passed : List Clause) (w : Walk) :
    past env (c :: passed) w = past env passed (w.noteAll (c.test.notices (w.lookup env))) := by
  simp [past]

/-- Clauses whose tests are false are passed. -/
theorem execClauses_past {passed : List Clause} (h : ∀ c ∈ passed, c.test.IsFalse (w.lookup env))
    (left : List Clause) :
    execClauses env (passed ++ left) w = execClauses env left (past env passed w) := by
  induction passed generalizing w with
  | nil => simp [past]
  | cons c rest ih =>
    obtain ⟨test, body⟩ := c
    rw [List.forall_mem_cons] at h
    have hfirst : test.IsFalse (w.lookup env) := h.1
    rw [List.cons_append, execClauses_of_isFalse hfirst, past_cons]
    -- what was noted of the first test changes none of the others
    exact ih h.2

/-- How a cond is run. The tests of the clauses up to some place are false. Then there is no clause
left and nothing is run, or the test of the next one is true and its body is run, or that test
breaks the run; what the clauses behind it are makes no difference. -/
inductive Selects (env : Environment) (w : Walk) : List Clause → Prop
  | nothing {passed : List Clause} (hpassed : ∀ c ∈ passed, c.test.IsFalse (w.lookup env))
      (h : exec env (.cond passed) w = (.next, past env passed w)) : Selects env w passed
  | body {passed : List Clause} {t : Test} {body : List Statement} {later : List Clause}
      (hpassed : ∀ c ∈ passed, c.test.IsFalse (w.lookup env)) (ht : t.IsTrue (w.lookup env))
      (h : ∀ later, exec env (.cond (passed ++ .mk t body :: later)) w =
        execBody env body (past env passed w)) : Selects env w (passed ++ .mk t body :: later)
  | fault {passed : List Clause} {t : Test} {body : List Statement} {later : List Clause}
      {fault : Fault} (hpassed : ∀ c ∈ passed, c.test.IsFalse (w.lookup env))
      (ht : t.Breaks (w.lookup env) fault)
      (h : ∀ later, exec env (.cond (passed ++ .mk t body :: later)) w =
        (.failed fault, past env passed w)) : Selects env w (passed ++ .mk t body :: later)

/-- Some of the first clauses are passed, and the next one is not. -/
theorem exists_passed (look : Lookup) (clauses : List Clause) :
    ∃ passed left, clauses = passed ++ left ∧ (∀ c ∈ passed, c.test.IsFalse look) ∧
      ∀ c ∈ left.head?, c.test.IsTrue look ∨ ∃ fault, c.test.Breaks look fault := by
  induction clauses with
  | nil => exact ⟨[], [], rfl, List.forall_mem_nil _, nofun⟩
  | cons c rest ih =>
    rcases c.test.isTrue_or_isFalse_or_breaks look with htrue | hfalse | hbreaks
    · exact ⟨[], c :: rest, rfl, List.forall_mem_nil _, by simp [htrue]⟩
    · obtain ⟨passed, left, rfl, hpassed, hleft⟩ := ih
      exact ⟨c :: passed, left, rfl, List.forall_mem_cons.2 ⟨hfalse, hpassed⟩, hleft⟩
    · exact ⟨[], c :: rest, rfl, List.forall_mem_nil _, by simp [hbreaks]⟩

/-- A cond runs the body of its first clause whose test is true, and looks no further. -/
theorem selects (env : Environment) (w : Walk) (clauses : List Clause) : Selects env w clauses := by
  obtain ⟨passed, left, rfl, hpassed, hleft⟩ := exists_passed (w.lookup env) clauses
  cases left with
  | nil =>
    rw [List.append_nil]
    refine .nothing hpassed ?_
    rw [exec, ← List.append_nil passed, execClauses_past hpassed, execClauses, List.append_nil]
  | cons c later =>
    obtain ⟨t, body⟩ := c
    -- the notes on the passed tests do not change what the next test comes to
    have hnext : t.IsTrue ((past env passed w).lookup env) ∨
        ∃ fault, t.Breaks ((past env passed w).lookup env) fault := hleft _ rfl
    rcases hnext with htrue | ⟨fault, hbreaks⟩
    · refine .body hpassed htrue fun others => ?_
      rw [exec, execClauses_past hpassed, execClauses_of_isTrue htrue]
    · refine .fault hpassed hbreaks fun others => ?_
      rw [exec, execClauses_past hpassed, execClauses_of_breaks hbreaks]

/-! ## Chains -/

/-- A catch-all that stands alone is run like its body. -/
theorem execBody_otherwise (body : List Statement) (w : Walk) :
    execBody env [.cond [.mk .otherwise body]] w = execBody env body w := by
  have htrue : Test.otherwise.IsTrue (w.lookup env) := trivial
  rw [execBody_singleton, exec, execClauses_of_isTrue htrue]

/-- The clauses behind the first one can be put into a cond of their own. -/
theorem execBody_cond_cons (c : Clause) (rest : List Clause) (w : Walk) :
    execBody env [.cond (c :: rest)] w =
      execBody env [.cond [c, .mk .otherwise [.cond rest]]] w := by
  obtain ⟨t, body⟩ := c
  -- behind the first clause there is only the catch-all, and it is run like the cond in it
  have hrest : ∀ u, execClauses env [.mk .otherwise [.cond rest]] u = execClauses env rest u := by
    intro u
    have htrue : Test.otherwise.IsTrue (u.lookup env) := trivial
    rw [execClauses_of_isTrue htrue, execBody_singleton, exec]
  rw [execBody_singleton, execBody_singleton, exec, exec, execClauses, execClauses]
  simp only [hrest]

/-- A cond is a chain of ifs. At every place of a body, and wherever the run has got to, its clauses
behind the first one can be put into a cond of their own, which stands behind a catch-all, and a
catch-all that stands alone can be replaced by its body. Hence a cond runs the body of its first
clause whose test is true, or nothing if there is none, and evaluates no later test. -/
theorem cond_chain (env : Environment) :
    (∀ (place : Place) (c : Clause) (rest : List Clause) (w : Walk),
      execBody env (place.fill [.cond (c :: rest)]) w =
        execBody env (place.fill [.cond [c, .mk .otherwise [.cond rest]]]) w) ∧
    (∀ (place : Place) (body : List Statement) (w : Walk),
      execBody env (place.fill [.cond [.mk .otherwise body]]) w =
        execBody env (place.fill body) w) ∧
    ∀ (clauses : List Clause) (w : Walk), Selects env w clauses := by
  refine ⟨fun place c rest w => ?_, fun place body w => ?_, fun clauses w => selects env w clauses⟩
  · exact execBody_fill_congr (execBody_cond_cons c rest) place w
  · exact execBody_fill_congr (execBody_otherwise body) place w

end Walk

end Parley
