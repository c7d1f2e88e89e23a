import Parley.Proofs.Script.Shape
import Parley.Proofs.State.Refinement
import Parley.Proofs.State.Trace
import Parley.Proofs.Talk.Run

/-!
# What a Run Reads

A run sees quest state through the variables that its tests, guards and assigned values read, and
through the declarations that its assignments are checked by. Nothing else about the state makes a
difference to it. We prove:

* `Expr.eval_congr`: an expression is evaluated alike where the variables that it reads hold the
  same;
* `Walk.assign_congr`: so is an assignment, which looks its value up once more if this is a
  variable;
* `Walk.run_congr_of_reads`: a body is run alike in states that have the same declarations and hold
  the same in all variables that it reads.
-/

namespace Parley

/-! ## Expressions -/

namespace Expr

/-- The variables read are those that stand anywhere in the expression. -/
theorem mem_reads_iff {e : Expr} {name : String} : name ∈ e.reads ↔ var name ∈ e.walk := by
  constructor
  · intro h
    obtain ⟨inner, hinner, hread⟩ := List.mem_filterMap.1 h
    cases inner with
    | var other => exact Option.some.inj hread ▸ hinner
    | literal v => cases hread
    | compare op left right => cases hread
    | connect op operands => cases hread
  · intro h
    exact List.mem_filterMap.2 ⟨var name, h, rfl⟩

/-- An expression is evaluated alike where the variables that it reads hold the same. -/
theorem eval_congr {look look' : Lookup} (e : Expr) (h : ∀ name ∈ e.reads, look' name = look name) :
    eval look' e = eval look e :=
  eval_eq_of_trace (trace_congr_of_walk fun name hname => h name (mem_reads_iff.2 hname))

end Expr

/-- The variables that a test reads. -/
def Test.reads : Test → List String
  | .expr e => e.reads
  | .otherwise => []

namespace Statement

/-- The variables that a statement itself reads, statements inside it aside. -/
def reads (s : Statement) : List String :=
  s.exprs.flatMap Expr.reads

/-- A conditional reads the tests of all its clauses. -/
theorem reads_cond_cons (t : Test) (body : List Statement) (rest : List Clause) :
    (cond (.mk t body :: rest)).reads = t.reads ++ (cond rest).reads := by
  cases t with
  | expr e => rfl
  | otherwise => rfl

end Statement

/-! ## Runs -/

namespace Walk

variable {a b : Environment} {viewer : Option String} {w : Walk}

/-- Two states hold the same in all variables that the viewer reads by these names. -/
def Agree (viewer : Option String) (a b : Environment) (names : List String) : Prop :=
  ∀ name ∈ names, b.lookup viewer name = a.lookup viewer name

/-- A run of the viewer sees the same through its stage. -/
theorem Agree.lookup {names : List String} (h : Agree viewer a b names)
    (hw : w.turn.stage.viewer = viewer) : ∀ name ∈ names, w.lookup b name = w.lookup a name := by
  intro name hname
  rw [Walk.lookup, Walk.lookup, Stage.lookup, Stage.lookup, hw, h name hname]

/-- A test comes out the same in two environments that agree on what it reads. -/
theorem test_congr {e : Expr} (h : Agree viewer a b e.reads) (hw : w.turn.stage.viewer = viewer) :
    w.test b e = w.test a e := by
  rw [test, test, Expr.test, Expr.test, Expr.eval_congr e (h.lookup hw)]

/-- So does the test of a clause. -/
theorem holds_congr {t : Test} (h : Agree viewer a b t.reads) (hw : w.turn.stage.viewer = viewer) :
    w.holds b t = w.holds a t := by
  cases t with
  | otherwise => rfl
  | expr e => exact test_congr h hw

/-- So does the guard of an option. -/
theorem allows_congr {guard : Option Expr} (h : ∀ e ∈ guard, Agree viewer a b e.reads)
    (hw : w.turn.stage.viewer = viewer) : w.allows b guard = w.allows a guard := by
  cases guard with
  | none => rfl
  | some e => exact test_congr (h e rfl) hw

/-- The value of an assignment is looked up once more if it is a variable, which may be unset. -/
theorem assigned_congr (hmanifest : b.manifest = a.manifest) (name : String) {value : Expr}
    (h : Agree viewer a b value.reads) (hw : w.turn.stage.viewer = viewer) :
    w.assigned b name value = w.assigned a name value := by
  rw [assigned.eq_def, assigned.eq_def, Expr.eval_congr value (h.lookup hw), hmanifest]
  cases value with
  | var source =>
    have hsource : w.lookup b source = w.lookup a source :=
      h.lookup hw source (List.mem_singleton_self source)
    cases a.manifest.get? name with
    | none => rfl
    | some d =>
      dsimp only
      rw [hsource]
  | literal v => rfl
  | compare op left right => rfl
  | connect op operands => rfl

/-- An assignment has the same effect in two environments with one manifest that agree on what it
reads. -/
theorem assign_congr (hmanifest : b.manifest = a.manifest) (name : String) {value : Expr}
    (h : Agree viewer a b value.reads) (hw : w.turn.stage.viewer = viewer) :
    w.assign b name value = w.assign a name value := by
  rw [assign, assign, assigned_congr hmanifest name h hw]
  cases w.assigned a name value with
  | error fault => rfl
  | ok x =>
    dsimp only
    rw [Stage.write, Stage.write, Environment.checkWrite_congr hmanifest]

mutual

/-- A statement runs the same in two environments that agree on what it and its parts read. The
induction is over the statement, its clauses and its bodies at once. -/
theorem exec_congr (hmanifest : b.manifest = a.manifest) :
    ∀ (s : Statement) {w : Walk}, (∀ x ∈ s.walk, Agree viewer a b x.reads) →
      w.turn.stage.viewer = viewer → exec b s w = exec a s w
  | .cond clauses, w, h, hw => by
    rw [Statement.walk, List.forall_mem_cons] at h
    rw [exec, exec]
    exact execClauses_congr hmanifest clauses h.1 h.2 hw
  | .option label guard body, w, h, hw => by
    -- the body of the option is not run, so that nothing is asked of it
    have hguard : w.allows b guard = w.allows a guard := by
      refine allows_congr (fun e he name hname => ?_) hw
      have hreads : name ∈ (Statement.option label guard body).reads :=
        List.mem_flatMap.2 ⟨e, Option.mem_toList.2 he, hname⟩
      exact h _ List.mem_cons_self name hreads
    rw [exec, exec, hguard]
  | .assign name value, w, h, hw => by
    have hvalue : Agree viewer a b value.reads := by
      intro read hread
      have hreads : read ∈ (Statement.assign name value).reads :=
        List.mem_flatMap.2 ⟨value, List.mem_singleton_self value, hread⟩
      exact h _ List.mem_cons_self read hreads
    rw [exec, exec, assign_congr hmanifest name hvalue hw]
  -- no other statement reads anything
  | .say _, _, _, _ => rfl
  | .give _ _, _, _, _ => rfl
  | .spend _, _, _, _ => rfl
  | .offer _, _, _, _ => rfl
  | .finish none, _, _, _ => rfl
  | .finish (some _), _, _, _ => rfl

theorem execClauses_congr (hmanifest : b.manifest = a.manifest) :
    ∀ (clauses : List Clause) {w : Walk}, Agree viewer a b (Statement.cond clauses).reads →
      (∀ x ∈ Statement.walkClauses clauses, Agree viewer a b x.reads) →
      w.turn.stage.viewer = viewer → execClauses b clauses w = execClauses a clauses w
  | [], _, _, _, _ => rfl
  | .mk t body :: rest, w, htests, h, hw => by
    rw [Agree, Statement.reads_cond_cons, List.forall_mem_append] at htests
    rw [Statement.walkClauses, List.forall_mem_append] at h
    have htested : (w.holds a t).2.turn.stage.viewer = viewer := by
      rw [(holds_noted t w).turn]
      exact hw
    rw [execClauses, execClauses, holds_congr htests.1 hw]
    split
    · rfl
    · next hholds =>
      rw [hholds] at htested
      exact execBody_congr hmanifest body h.1 htested
    · next hholds =>
      rw [hholds] at htested
      exact execClauses_congr hmanifest rest htests.2 h.2 htested

theorem execBody_congr (hmanifest : b.manifest = a.manifest) :
    ∀ (body : List Statement) {w : Walk},
      (∀ x ∈ Statement.walkBody body, Agree viewer a b x.reads) →
      w.turn.stage.viewer = viewer → execBody b body w = execBody a body w
  | [], _, _, _ => rfl
  | s :: rest, w, h, hw => by
    rw [Statement.walkBody, List.forall_mem_append] at h
    have hran : (exec a s w).2.turn.stage.viewer = viewer :=
      (steps_viewer (exec_steps s w)).trans hw
    rw [execBody, execBody, exec_congr hmanifest s h.1 hw]
    split
    · next hexec =>
      rw [hexec] at hran
      exact execBody_congr hmanifest rest h.2 hran
    · rfl

end

/-- A body is run alike in states that have the same declarations and hold the same in all variables
that it reads. -/
theorem run_congr_of_reads (hmanifest : b.manifest = a.manifest) {body : List Statement}
    (h : ∀ x ∈ Statement.walkBody body, Agree viewer a b x.reads) (dice : Dice) :
    run b viewer dice body = run a viewer dice body := by
  rw [run, run, execBody_congr hmanifest body h rfl]

end Walk

end Parley
