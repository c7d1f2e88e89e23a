import Parley.Proofs.State.Evaluation
import Parley.Proofs.Talk.Visits

/-!
# Assignments of a Run

A run skips an assignment that it cannot make and reports it. We say which assignments these are.

* `Walk.exists_visit_of_skipped`: what a run reports as skipped are assignments that it visits;
* `Walk.assigns_of_declared`: an assignment to a declared variable that has a speaker, if it needs
  one, is skipped exactly if its value cannot be evaluated or is of another type (`Walk.Assigns`);
  a copy of a variable that nothing is known of gives the initial value of the declared type.
-/

namespace Parley

namespace Walk

variable {env : Environment} {visited : List Visit} {name : String} {value : Expr} {w : Walk}

/-! ## Reported skips -/

/-- The skips that a run has reported since some point of it are those of assignments that were
visited since then. -/
def SkipsFrom (env : Environment) (visited : List Visit) (before after : Walk) : Prop :=
  ∀ name cause, .skippedSet name cause ∈ after.notices → .skippedSet name cause ∈ before.notices ∨
    ∃ value w, (.assign name value, w) ∈ visited ∧
      exec env (.assign name value) w = (.next, w.note (.skippedSet name cause))

theorem skipsFrom_of_notices {before after : Walk}
    (h : after.notices = before.notices) : SkipsFrom env visited before after := by
  intro name cause hmem
  exact .inl (h ▸ hmem)

theorem SkipsFrom.trans {u v : List Visit} {a b c : Walk} (hab : SkipsFrom env u a b)
    (hbc : SkipsFrom env v b c) : SkipsFrom env (u ++ v) a c := by
  intro name cause hmem
  rcases hbc name cause hmem with hmem | ⟨value, w, hvisit, hexec⟩
  · refine (hab name cause hmem).imp_right ?_
    rintro ⟨value, w, hvisit, hexec⟩
    exact ⟨value, w, List.mem_append_left _ hvisit, hexec⟩
  · exact .inr ⟨value, w, List.mem_append_right _ hvisit, hexec⟩

/-- A failed test is reported as such and not as a skip. -/
theorem test_skipsFrom (e : Expr) (w : Walk) : SkipsFrom env visited w (w.test env e).2 := by
  rw [test]
  split
  · exact skipsFrom_of_notices rfl
  · intro name cause hmem
    rcases List.mem_append.1 hmem with hmem | hmem
    · exact .inl hmem
    · cases List.mem_singleton.1 hmem
  · exact skipsFrom_of_notices rfl

theorem holds_skipsFrom (t : Test) (w : Walk) : SkipsFrom env visited w (w.holds env t).2 := by
  cases t with
  | otherwise => exact skipsFrom_of_notices rfl
  | expr e => exact test_skipsFrom e w

theorem allows_skipsFrom (guard : Option Expr) (w : Walk) :
    SkipsFrom env visited w (w.allows env guard).2 := by
  cases guard with
  | none => exact skipsFrom_of_notices rfl
  | some e => exact test_skipsFrom e w

mutual

theorem exec_skipsFrom : ∀ (s : Statement) (w : Walk),
    SkipsFrom env (visits env s w) w (exec env s w).2
  | .cond clauses, w => by
    rw [exec, visits]
    exact execClauses_skipsFrom clauses w
  | .option label guard body, w => by
    have hguard : SkipsFrom env (visits env (.option label guard body) w) w (w.allows env guard).2 :=
      allows_skipsFrom guard w
    rw [exec]
    rcases hallows : w.allows env guard with ⟨_ | allowed, w'⟩
    · rw [hallows] at hguard
      exact hguard
    · rw [hallows] at hguard
      -- To be offered is nothing that is reported.
      cases allowed <;> exact hguard
  | .assign name value, w => by
    have hnoted : ∀ fault, exec env (.assign name value) w = (.next, w.note (.skippedSet name fault)) →
        SkipsFrom env [(.assign name value, w)] w (w.note (.skippedSet name fault)) := by
      intro fault hexec n cause hmem
      rcases List.mem_append.1 hmem with hmem | hmem
      · exact .inl hmem
      · cases List.mem_singleton.1 hmem
        exact .inr ⟨value, w, List.mem_singleton_self _, hexec⟩
    rw [exec]
    split
    · exact skipsFrom_of_notices rfl
    · next cause hassign => exact hnoted _ (by rw [exec, hassign])
    · next cause hassign => exact hnoted _ (by rw [exec, hassign])
    · exact skipsFrom_of_notices rfl
  | .say _, _ => skipsFrom_of_notices rfl
  | .give _ _, _ => skipsFrom_of_notices rfl
  | .spend _, _ => skipsFrom_of_notices rfl
  | .offer _, _ => skipsFrom_of_notices rfl
  | .finish none, _ => skipsFrom_of_notices rfl
  | .finish (some _), _ => skipsFrom_of_notices rfl

theorem execClauses_skipsFrom : ∀ (clauses : List Clause) (w : Walk),
    SkipsFrom env (visitsClauses env clauses w) w (execClauses env clauses w).2
  | [], _ => skipsFrom_of_notices rfl
  | .mk t body :: rest, w => by
    have htest : SkipsFrom env [] w (w.holds env t).2 := holds_skipsFrom t w
    rw [execClauses, visitsClauses]
    rcases hholds : w.holds env t with ⟨_ | taken, w'⟩
    · rw [hholds] at htest
      exact htest
    · rw [hholds] at htest
      cases taken with
      | true => exact htest.trans (execBody_skipsFrom body w')
      | false => exact htest.trans (execClauses_skipsFrom rest w')

/-- What a run of a body reports as skipped are assignments that it visits. -/
theorem execBody_skipsFrom : ∀ (body : List Statement) (w : Walk),
    SkipsFrom env (visitsBody env body w) w (execBody env body w).2
  | [], _ => skipsFrom_of_notices rfl
  | s :: rest, w => by
    have hfirst : SkipsFrom env (visits env s w) w (exec env s w).2 := exec_skipsFrom s w
    rw [execBody, visitsBody]
    rcases hexec : exec env s w with ⟨flow, w'⟩
    rw [hexec] at hfirst
    cases flow with
    | next => exact hfirst.trans (execBody_skipsFrom rest w')
    | ended => rwa [List.append_nil]
    | failed fault => rwa [List.append_nil]

end

/-- The walk of a run is the one of its body, however the run ends. -/
theorem run_snd (viewer : Option String) (dice : Dice) (body : List Statement) :
    (run env viewer dice body).2 = (execBody env body (start viewer dice)).2 := by
  rw [run]
  rcases execBody env body (start viewer dice) with ⟨_ | _ | _, _⟩ <;> rfl

/-- What a run reports as skipped are assignments that it visits. -/
theorem exists_visit_of_skipped {viewer : Option String} {dice : Dice} {body : List Statement}
    {cause : Fault} (h : .skippedSet name cause ∈ (run env viewer dice body).2.notices) :
    ∃ value w, (.assign name value, w) ∈ visitsBody env body (start viewer dice) ∧
      exec env (.assign name value) w = (.next, w.note (.skippedSet name cause)) := by
  rw [run_snd] at h
  rcases execBody_skipsFrom body (start viewer dice) name cause h with hstart | hvisit
  · exact absurd hstart List.not_mem_nil
  · exact hvisit

/-! ## Outcomes -/

/-- The run with a value staged for a variable. -/
def put (w : Walk) (name : String) (v : Value) : Walk :=
  { w with turn := { w.turn with
    stage := { w.turn.stage with pending := w.turn.stage.pending.insert name v } } }

/-- To stage a value is not to report a skip. -/
theorem put_ne_note (w : Walk) (name : String) (v : Value) (notice : Notice) :
    w.put name v ≠ w.note notice := by
  intro h
  have hnotices : w.notices = w.notices ++ [notice] := congrArg Walk.notices h
  exact List.cons_ne_nil _ _ (List.append_right_eq_self.1 hnotices.symm)

/-- An assignment that is made is not skipped. -/
theorem not_skipped_of_put {v : Value}
    (h : exec env (.assign name value) w = (.next, w.put name v)) :
    ¬ ∃ cause, exec env (.assign name value) w = (.next, w.note (.skippedSet name cause)) := by
  rintro ⟨cause, hskip⟩
  exact put_ne_note w name v _ (Prod.mk.inj (h.symm.trans hskip)).2

/-- An assignment that ends the run is not skipped. -/
theorem not_skipped_of_failed {fault : Fault}
    (h : exec env (.assign name value) w = (.failed fault, w)) :
    ¬ ∃ cause, exec env (.assign name value) w = (.next, w.note (.skippedSet name cause)) := by
  rintro ⟨cause, hskip⟩
  cases (Prod.mk.inj (h.symm.trans hskip)).1

/-- What becomes of an assignment to a variable with a declaration. -/
structure Assigns (env : Environment) (d : Declaration) (name : String) (value : Expr) (w : Walk) :
    Prop where
  /-- It is skipped if its value, which is no literal and no unset variable, cannot be evaluated or
  is not of the declared type, and for no other reason. -/
  skipped_iff :
    (∃ cause, exec env (.assign name value) w = (.next, w.note (.skippedSet name cause))) ↔
      (∀ v, value ≠ .literal v) ∧ (∀ source, value = .var source → w.lookup env source ≠ none) ∧
        ((∃ cause, value.eval (w.lookup env) = .error (.eval cause)) ∨
          ∃ v, value.eval (w.lookup env) = .ok (.value v) ∧ v.type ≠ d.type)
  /-- A literal is staged. -/
  literal : ∀ v, value = .literal v → exec env (.assign name value) w = (.next, w.put name v)
  /-- For a variable that is neither declared nor held the initial value of the type is staged. -/
  unset : ∀ source, value = .var source → env.manifest.get? source = none →
    env.globals.get? source = none →
      exec env (.assign name value) w = (.next, w.put name d.type.initial)

/-- The source of an assignment that is unset. -/
def IsUnset (env : Environment) (value : Expr) (w : Walk) : Prop :=
  ∃ source, value = .var source ∧ w.lookup env source = none

theorem assigned_of_isUnset {d : Declaration} (hd : env.manifest.get? name = some d)
    (h : IsUnset env value w) : w.assigned env name value = .ok (.value d.type.initial) := by
  obtain ⟨source, rfl, hsource⟩ := h
  simp only [assigned, hd, hsource, Option.isNone_none, if_true]

theorem assigned_of_not_isUnset (h : ¬ IsUnset env value w) :
    w.assigned env name value = value.eval (w.lookup env) := by
  rw [assigned.eq_def]
  split
  · next source d hd =>
    have hsource : (w.lookup env source).isNone = false := by
      cases hlookup : w.lookup env source with
      | none => exact absurd ⟨source, rfl, hlookup⟩ h
      | some x => rfl
    rw [hsource]
    rfl
  · rfl

theorem assigned_literal (env : Environment) (name : String) (v : Value) (w : Walk) :
    w.assigned env name (.literal v) = .ok (.value v) := by
  rw [assigned_of_not_isUnset (by rintro ⟨source, hsource, -⟩; cases hsource), Expr.eval]

/-- A value that cannot be evaluated is skipped. -/
theorem exec_assign_of_evalError {cause : EvalError}
    (h : w.assigned env name value = .error (.eval cause)) :
    exec env (.assign name value) w = (.next, w.note (.skippedSet name (.eval cause))) := by
  rw [exec, Walk.assign, h]

/-- A fault that no script recovers from ends the run. -/
theorem exec_assign_of_not_isRecoverable {fault : Fault}
    (h : w.assigned env name value = .error fault) (hfault : ¬ fault.IsRecoverable) :
    exec env (.assign name value) w = (.failed fault, w) := by
  rw [exec, Walk.assign, h]
  cases fault with
  | eval cause => exact absurd trivial hfault
  | scope cause => exact absurd trivial hfault
  | _ => rfl

section Declared

variable {d : Declaration} (hd : env.manifest.get? name = some d)
  (hspeaker : d.scope = .speaker → w.turn.stage.viewer ≠ none)

include hd hspeaker

/-- A value of the declared type is staged. -/
theorem exec_assign_of_type {v : Value} (h : w.assigned env name value = .ok (.value v))
    (htype : v.type = d.type) : exec env (.assign name value) w = (.next, w.put name v) := by
  have hwrite : w.turn.stage.write env name (.value v) =
      .ok { w.turn.stage with pending := w.turn.stage.pending.insert name v } :=
    Stage.write_eq_ok_iff.2
      ⟨d, v, Environment.checkWrite_eq_ok_iff.2 ⟨hd, rfl, htype, hspeaker⟩, rfl⟩
  rw [exec, Walk.assign, h]
  dsimp only
  rw [hwrite]
  rfl

omit hspeaker in
/-- A value of another type is not. -/
theorem exec_assign_of_wrongType {v : Value} (h : w.assigned env name value = .ok (.value v))
    (htype : v.type ≠ d.type) :
    exec env (.assign name value) w =
      (.next, w.note (.skippedSet name (.scope ⟨name, .wrongType d.type v⟩))) := by
  have hcheck : env.checkWrite w.turn.stage.viewer name (.value v) =
      .error (.scope ⟨name, .wrongType d.type v⟩) := by
    rw [Environment.checkWrite]
    simp [hd, htype]
  rw [exec, Walk.assign, h]
  dsimp only
  rw [Stage.write, hcheck]

omit hspeaker in
/-- A foreign value ends the run. -/
theorem exec_assign_of_foreign {document : Json}
    (h : w.assigned env name value = .ok (.foreign document)) :
    exec env (.assign name value) w = (.failed (.notValue document), w) := by
  have hcheck : env.checkWrite w.turn.stage.viewer name (.foreign document) =
      .error (.notValue document) := by
    rw [Environment.checkWrite]
    simp [hd]
  rw [exec, Walk.assign, h]
  dsimp only
  rw [Stage.write, hcheck]

/-- The source of an assignment being set, its value decides whether it is skipped. -/
theorem skipped_iff_of_not_isUnset (hliteral : ∀ v, value = .literal v → v.type = d.type)
    (hunset : ¬ IsUnset env value w) :
    (∃ cause, exec env (.assign name value) w = (.next, w.note (.skippedSet name cause))) ↔
      (∀ v, value ≠ .literal v) ∧
        ((∃ cause, value.eval (w.lookup env) = .error (.eval cause)) ∨
          ∃ v, value.eval (w.lookup env) = .ok (.value v) ∧ v.type ≠ d.type) := by
  have hassigned : w.assigned env name value = value.eval (w.lookup env) :=
    assigned_of_not_isUnset hunset
  cases heval : value.eval (w.lookup env) with
  | error fault =>
    have hfails : (w.lookup env).Fails fault := (Expr.eval_answers value).of_eq_error heval
    cases hfails with
    | eval cause =>
      refine iff_of_true ⟨_, exec_assign_of_evalError (hassigned.trans heval)⟩ ⟨?_, .inl ⟨cause, rfl⟩⟩
      rintro v rfl
      rw [Expr.eval] at heval
      cases heval
    | foreign htrips =>
      have hexec := exec_assign_of_not_isRecoverable (hassigned.trans heval) htrips.not_isRecoverable
      refine iff_of_false (not_skipped_of_failed hexec) ?_
      rintro ⟨-, ⟨cause, heq⟩ | ⟨v, heq, -⟩⟩
      · cases heq
        cases htrips
      · cases heq
    | tooManyDigits =>
      have hexec := exec_assign_of_not_isRecoverable (hassigned.trans heval) not_false
      refine iff_of_false (not_skipped_of_failed hexec) ?_
      rintro ⟨-, ⟨cause, heq⟩ | ⟨v, heq, -⟩⟩
      · cases heq
      · cases heq
  | ok x =>
    cases x with
    | foreign document =>
      have hexec := exec_assign_of_foreign hd (hassigned.trans heval)
      refine iff_of_false (not_skipped_of_failed hexec) ?_
      rintro ⟨-, ⟨cause, heq⟩ | ⟨v, heq, -⟩⟩
      · cases heq
      · cases heq
    | value v =>
      by_cases htype : v.type = d.type
      · have hexec := exec_assign_of_type hd hspeaker (hassigned.trans heval) htype
        refine iff_of_false (not_skipped_of_put hexec) ?_
        rintro ⟨-, ⟨cause, heq⟩ | ⟨u, heq, hu⟩⟩
        · cases heq
        · cases heq
          exact hu htype
      · have hexec := exec_assign_of_wrongType hd (hassigned.trans heval) htype
        refine iff_of_true ⟨_, hexec⟩ ⟨?_, .inr ⟨v, rfl, htype⟩⟩
        rintro u rfl
        rw [Expr.eval] at heval
        cases heval
        exact htype (hliteral _ rfl)

/-- An assignment to a declared variable that has a speaker, if it needs one, is made or skipped for
its value alone, given that a literal is of the declared type and nothing undeclared is staged. -/
theorem assigns_of_declared (hliteral : ∀ v, value = .literal v → v.type = d.type)
    (hadmitted : w.turn.stage.Admitted env.manifest) : Assigns env d name value w where
  skipped_iff := by
    by_cases hunset : IsUnset env value w
    · have hexec := exec_assign_of_type hd hspeaker (assigned_of_isUnset hd hunset)
        (Value.type_initial d.type)
      obtain ⟨source, hsource, hnone⟩ := hunset
      exact iff_of_false (not_skipped_of_put hexec) fun h => h.2.1 source hsource hnone
    · have hset : ∀ source, value = .var source → w.lookup env source ≠ none :=
        fun source hsource hnone => hunset ⟨source, hsource, hnone⟩
      rw [skipped_iff_of_not_isUnset hd hspeaker hliteral hunset]
      exact ⟨fun h => ⟨h.1, hset, h.2⟩, fun h => ⟨h.1, h.2.2⟩⟩
  literal := by
    rintro v rfl
    exact exec_assign_of_type hd hspeaker (assigned_literal env name v w) (hliteral v rfl)
  unset := by
    intro source hsource hundeclared hglobal
    have hpending : w.turn.stage.pending.get? source = none := by
      cases hget : w.turn.stage.pending.get? source with
      | none => rfl
      | some v =>
        obtain ⟨declared, hdeclared, -⟩ := hadmitted source v hget
        rw [hundeclared] at hdeclared
        cases hdeclared
    have hlookup : w.lookup env source = none := by
      rw [Walk.lookup, Stage.lookup, hpending]
      dsimp only
      rw [Environment.lookup, hundeclared]
      exact hglobal
    exact exec_assign_of_type hd hspeaker (assigned_of_isUnset hd ⟨source, hsource, hlookup⟩)
      (Value.type_initial d.type)

end Declared

/-- Wherever a run comes to, its stage writes in the name of the viewer that the body was run for, and
holds only writes that the declarations admit. -/
theorem visit_admitted {viewer : Option String} {dice : Dice} {body : List Statement} {v : Visit}
    (hv : v ∈ visitsBody env body (start viewer dice)) :
    v.2.turn.stage.viewer = viewer ∧ v.2.turn.stage.Admitted env.manifest :=
  visit_induction (fun _ _ hstep => step_admitted hstep viewer) body
    ⟨rfl, Stage.admitted_empty viewer env.manifest⟩ v hv

end Walk

end Parley
