import Mathlib.Logic.Relation
import Parley.Proofs.State.Stage
import Parley.Talk.Turn

/-!
# Steps of a Run

Whatever the statements of a body and however they are nested, a run of the body is a sequence of a
few kinds of steps (`Walk.Step`): something is noted, said, offered or recorded, or the stage takes
a write. A property that every step keeps is therefore kept by every run, with no further look at
statements and clauses:

* `Walk.execBody_steps`: the run of a body is a sequence of steps;
* `Walk.run_admitted`: the stage of a turn holds only writes that the declarations admit, in the
  name of the viewer that the body was run for.
-/

namespace Parley.Walk

open Relation

variable {env : Environment}

/-- One thing that a run does. -/
inductive Step (env : Environment) : Walk → Walk → Prop
  | note (w : Walk) (notice : Notice) : Step env w (w.note notice)
  | say (w : Walk) (phrase : Phrase) : Step env w (w.say phrase)
  | offerChoice (w : Walk) (choice : Choice) : Step env w (w.offerChoice choice)
  /-- A gift is recorded with its message as it is spoken. -/
  | give (w : Walk) (item : String) (message : Phrase) :
      Step env w (({ w with dice := (w.dice.speak message).2 } : Walk).record
        (.give item (w.dice.speak message).1))
  | spend (w : Walk) (amount : Nat) : Step env w (w.record (.spend amount))
  | offer (w : Walk) (item : String) : Step env w (w.record (.offer item))
  | assign (w : Walk) (name : String) (value : Expr) (stage : Stage)
      (h : w.assign env name value = .ok stage) :
      Step env w { w with turn := { w.turn with stage } }

/-- A run has taken at most a note. -/
inductive Noted (w : Walk) : Walk → Prop
  | nothing : Noted w w
  | notice (notice : Notice) : Noted w (w.note notice)

namespace Noted

variable {w w' : Walk}

theorem steps (h : w.Noted w') : ReflTransGen (Step env) w w' := by
  cases h with
  | nothing => exact .refl
  | notice notice => exact .single (.note w notice)

/-- A note produces nothing. -/
theorem turn (h : w.Noted w') : w'.turn = w.turn := by
  cases h <;> rfl

theorem dice (h : w.Noted w') : w'.dice = w.dice := by
  cases h <;> rfl

end Noted

/-- A test takes at most a note. -/
theorem test_noted (e : Expr) (w : Walk) : w.Noted (w.test env e).2 := by
  rw [test]
  split
  · exact .nothing
  · exact .notice _
  · exact .nothing

theorem holds_noted (t : Test) (w : Walk) : w.Noted (w.holds env t).2 := by
  cases t with
  | otherwise => exact .nothing
  | expr e => exact test_noted e w

theorem allows_noted (guard : Option Expr) (w : Walk) : w.Noted (w.allows env guard).2 := by
  cases guard with
  | none => exact .nothing
  | some e => exact test_noted e w

mutual

/-- The run of a statement is a sequence of steps. -/
theorem exec_steps : ∀ (s : Statement) (w : Walk), ReflTransGen (Step env) w (exec env s w).2
  -- The clauses are no part of the list that this statement stands in, so the three functions have
  -- to be treated together.
  | .cond clauses, w => by
    rw [exec]
    exact execClauses_steps clauses w
  | .say text, w => .single (.say w text)
  | .option label guard body, w => by
    -- The guard may note something even where the option is not offered.
    have hguard : ReflTransGen (Step env) w (w.allows env guard).2 := (allows_noted guard w).steps
    rw [exec]
    split
    · next hallows => rwa [hallows] at hguard
    · next hallows =>
      rw [hallows] at hguard
      exact hguard.tail (.offerChoice ..)
    · next hallows => rwa [hallows] at hguard
  | .assign name value, w => by
    rw [exec]
    split
    · -- A write that is not admitted is noted and skipped: only this case stages anything.
      next stage hstage => exact .single (.assign w name value stage hstage)
    · exact .single (.note ..)
    · exact .single (.note ..)
    · exact .refl
  | .give item message, w => .single (.give w item message)
  | .spend amount, w => .single (.spend w amount)
  | .offer item, w => .single (.offer w item)
  | .finish none, w => .refl
  | .finish (some message), w => .single (.say w message)

/-- The run of a chain of clauses is a sequence of steps. -/
theorem execClauses_steps : ∀ (clauses : List Clause) (w : Walk),
    ReflTransGen (Step env) w (execClauses env clauses w).2
  | [], w => .refl
  | .mk t body :: rest, w => by
    have htest : ReflTransGen (Step env) w (w.holds env t).2 := (holds_noted t w).steps
    rw [execClauses]
    split
    · next hholds => rwa [hholds] at htest
    · next hholds =>
      rw [hholds] at htest
      -- The later clauses are not looked at.
      exact htest.trans (execBody_steps body _)
    · next hholds =>
      rw [hholds] at htest
      exact htest.trans (execClauses_steps rest _)

/-- The run of a body is a sequence of steps. -/
theorem execBody_steps : ∀ (body : List Statement) (w : Walk),
    ReflTransGen (Step env) w (execBody env body w).2
  | [], w => .refl
  | s :: rest, w => by
    have hfirst : ReflTransGen (Step env) w (exec env s w).2 := exec_steps s w
    rw [execBody]
    split
    · next hexec =>
      rw [hexec] at hfirst
      exact hfirst.trans (execBody_steps rest _)
    · next hexec => rwa [hexec] at hfirst

end

/-- A property that every step keeps is kept by the run of a body. -/
theorem execBody_induction {P : Walk → Prop} (hstep : ∀ w w', Step env w w' → P w → P w')
    (body : List Statement) {w : Walk} (hw : P w) : P (execBody env body w).2 := by
  have hsteps : ReflTransGen (Step env) w (execBody env body w).2 := execBody_steps body w
  -- Only the steps matter from here on, and the induction is on their sequence.
  generalize (execBody env body w).2 = w' at hsteps ⊢
  induction hsteps with
  | refl => exact hw
  | tail _ h ih => exact hstep _ _ h ih

/-- No step changes in whose name the stage writes. -/
theorem steps_viewer {w w' : Walk} (h : ReflTransGen (Step env) w w') :
    w'.turn.stage.viewer = w.turn.stage.viewer := by
  induction h with
  | refl => rfl
  | tail _ hstep ih =>
    refine Eq.trans ?_ ih
    cases hstep with
    | assign name value stage hassign =>
      rw [Walk.assign] at hassign
      split at hassign
      · cases hassign
      · exact Stage.write_viewer hassign
    | _ => rfl

/-- No step changes in whose name the stage writes, and none stages what is not admitted. -/
theorem step_admitted {w w' : Walk} (h : Step env w w') (viewer : Option String)
    (hw : w.turn.stage.viewer = viewer ∧ w.turn.stage.Admitted env.manifest) :
    w'.turn.stage.viewer = viewer ∧ w'.turn.stage.Admitted env.manifest := by
  -- Every other step leaves the stage as it is.
  cases h with
  | assign name value stage hassign =>
    rw [Walk.assign] at hassign
    split at hassign
    · cases hassign
    · exact ⟨(Stage.write_viewer hassign).trans hw.1, Stage.admitted_write hw.2 hassign⟩
  | _ => exact hw

/-- The turn of a run is what its body has produced, whether the body runs to its end or is closed.
-/
theorem run_ok {viewer : Option String} {dice : Dice} {body : List Statement} {turn : Turn} {w : Walk}
    (h : run env viewer dice body = (.ok turn, w)) :
    (execBody env body (start viewer dice)).2 = w ∧ turn = { w.turn with ended := turn.ended } := by
  rw [run] at h
  split at h
  · next hexec =>
    rw [hexec]
    cases h
    exact ⟨rfl, rfl⟩
  · next hexec =>
    rw [hexec]
    cases h
    exact ⟨rfl, rfl⟩
  · cases h

/-- The stage of a turn writes in the name of the viewer that the body was run for, and holds only
writes that the declarations admit. -/
theorem run_admitted {viewer : Option String} {dice : Dice} {body : List Statement} {turn : Turn}
    {w : Walk} (h : run env viewer dice body = (.ok turn, w)) :
    turn.stage.viewer = viewer ∧ turn.stage.Admitted env.manifest := by
  -- The invariant holds of the empty stage that the run starts with.
  have hwalk := execBody_induction (fun _ _ hs => step_admitted hs viewer) body
    (w := start viewer dice) ⟨rfl, Stage.admitted_empty viewer env.manifest⟩
  obtain ⟨rfl, hturn⟩ := run_ok h
  rw [hturn]
  exact hwalk

end Parley.Walk
