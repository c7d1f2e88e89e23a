import Parley.Proofs.Answer
import Parley.Proofs.State.Scripted

/-!
# Faults of an Evaluation

Expressions are evaluated over whatever is looked up. We prove that an evaluation can only fail in
three ways: two values have no order, which a script recovers from, a foreign value was looked up and
then compared (`Lookup.Trips`), or an integer and a text have too many digits to be compared. Over
script values the second cannot happen.

* `Comparison.apply_answers`: a comparison fails because of its operands;
* `Expr.eval_answers`: an evaluation fails in one of the three ways, and a foreign value that it
  yields was looked up.
-/

namespace Parley

namespace Lookup

variable {look : Lookup}

/-- A stored value is a script value, or it was looked up. -/
def Shows (look : Lookup) (x : Stored) : Prop :=
  ∀ document, x = .foreign document → ∃ name, look name = some (.foreign document)

/-- A fault is caused by a foreign value that was looked up. -/
inductive Trips (look : Lookup) : Fault → Prop
  | notValue {name : String} {document : Json} (h : look name = some (.foreign document)) :
      Trips look (.notValue document)
  | notOrdered {name : String} {document : Json} (h : look name = some (.foreign document)) :
      Trips look (.notOrdered document)

/-- The faults of evaluations. -/
inductive Fails (look : Lookup) : Fault → Prop
  | eval (cause : EvalError) : Fails look (.eval cause)
  | foreign {fault : Fault} (h : look.Trips fault) : Fails look fault
  | tooManyDigits : Fails look .tooManyDigits

/-- Every lookup may show a script value. -/
theorem shows_value (v : Value) : look.Shows (.value v) := by
  intro document h
  cases h

/-- A lookup shows what it finds. -/
theorem shows_of_eq {name : String} {x : Stored} (h : look name = some x) : look.Shows x := by
  rintro document rfl
  exact ⟨name, h⟩

/-- A document that is shown where a value is needed is a fault of the lookup. -/
theorem Shows.notValue {document : Json} (h : look.Shows (.foreign document)) :
    look.Fails (.notValue document) := by
  obtain ⟨name, hname⟩ := h document rfl
  exact .foreign (.notValue hname)

/-- A document that is shown where an order is needed is a fault of the lookup. -/
theorem Shows.notOrdered {document : Json} (h : look.Shows (.foreign document)) :
    look.Fails (.notOrdered document) := by
  obtain ⟨name, hname⟩ := h document rfl
  exact .foreign (.notOrdered hname)

/-- Where only script values are looked up, no foreign value causes a fault. -/
theorem IsScripted.not_trips (h : look.IsScripted) (fault : Fault) : ¬ look.Trips fault := by
  have hforeign : ∀ {name document}, look name ≠ some (.foreign document) := by
    intro name document hlook
    obtain ⟨v, hv⟩ := h name _ hlook
    cases hv
  rintro (hlook | hlook)
  · exact hforeign hlook
  · exact hforeign hlook

/-- A script does not recover from a fault that a foreign value causes. -/
theorem Trips.not_isRecoverable {fault : Fault} (h : look.Trips fault) : ¬ fault.IsRecoverable := by
  cases h <;> exact not_false

end Lookup

variable {look : Lookup}

namespace Comparison

/-- A conversion fails for its digits only. -/
theorem converted_answers {α : Type} (x : Except Text.TooManyDigits α) :
    Answers look.Fails (fun _ => True) (converted x) := by
  cases x with
  | ok a => exact trivial
  | error refusal => exact .tooManyDigits

/-- Reading a text as a number fails for its digits only. -/
theorem readText_answers (s : String) : Answers look.Fails (fun _ => True) (readText s) :=
  converted_answers _

/-- A comparison of order reads numbers, and fails only for digits or a document. -/
theorem number_answers (op : Comparison) {x : Stored} (hx : look.Shows x) :
    Answers look.Fails (fun _ => True) (op.number x) := by
  cases x with
  | foreign document => exact hx.notOrdered
  | value v =>
    cases v with
    | int n => exact trivial
    | bool b => exact .eval _
    | str s =>
      rw [number]
      refine (readText_answers s).bind fun answer _ => ?_
      cases answer with
      | some n => exact trivial
      | none => exact .eval _

/-- A comparison of equality fails for digits only. -/
theorem equal_answers (v w : Value) : Answers look.Fails (fun _ => True) (equal v w) := by
  have hpair : ∀ n s, Answers look.Fails (fun _ => True) (equalIntText n s) := by
    intro n s
    refine (readText_answers s).bind fun answer _ => ?_
    cases answer with
    | some m => exact trivial
    | none => exact (converted_answers _).bind fun _ _ => trivial
  unfold equal
  split <;> first | exact trivial | exact hpair _ _

/-- What is shown has a value unless it is a document. -/
theorem valueOf_answers {x : Stored} (hx : look.Shows x) :
    Answers look.Fails (fun _ => True) (valueOf x) := by
  cases x with
  | foreign document => exact hx.notValue
  | value v => exact trivial

/-- The initial value for what is shown is shown as well. -/
theorem initialLike_answers {x : Stored} (hx : look.Shows x) :
    Answers look.Fails look.Shows (initialLike x) := by
  cases x with
  | foreign document => exact hx.notValue
  | value v => exact Lookup.shows_value _

/-- An unset operand is replaced by a script value. -/
theorem operands_answers {l r : Option Stored} (hl : ∀ x ∈ l, look.Shows x)
    (hr : ∀ x ∈ r, look.Shows x) :
    Answers look.Fails (fun p => look.Shows p.1 ∧ look.Shows p.2) (operands l r) := by
  cases l with
  | none =>
    cases r with
    | none => exact ⟨Lookup.shows_value _, Lookup.shows_value _⟩
    | some y => exact (initialLike_answers (hr y rfl)).map fun x hx => ⟨hx, hr y rfl⟩
  | some x =>
    cases r with
    | none => exact (initialLike_answers (hl x rfl)).map fun y hy => ⟨hl x rfl, hy⟩
    | some y => exact ⟨hl x rfl, hr y rfl⟩

/-- A comparison fails because of its operands. -/
theorem apply_answers (op : Comparison) {l r : Option Stored} (hl : ∀ x ∈ l, look.Shows x)
    (hr : ∀ x ∈ r, look.Shows x) : Answers look.Fails (fun _ => True) (op.apply l r) := by
  refine (operands_answers hl hr).bind fun p hp => ?_
  obtain ⟨x, y⟩ := p
  dsimp only
  split
  · exact (number_answers op hp.1).bind fun _ _ => (number_answers op hp.2).bind fun _ _ => trivial
  · exact (valueOf_answers hp.1).bind fun _ _ => (valueOf_answers hp.2).bind fun _ _ =>
      (equal_answers _ _).bind fun _ _ => trivial

end Comparison

namespace Expr

/-- A variable is looked up once more as an operand, since it may be unset. -/
theorem operand_answers {e : Expr} {value : Except Fault Stored}
    (h : Answers look.Fails look.Shows value) :
    Answers look.Fails (fun l => ∀ x ∈ l, look.Shows x) (operand look e value) := by
  have hvalue : Answers look.Fails (fun l => ∀ x ∈ l, look.Shows x) (value.map some) :=
    h.map fun x hx y hy => Option.some.inj hy ▸ hx
  cases e with
  | var name => exact fun x hx => Lookup.shows_of_eq hx
  | literal v => exact hvalue
  | compare op l r => exact hvalue
  | connect op operands => exact hvalue

mutual

/-- An evaluation fails because two values have no order, because a foreign value was looked up, or
because an integer and a text have too many digits. -/
theorem eval_answers : ∀ e : Expr, Answers look.Fails look.Shows (eval look e)
  | .literal v => by
    rw [eval]
    exact Lookup.shows_value v
  | .var name => by
    rw [eval]
    cases hname : look name with
    | none => exact Lookup.shows_value _
    | some x => exact Lookup.shows_of_eq hname
  | .compare op l r => by
    rw [eval]
    refine (operand_answers (eval_answers l)).bind fun x hx => ?_
    refine (operand_answers (eval_answers r)).bind fun y hy => ?_
    exact (op.apply_answers hx hy).bind fun b _ => Lookup.shows_value _
  | .connect .not operands => by
    rw [eval]
    exact (evalNot_answers operands).map fun b _ => Lookup.shows_value _
  | .connect .and operands => by
    rw [eval]
    exact (evalAll_answers operands).map fun b _ => Lookup.shows_value _
  | .connect .or operands => by
    rw [eval]
    exact (evalAny_answers operands).map fun b _ => Lookup.shows_value _

/-- The connectives fail as their operands do. -/
theorem evalNot_answers : ∀ operands : List Expr,
    Answers look.Fails (fun _ => True) (evalNot look operands)
  | [] => by
    rw [evalNot]
    exact trivial
  | e :: _ => by
    rw [evalNot]
    exact (eval_answers e).map fun _ _ => trivial

theorem evalAll_answers : ∀ operands : List Expr,
    Answers look.Fails (fun _ => True) (evalAll look operands)
  | [] => by
    rw [evalAll]
    exact trivial
  | e :: rest => by
    rw [evalAll]
    refine (eval_answers e).bind fun x _ => ?_
    split
    · exact evalAll_answers rest
    · exact trivial

theorem evalAny_answers : ∀ operands : List Expr,
    Answers look.Fails (fun _ => True) (evalAny look operands)
  | [] => by
    rw [evalAny]
    exact trivial
  | e :: rest => by
    rw [evalAny]
    refine (eval_answers e).bind fun x _ => ?_
    split
    · exact trivial
    · exact evalAny_answers rest

end

end Expr

end Parley
