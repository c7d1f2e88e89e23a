import Parley.Proofs.State.Evaluation
import Parley.Proofs.State.Trace

/-!
# Laws of the Connectives

A conjunction evaluates its operands as long as they are true, a disjunction as long as they are
false. What stands behind the first operand that is otherwise, or that fails, is not looked at. The
two differ in a truth value only and are treated as one (`Expr.junction`).

The laws of logic hold for them as equations between evaluations with a record (`Expr.trace`), so
that faults and the order in which things are looked at are part of them.

## Main results

* `Expr.traceWhile_append`: operands in a row are evaluated one part after the other;
* `Expr.traceWhile_junction`: the operands of an operand can be put in its place;
* `Expr.traceWhile_negations`: negated operands are evaluated like the operands, to the opposite;
* `Expr.traceWhile_stop`: the evaluation stops at the first operand that decides or fails;
* `Expr.logic_laws`: all of this for expressions.
-/

namespace Parley.Expr

variable {look : Lookup} {b : Bool}

/-- The negation of an expression. -/
def negation (e : Expr) : Expr :=
  .connect .not [e]

/-- The connective that evaluates its operands as long as they count as a truth value: the
conjunction for true and the disjunction for false. -/
def junction : Bool → List Expr → Expr
  | true, operands => .connect .and operands
  | false, operands => .connect .or operands

@[simp]
theorem trace_junction (es : List Expr) :
    trace look (junction b es) = (fun t => .value (.bool t)) <$> traceWhile look b es := by
  cases b with
  | true => rw [junction, trace]
  | false => rw [junction, trace]

@[simp]
theorem trace_negation (e : Expr) :
    trace look (negation e) = (fun v => .value (.bool !v.isTruthy)) <$> trace look e := by
  rw [negation, trace, traceNot, Functor.map_map]

/-! ## Operands in a row -/

/-- The second part is evaluated if the first one leaves it open. -/
theorem traceWhile_append (es es' : List Expr) :
    traceWhile look b (es ++ es') =
      traceWhile look b es >>= fun t => if t = b then traceWhile look b es' else pure (!b) := by
  induction es with
  | nil => rw [List.nil_append, traceWhile, pure_bind, if_pos rfl]
  | cons e rest ih =>
    rw [List.cons_append, traceWhile, traceWhile, bind_assoc]
    refine bind_congr fun v => ?_
    split
    · exact ih
    · rw [pure_bind, if_neg (by simp)]

/-- An operand that is a connective of the same kind can be replaced by its own operands. -/
theorem traceWhile_junction (inner back : List Expr) :
    traceWhile look b (junction b inner :: back) = traceWhile look b (inner ++ back) := by
  rw [traceWhile, trace_junction, bind_map_left, traceWhile_append]
  rfl

/-- Negated operands are true as long as the operands are false, and the other way round. -/
theorem traceWhile_negations (es : List Expr) :
    traceWhile look (!b) (es.map negation) = (fun t => !t) <$> traceWhile look b es := by
  induction es with
  | nil => rw [List.map_nil, traceWhile, traceWhile, map_pure]
  | cons e rest ih =>
    rw [List.map_cons, traceWhile, traceWhile, trace_negation, bind_map_left, map_bind]
    refine bind_congr fun v => ?_
    have hcounts : (Stored.value (.bool !v.isTruthy)).isTruthy = !v.isTruthy := rfl
    by_cases h : v.isTruthy = b
    · rw [if_pos h, if_pos (by rw [hcounts, h]), ih]
    · rw [if_neg h, if_neg (by rwa [hcounts, Bool.not_inj_iff]), map_pure]

/-! ## Where an evaluation stops -/

theorem trace_eq (e : Expr) : trace look e = ⟨leaves look e, eval look e⟩ := by
  rw [← answer_trace]
  rfl

/-- An operand that counts as `b` is passed. -/
theorem traceWhile_pass {e : Expr} (h : test look e = .ok b) (rest : List Expr) :
    traceWhile look b (e :: rest) =
      ⟨leaves look e ++ (traceWhile look b rest).leaves, (traceWhile look b rest).answer⟩ := by
  rw [test] at h
  rw [traceWhile, trace_eq]
  cases heval : eval look e with
  | error fault =>
    rw [heval] at h
    cases h
  | ok v =>
    rw [heval] at h
    rw [Traced.bind_of_ok, if_pos (Except.ok.inj h)]

/-- At any other operand, and at one that fails, the evaluation stops with what this one gives. -/
theorem traceWhile_stop {e : Expr} (h : test look e ≠ .ok b) (rest : List Expr) :
    traceWhile look b (e :: rest) = ⟨leaves look e, test look e⟩ := by
  rw [test] at h ⊢
  rw [traceWhile, trace_eq]
  cases heval : eval look e with
  | error fault => rfl
  | ok v =>
    rw [heval] at h
    have hother : v.isTruthy ≠ b := fun hv => h (congrArg Except.ok hv)
    rw [Traced.bind_of_ok, if_neg hother, ← Bool.eq_not_of_ne hother]
    exact congrArg (Traced.mk · _) (List.append_nil _)

/-- If all operands count as `b`, all of them are evaluated. -/
theorem traceWhile_of_forall {es : List Expr} (h : ∀ e ∈ es, test look e = .ok b) :
    traceWhile look b es = ⟨es.flatMap (leaves look), .ok b⟩ := by
  induction es with
  | nil => rfl
  | cons e rest ih =>
    rw [List.forall_mem_cons] at h
    rw [traceWhile_pass h.1, ih h.2, List.flatMap_cons]

/-- The operands up to the first other one are evaluated, this one included. -/
theorem traceWhile_of_first {front : List Expr} {e : Expr}
    (hfront : ∀ d ∈ front, test look d = .ok b) (he : test look e ≠ .ok b) (back : List Expr) :
    traceWhile look b (front ++ e :: back) =
      ⟨(front ++ [e]).flatMap (leaves look), test look e⟩ := by
  induction front with
  | nil => rw [List.nil_append, traceWhile_stop he, List.nil_append, List.flatMap_singleton]
  | cons d rest ih =>
    rw [List.forall_mem_cons] at hfront
    rw [List.cons_append, traceWhile_pass hfront.1, ih hfront.2, List.cons_append,
      List.flatMap_cons]

/-- Either all operands count as `b`, or there is a first one that does not. -/
theorem forall_or_first (look : Lookup) (b : Bool) (es : List Expr) :
    (∀ e ∈ es, test look e = .ok b) ∨
      ∃ front e back, es = front ++ e :: back ∧ (∀ d ∈ front, test look d = .ok b) ∧
        test look e ≠ .ok b := by
  induction es with
  | nil => exact .inl (List.forall_mem_nil _)
  | cons e rest ih =>
    by_cases he : test look e = .ok b
    · obtain hrest | ⟨front, d, back, rfl, hfront, hd⟩ := ih
      · exact .inl (List.forall_mem_cons.2 ⟨he, hrest⟩)
      · exact .inr ⟨e :: front, d, back, rfl, List.forall_mem_cons.2 ⟨he, hfront⟩, hd⟩
    · exact .inr ⟨[], e, rest, rfl, List.forall_mem_nil _, he⟩

/-! ## Expressions -/

/-- Two expressions are evaluated alike: to the same value or the same fault, after a look at the
same literals and variables in the same order. -/
def Alike (look : Lookup) (e e' : Expr) : Prop :=
  eval look e = eval look e' ∧ leaves look e = leaves look e'

theorem alike_of_trace {e e' : Expr} (h : trace look e = trace look e') : Alike look e e' :=
  ⟨eval_eq_of_trace h, congrArg Traced.leaves h⟩

/-- A connective gives a truth value, if it does not fail. -/
theorem connect_answers (look : Lookup) (op : Connective) (es : List Expr) :
    Answers look.Fails (fun x => ∃ t, x = .value (.bool t)) (eval look (.connect op es)) := by
  cases op with
  | not =>
    rw [eval]
    exact (evalNot_answers es).map fun t _ => ⟨t, rfl⟩
  | and =>
    rw [eval]
    exact (evalAll_answers es).map fun t _ => ⟨t, rfl⟩
  | or =>
    rw [eval]
    exact (evalAny_answers es).map fun t _ => ⟨t, rfl⟩

/-- The answer and the record of a connective, from those of its operands in a row. -/
theorem eval_junction {es seen : List Expr} {answer : Except Fault Bool}
    (h : traceWhile look b es = ⟨seen, answer⟩) :
    eval look (junction b es) = answer.map (fun t => .value (.bool t)) ∧
      leaves look (junction b es) = seen := by
  rw [← answer_trace, leaves, trace_junction, h, Traced.answer_map, Traced.leaves_map]
  exact ⟨rfl, rfl⟩

/-- The laws of logic, faults and evaluation order included, over whatever is looked up. For `b`
true they speak of conjunctions, for `b` false of disjunctions.

A negated connective is evaluated like the other connective of the negated operands, to a truth value
or to a fault: two values have no order, a foreign value was looked up and compared, or an integer and a
text have too many digits to be compared. An operand that is a connective of the same kind can be
replaced by its own operands. The operands are evaluated from the left, all of them if all count as `b`,
and otherwise up to the first that does not or that fails, which gives the outcome. -/
theorem logic_laws (look : Lookup) (b : Bool) :
    (∀ es, Alike look (negation (junction b es)) (junction (!b) (es.map negation)) ∧
      Answers look.Fails (fun x => ∃ t, x = .value (.bool t))
        (eval look (negation (junction b es)))) ∧
    (∀ front inner back, Alike look (junction b (front ++ junction b inner :: back))
      (junction b (front ++ inner ++ back))) ∧
    ∀ es,
      ((∀ e ∈ es, test look e = .ok b) ∧ eval look (junction b es) = .ok (.value (.bool b)) ∧
        leaves look (junction b es) = es.flatMap (leaves look)) ∨
      ∃ front e back, es = front ++ e :: back ∧ (∀ d ∈ front, test look d = .ok b) ∧
        test look e ≠ .ok b ∧
        eval look (junction b es) = (test look e).map (fun t => .value (.bool t)) ∧
        leaves look (junction b es) = (front ++ [e]).flatMap (leaves look) := by
  refine ⟨fun es => ⟨alike_of_trace ?_, connect_answers look .not _⟩,
    fun front inner back => alike_of_trace ?_, fun es => ?_⟩
  · rw [trace_negation, trace_junction, trace_junction, traceWhile_negations, Functor.map_map,
      Functor.map_map]
    rfl
  · rw [trace_junction, trace_junction, List.append_assoc, traceWhile_append, traceWhile_junction,
      ← traceWhile_append]
  · obtain hall | ⟨front, e, back, rfl, hfront, he⟩ := forall_or_first look b es
    · exact .inl ⟨hall, eval_junction (traceWhile_of_forall hall)⟩
    · exact .inr ⟨front, e, back, rfl, hfront, he,
        eval_junction (traceWhile_of_first hfront he back)⟩

/-- Behind a false operand of a conjunction nothing is looked at, and nothing fails. -/
example (look : Lookup) :
    trace look (.connect .and
        [.literal (.bool false), .compare .gt (.literal (.str "hero")) (.literal (.int 1))]) =
      ⟨[.literal (.bool false)], .ok (.value (.bool false))⟩ := rfl

end Parley.Expr
