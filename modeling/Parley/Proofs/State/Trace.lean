import Parley.State.Evaluation
import Parley.State.Stage

/-!
# What an Evaluation Looks At

The answer of an evaluation does not tell how it was found: an operand that is not evaluated leaves
no mark in it. We evaluate an expression once more and write down the literals and variables that are
looked at, in order. The record is no part of the answer, and the answer is the same.

## Main results

* `Expr.answer_trace`: an evaluation with a record has the answer of the one without;
* `Expr.leaves_sublist_walk`: the record lists leaves of the expression in their order, each at most
  as often as it stands there;
* `Expr.trace_congr`: where the variables on the record hold the same, an evaluation goes the same
  way;
* `Expr.eval_eq_of_agree`: hence an expression depends on no variable that it does not name.

The record also shows how far a connective goes; its laws are in `Parley.Proofs.State.Logic`.
-/

namespace Parley

/-- An answer, and the literals and variables that were looked at on the way to it. -/
structure Traced (α : Type) where
  leaves : List Expr
  answer : Except Fault α

namespace Traced

variable {α β : Type}

/-- An answer for which nothing is looked at. -/
def ofAnswer (x : Except Fault α) : Traced α :=
  ⟨[], x⟩

/-- Goes on with the value of an answer. After a fault nothing more is looked at. -/
def andThen (x : Traced α) (f : α → Traced β) : Traced β :=
  match x.answer with
  | .error fault => ⟨x.leaves, .error fault⟩
  | .ok a => ⟨x.leaves ++ (f a).leaves, (f a).answer⟩

instance : Monad Traced where
  pure a := ofAnswer (.ok a)
  bind := andThen

theorem bind_of_ok {leaves : List Expr} {a : α} (f : α → Traced β) :
    (⟨leaves, .ok a⟩ >>= f : Traced β) = ⟨leaves ++ (f a).leaves, (f a).answer⟩ := rfl

instance : LawfulMonad Traced := by
  refine LawfulMonad.mk' Traced ?_ (fun _ _ => rfl) ?_
  · rintro α ⟨leaves, fault | a⟩
    · rfl
    · exact congrArg (Traced.mk · _) (List.append_nil leaves)
  · rintro α β γ ⟨leaves, fault | a⟩ f g
    · rfl
    · rw [bind_of_ok, bind_of_ok]
      cases hf : f a with
      | mk leaves' answer =>
        cases answer with
        | error fault => rfl
        | ok b => exact congrArg (Traced.mk · _) (List.append_assoc leaves leaves' _)

@[simp]
theorem answer_bind (x : Traced α) (f : α → Traced β) :
    (x >>= f).answer = x.answer >>= fun a => (f a).answer := by
  obtain ⟨leaves, fault | a⟩ := x
  · rfl
  · rfl

/-- What is looked at for the first of two steps is looked at for both. -/
theorem mem_bind_left {x : Traced α} {e : Expr} (f : α → Traced β) (h : e ∈ x.leaves) :
    e ∈ (x >>= f).leaves := by
  obtain ⟨leaves, fault | a⟩ := x
  · exact h
  · exact List.mem_append_left _ h

/-- The second step is made if the first one has a value. -/
theorem mem_bind_right {x : Traced α} {a : α} {e : Expr} {f : α → Traced β}
    (hx : x.answer = .ok a) (h : e ∈ (f a).leaves) : e ∈ (x >>= f).leaves := by
  obtain ⟨leaves, answer⟩ := x
  obtain rfl : answer = .ok a := hx
  exact List.mem_append_right _ h

/-- Two steps look at no more than what each of them may look at. -/
theorem bind_sublist {x : Traced α} {f : α → Traced β} {es es' : List Expr}
    (hx : x.leaves.Sublist es) (hf : ∀ a, (f a).leaves.Sublist es') :
    (x >>= f).leaves.Sublist (es ++ es') := by
  obtain ⟨leaves, fault | a⟩ := x
  · exact hx.trans (List.sublist_append_left es es')
  · exact hx.append (hf a)

/-- A step that only computes adds nothing to the record. -/
theorem leaves_bind_ofAnswer (x : Traced α) (f : α → Except Fault β) :
    (x >>= fun a => ofAnswer (f a)).leaves = x.leaves := by
  obtain ⟨leaves, fault | a⟩ := x
  · rfl
  · exact List.append_nil leaves

@[simp]
theorem leaves_map (x : Traced α) (f : α → β) : (f <$> x).leaves = x.leaves :=
  leaves_bind_ofAnswer x fun a => .ok (f a)

@[simp]
theorem answer_map (x : Traced α) (f : α → β) : (f <$> x).answer = x.answer.map f := by
  obtain ⟨leaves, fault | a⟩ := x
  · rfl
  · rfl

/-- The second steps are compared only for a value that the first step has. -/
theorem bind_congr_of_answer {x : Traced α} {f g : α → Traced β}
    (h : ∀ a, x.answer = .ok a → f a = g a) : x >>= f = x >>= g := by
  obtain ⟨leaves, fault | a⟩ := x
  · rfl
  · rw [bind_of_ok, bind_of_ok, h a rfl]

end Traced

namespace Expr

/-- The operand of a comparison. A variable is looked at once, and stays unset if it is. -/
def traceOperand (look : Lookup) (e : Expr) (value : Traced Stored) : Traced (Option Stored) :=
  match e with
  | .var name => ⟨[.var name], .ok (look name)⟩
  | _ => some <$> value

mutual

/-- An evaluation with a record of what is looked at. -/
def trace (look : Lookup) : Expr → Traced Stored
  | .literal v => ⟨[.literal v], .ok (.value v)⟩
  | .var name => ⟨[.var name], .ok ((look name).getD (.value (.bool false)))⟩
  | .compare op left right => do
    let l ← traceOperand look left (trace look left)
    let r ← traceOperand look right (trace look right)
    Traced.ofAnswer ((op.apply l r).map fun b => .value (.bool b))
  | .connect .not operands => (fun b => .value (.bool b)) <$> traceNot look operands
  | .connect .and operands => (fun b => .value (.bool b)) <$> traceWhile look true operands
  | .connect .or operands => (fun b => .value (.bool b)) <$> traceWhile look false operands

/-- Looks at the operand of a negation. -/
def traceNot (look : Lookup) : List Expr → Traced Bool
  | [] => pure true
  | e :: _ => (fun v => !v.isTruthy) <$> trace look e

/-- Looks at operands as long as they count as `b`: those of a conjunction as long as they are true,
and those of a disjunction as long as they are false. -/
def traceWhile (look : Lookup) (b : Bool) : List Expr → Traced Bool
  | [] => pure b
  | e :: rest => do
    let v ← trace look e
    if v.isTruthy = b then traceWhile look b rest else pure !b

end

variable {look look' : Lookup}

/-! ## The answer -/

theorem answer_traceOperand (e : Expr) (value : Traced Stored) :
    (traceOperand look e value).answer = operand look e value.answer := by
  cases e with
  | var name => rfl
  | literal v => exact Traced.answer_map value some
  | compare op left right => exact Traced.answer_map value some
  | connect op operands => exact Traced.answer_map value some

mutual

/-- The record makes no difference to the answer. -/
theorem answer_trace : ∀ e : Expr, (trace look e).answer = eval look e
  | .literal _ => rfl
  | .var _ => rfl
  | .compare op left right => by
    simp only [trace, eval, Traced.answer_bind, answer_traceOperand, answer_trace left,
      answer_trace right]
    rfl
  | .connect .not operands => by
    rw [trace, eval, Traced.answer_map, answer_traceNot operands]
  | .connect .and operands => by
    rw [trace, eval, Traced.answer_map, answer_traceAll operands]
  | .connect .or operands => by
    rw [trace, eval, Traced.answer_map, answer_traceAny operands]

theorem answer_traceNot : ∀ es : List Expr, (traceNot look es).answer = evalNot look es
  | [] => rfl
  | e :: _ => by
    rw [traceNot, evalNot, Traced.answer_map, answer_trace e]

theorem answer_traceAll : ∀ es : List Expr, (traceWhile look true es).answer = evalAll look es
  | [] => rfl
  | e :: rest => by
    rw [traceWhile, evalAll, Traced.answer_bind, answer_trace e]
    refine bind_congr fun v => ?_
    cases v.isTruthy with
    | true => exact answer_traceAll rest
    | false => rfl

theorem answer_traceAny : ∀ es : List Expr, (traceWhile look false es).answer = evalAny look es
  | [] => rfl
  | e :: rest => by
    rw [traceWhile, evalAny, Traced.answer_bind, answer_trace e]
    refine bind_congr fun v => ?_
    cases v.isTruthy with
    | true => rfl
    | false => exact answer_traceAny rest

end

theorem eval_eq_of_trace {look look' : Lookup} {e e' : Expr} (h : trace look' e' = trace look e) :
    eval look' e' = eval look e := by
  rw [← answer_trace, ← answer_trace, h]

/-! ## The record -/

/-- The literals and variables that the evaluation of an expression looks at, in order. -/
def leaves (look : Lookup) (e : Expr) : List Expr :=
  (trace look e).leaves

/-- Also a variable that is an operand is looked at once. -/
theorem leaves_traceOperand (e : Expr) :
    (traceOperand look e (trace look e)).leaves = leaves look e := by
  cases e with
  | var name => rfl
  | literal v => exact Traced.leaves_map _ some
  | compare op left right => exact Traced.leaves_map _ some
  | connect op operands => exact Traced.leaves_map _ some

mutual

/-- What is looked at stands in the expression, in the same order. -/
theorem leaves_sublist_walk : ∀ e : Expr, (leaves look e).Sublist e.walk
  | .literal v => (List.Sublist.refl [literal v] :)
  | .var name => (List.Sublist.refl [var name] :)
  | .compare op left right => by
    have hleft := leaves_sublist_walk left
    have hright := leaves_sublist_walk right
    rw [← leaves_traceOperand] at hleft hright
    refine List.Sublist.cons _ (Traced.bind_sublist hleft fun l => ?_)
    rw [Traced.leaves_bind_ofAnswer]
    exact hright
  | .connect .not operands => by
    rw [leaves, trace, Traced.leaves_map]
    exact List.Sublist.cons _ (leaves_traceNot_sublist operands)
  | .connect .and operands => by
    rw [leaves, trace, Traced.leaves_map]
    exact List.Sublist.cons _ (leaves_traceWhile_sublist true operands)
  | .connect .or operands => by
    rw [leaves, trace, Traced.leaves_map]
    exact List.Sublist.cons _ (leaves_traceWhile_sublist false operands)

theorem leaves_traceNot_sublist : ∀ es : List Expr,
    (traceNot look es).leaves.Sublist (walkAll es)
  | [] => List.nil_sublist _
  | e :: rest => by
    rw [traceNot, Traced.leaves_map]
    exact (leaves_sublist_walk e).trans (List.sublist_append_left e.walk (walkAll rest))

theorem leaves_traceWhile_sublist (b : Bool) : ∀ es : List Expr,
    (traceWhile look b es).leaves.Sublist (walkAll es)
  | [] => List.nil_sublist _
  | e :: rest => by
    rw [traceWhile, walkAll]
    refine Traced.bind_sublist (leaves_sublist_walk e) fun v => ?_
    -- operands behind one that decides are left out
    split
    · exact leaves_traceWhile_sublist b rest
    · exact List.nil_sublist _

end

/-! ## Two lookups -/

theorem traceOperand_congr {e : Expr}
    (h : ∀ name, var name ∈ leaves look e → look' name = look name) (value : Traced Stored) :
    traceOperand look' e value = traceOperand look e value := by
  cases e with
  | var name =>
    rw [traceOperand, traceOperand, h name (List.mem_singleton_self _)]
  | literal v => rfl
  | compare op left right => rfl
  | connect op operands => rfl

mutual

/-- An evaluation that meets the same under all names on its record goes the same way. -/
theorem trace_congr : ∀ e : Expr, (∀ name, var name ∈ leaves look e → look' name = look name) →
    trace look' e = trace look e
  | .literal _, _ => rfl
  | .var name, h => by
    rw [trace, trace, h name (List.mem_singleton_self _)]
  | .compare op left right, h => by
    rw [leaves, trace] at h
    have hleft : ∀ name, var name ∈ leaves look left → look' name = look name := by
      intro name hname
      rw [← leaves_traceOperand] at hname
      exact h name (Traced.mem_bind_left _ hname)
    rw [trace, trace, trace_congr left hleft, traceOperand_congr hleft]
    refine Traced.bind_congr_of_answer fun l hl => ?_
    -- the right operand is only looked at if the left one has a value
    have hright : ∀ name, var name ∈ leaves look right → look' name = look name := by
      intro name hname
      rw [← leaves_traceOperand] at hname
      exact h name (Traced.mem_bind_right hl (Traced.mem_bind_left _ hname))
    rw [trace_congr right hright, traceOperand_congr hright]
  | .connect .not operands, h => by
    rw [leaves, trace, Traced.leaves_map] at h
    rw [trace, trace, traceNot_congr operands h]
  | .connect .and operands, h => by
    rw [leaves, trace, Traced.leaves_map] at h
    rw [trace, trace, traceWhile_congr true operands h]
  | .connect .or operands, h => by
    rw [leaves, trace, Traced.leaves_map] at h
    rw [trace, trace, traceWhile_congr false operands h]

theorem traceNot_congr : ∀ es : List Expr,
    (∀ name, var name ∈ (traceNot look es).leaves → look' name = look name) →
      traceNot look' es = traceNot look es
  | [], _ => rfl
  | e :: _, h => by
    rw [traceNot, Traced.leaves_map] at h
    rw [traceNot, traceNot, trace_congr e h]

theorem traceWhile_congr (b : Bool) : ∀ es : List Expr,
    (∀ name, var name ∈ (traceWhile look b es).leaves → look' name = look name) →
      traceWhile look' b es = traceWhile look b es
  | [], _ => rfl
  | e :: rest, h => by
    rw [traceWhile] at h
    have hfirst : trace look' e = trace look e :=
      trace_congr e fun name hname => h name (Traced.mem_bind_left _ hname)
    rw [traceWhile, traceWhile, hfirst]
    refine Traced.bind_congr_of_answer fun v hv => ?_
    split
    · next hgoes =>
      refine traceWhile_congr b rest fun name hname => h name (Traced.mem_bind_right hv ?_)
      rwa [if_pos hgoes]
    · rfl

end

/-- The record stays within the walk over the expression, so that agreement there is enough. -/
theorem trace_congr_of_walk {e : Expr}
    (h : ∀ name, var name ∈ e.walk → look' name = look name) : trace look' e = trace look e :=
  trace_congr e fun name hname => h name ((leaves_sublist_walk e).subset hname)

/-- An expression depends on no variable that it does not name. Two lookups, of whatever states and
with whatever declarations, that agree on the variables of the walk over an expression give it the
same value or the same fault, after a look at the same literals and variables. -/
theorem eval_eq_of_agree {e : Expr} {look look' : Lookup}
    (h : ∀ name, var name ∈ e.walk → look' name = look name) :
    eval look' e = eval look e ∧ leaves look' e = leaves look e := by
  have htrace : trace look' e = trace look e := trace_congr_of_walk h
  exact ⟨eval_eq_of_trace htrace, congrArg Traced.leaves htrace⟩

/-- A guard of the gate lets in who is known, or brings three coins. -/
def gateGuard : Expr :=
  .connect .or [.var "MET", .compare .ge (.var "COINS") (.literal (.str " 3 "))]

/-- The gate in a state that declares what the guard asks for. -/
def gate : Environment where
  manifest := ⟨(OrderedMap.empty.insert "MET" (.make "MET" .speaker .bool)).insert "COINS"
    (.make "COINS" .global .int)⟩
  globals := OrderedMap.empty.insert "COINS" (.value (.int 5))

/-- The gate in a restored state that declares nothing and has a secret. -/
def restoredGate : Environment where
  manifest := .empty
  globals := (OrderedMap.empty.insert "MET" (.value (.bool false))).insert "SECRET" (.foreign .null)

/-- Coins that have not reached quest state. -/
def stagedCoins : Stage where
  viewer := none
  pending := OrderedMap.empty.insert "COINS" (.int 5)

/-- The guard is found true by the holder of the gate and through the stage alike, though the states
and their declarations differ and only one of the two has a secret. -/
theorem eval_eq_of_agree_of_gate :
    (∀ name, var name ∈ gateGuard.walk →
        stagedCoins.lookup restoredGate name = gate.lookup (some "holt") name) ∧
      (∃ document, stagedCoins.lookup restoredGate "SECRET" = some (.foreign document)) ∧
      gate.lookup (some "holt") "SECRET" = none ∧
      eval (stagedCoins.lookup restoredGate) gateGuard = .ok (.value (.bool true)) ∧
      eval (gate.lookup (some "holt")) gateGuard = .ok (.value (.bool true)) := by
  have hagree : ∀ name, var name ∈ gateGuard.walk →
      stagedCoins.lookup restoredGate name = gate.lookup (some "holt") name := by
    intro name hname
    simp only [gateGuard, walk, walkAll, List.cons_append, List.nil_append, List.append_nil,
      List.mem_cons, List.not_mem_nil, or_false, reduceCtorEq, false_or, var.injEq] at hname
    obtain rfl | rfl := hname
    · rfl
    · rfl
  have htrue : eval (gate.lookup (some "holt")) gateGuard = .ok (.value (.bool true)) := by
    rfl
  exact ⟨hagree, ⟨_, rfl⟩, rfl, (eval_eq_of_agree hagree).1.trans htrue, htrue⟩

end Expr

end Parley
