import Parley.Proofs.State.Comparison
import Parley.Proofs.State.Evaluation

/-!
# Short Values

An integer and a text cannot be compared if one of them has too many digits to be converted. We prove
that this is the only reason for such a refusal: an expression whose literals are short, evaluated
where only short values are looked up, is never refused for digits.

* `Comparison.apply_short`: no comparison of short operands is refused;
* `Expr.eval_short`: neither is an evaluation, and what it yields is short again.
-/

namespace Parley

/-- A value is short: the integer that it is, or that it writes as a text, has few enough digits to
be converted. -/
def Value.IsShort : Value → Prop
  | .bool _ => True
  | .int n => Text.isOverlong (Text.ofInt n) = false
  | .str s => (∃ n, Text.WritesInt n s.toList) → Text.isOverlong s.toList = false

instance : DecidablePred Value.IsShort
  | .bool _ => .isTrue trivial
  | .int n => inferInstanceAs (Decidable (Text.isOverlong (Text.ofInt n) = false))
  | .str s =>
    decidable_of_iff
      (Text.integer? (Text.strip s.toList) ≠ none → Text.isOverlong s.toList = false) <| by
      rw [Value.IsShort, ← Text.isNumeral_strip_iff, Ne, Text.integer?_eq_none_iff, not_not]

/-- A stored value is no script value, or a short one. -/
def Stored.IsShort (x : Stored) : Prop :=
  ∀ v, x = .value v → v.IsShort

/-- Only short values are looked up. -/
def Lookup.IsShort (look : Lookup) : Prop :=
  ∀ name x, look name = some x → x.IsShort

/-- An expression is no literal, or a short one. -/
def Expr.IsShortLeaf : Expr → Prop
  | .literal v => v.IsShort
  | _ => True

instance : DecidablePred Expr.IsShortLeaf
  | .literal v => inferInstanceAs (Decidable v.IsShort)
  | .var _ => .isTrue trivial
  | .compare _ _ _ => .isTrue trivial
  | .connect _ _ => .isTrue trivial

/-- All literals of an expression are short. -/
def Expr.IsShort (e : Expr) : Prop :=
  ∀ d ∈ e.walk, d.IsShortLeaf

instance : DecidablePred Expr.IsShort :=
  fun e => inferInstanceAs (Decidable (∀ d ∈ e.walk, d.IsShortLeaf))

/-- An answer is no refusal for digits, and its value is of a kind. -/
abbrev Converts {α : Type} (Q : α → Prop) (x : Except Fault α) : Prop :=
  Answers (fun fault => fault ≠ .tooManyDigits) Q x

namespace Value

theorem isShort_bool (b : Bool) : (Value.bool b).IsShort := trivial

/-- The initial values have one digit at most. -/
theorem isShort_initial (t : ValueType) : t.initial.IsShort := by
  cases t with
  | bool => exact trivial
  | int => exact rfl
  | str => exact fun _ => rfl

/-- A short value is no text that is refused in an order. -/
theorem IsShort.not_isOverlong {v : Value} (h : v.IsShort) : ¬ v.IsOverlong := by
  cases v with
  | bool b => exact not_false
  | int n => exact not_false
  | str s => exact fun hlong => Bool.false_ne_true ((h hlong.1).symm.trans hlong.2)

end Value

/-- A short value is short when it is stored. -/
theorem Stored.isShort_value {v : Value} (h : v.IsShort) : (Stored.value v).IsShort := by
  intro w hw
  cases hw
  exact h

namespace Comparison

/-- Two short values are no pair that is refused in an equality. -/
theorem not_isOverlongPair {v w : Value} (hv : v.IsShort) (hw : w.IsShort) :
    ¬ IsOverlongPair v w := by
  have hpair : ∀ n s, (Value.int n).IsShort → (Value.str s).IsShort → ¬ NeedsTooManyDigits n s := by
    rintro n s hn hs (⟨hwrites, hlong⟩ | ⟨-, hlong⟩)
    · exact Bool.false_ne_true ((hs hwrites).symm.trans hlong)
    · exact Bool.false_ne_true (hn.symm.trans hlong)
  cases v with
  | bool x => cases w <;> exact not_false
  | int m =>
    cases w with
    | str t => exact hpair m t hv hw
    | _ => exact not_false
  | str s =>
    cases w with
    | int n => exact hpair n s hw hv
    | _ => exact not_false

/-- Short values are compared without a fault of their digits. -/
theorem equal_short {v w : Value} (hv : v.IsShort) (hw : w.IsShort) :
    Converts (fun _ => True) (equal v w) := by
  obtain ⟨hpair, -⟩ | ⟨-, t, hequal⟩ := equal_cases v w
  · exact absurd hpair (not_isOverlongPair hv hw)
  · rw [hequal]
    exact trivial

/-- A short value is read as a number without a fault of its digits. -/
theorem number_short (op : Comparison) {x : Stored} (hx : x.IsShort) :
    Converts (fun _ => True) (op.number x) := by
  cases x with
  | foreign document => exact nofun
  | value v =>
    cases hnumber : v.number? with
    | some n =>
      rw [number_of_some hnumber]
      exact trivial
    | none =>
      obtain ⟨-, cause, hcause⟩ | ⟨hlong, -⟩ := number_of_none op hnumber
      · rw [hcause]
        exact nofun
      · exact absurd hlong (hx v rfl).not_isOverlong

/-- Initial values are short. -/
theorem initialLike_short (x : Stored) : Converts Stored.IsShort (initialLike x) := by
  cases x with
  | foreign document => exact nofun
  | value v => exact Stored.isShort_value (Value.isShort_initial _)

/-- The value of what is stored is as short as this is. -/
theorem valueOf_short {x : Stored} (hx : x.IsShort) : Converts Value.IsShort (valueOf x) := by
  cases x with
  | foreign document => exact nofun
  | value v => exact hx v rfl

/-- An unset operand is replaced by a short value. -/
theorem operands_short {l r : Option Stored} (hl : ∀ x ∈ l, x.IsShort) (hr : ∀ x ∈ r, x.IsShort) :
    Converts (fun p => p.1.IsShort ∧ p.2.IsShort) (operands l r) := by
  have hzero : (Stored.value (.int 0)).IsShort := Stored.isShort_value rfl
  cases l with
  | none =>
    cases r with
    | none => exact ⟨hzero, hzero⟩
    | some y => exact (initialLike_short y).map fun x hx => ⟨hx, hr y rfl⟩
  | some x =>
    cases r with
    | none => exact (initialLike_short x).map fun y hy => ⟨hl x rfl, hy⟩
    | some y => exact ⟨hl x rfl, hr y rfl⟩

/-- No comparison of short operands is refused for digits. -/
theorem apply_short (op : Comparison) {l r : Option Stored} (hl : ∀ x ∈ l, x.IsShort)
    (hr : ∀ x ∈ r, x.IsShort) : Converts (fun _ => True) (op.apply l r) := by
  refine (operands_short hl hr).bind fun p hp => ?_
  obtain ⟨x, y⟩ := p
  dsimp only
  split
  · exact (number_short op hp.1).bind fun _ _ => (number_short op hp.2).bind fun _ _ => trivial
  · exact (valueOf_short hp.1).bind fun _ hv => (valueOf_short hp.2).bind fun _ hw =>
      (equal_short hv hw).bind fun _ _ => trivial

end Comparison

namespace Expr

variable {look : Lookup}

/-- A part of an expression with short literals has short literals. -/
theorem IsShort.of_subset {e d : Expr} {es : List Expr} (h : ∀ x ∈ e :: es, x.IsShortLeaf)
    (hd : d.walk ⊆ es) : d.IsShort :=
  fun x hx => h x (List.mem_cons_of_mem _ (hd hx))

/-- An operand is short if what it is looked up from is. -/
theorem operand_short {e : Expr} {value : Except Fault Stored} (hlook : look.IsShort)
    (h : Converts Stored.IsShort value) :
    Converts (fun l => ∀ x ∈ l, x.IsShort) (operand look e value) := by
  have hvalue : Converts (fun l => ∀ x ∈ l, x.IsShort) (value.map some) :=
    h.map fun x hx y hy => Option.some.inj hy ▸ hx
  cases e with
  | var name => exact fun x hx => hlook name x hx
  | literal v => exact hvalue
  | compare op l r => exact hvalue
  | connect op operands => exact hvalue

mutual

/-- An evaluation over short values is not refused for digits, and yields a short value. -/
theorem eval_short (hlook : look.IsShort) :
    ∀ e : Expr, e.IsShort → Converts Stored.IsShort (eval look e)
  | .literal v, h => by
    rw [eval]
    exact Stored.isShort_value (h (.literal v) List.mem_cons_self)
  | .var name, _ => by
    rw [eval]
    cases hname : look name with
    | none => exact Stored.isShort_value (Value.isShort_bool false)
    | some x => exact hlook name x hname
  | .compare op l r, h => by
    have hl : l.IsShort := .of_subset h (List.subset_append_left _ _)
    have hr : r.IsShort := .of_subset h (List.subset_append_right _ _)
    rw [eval]
    refine (operand_short hlook (eval_short hlook l hl)).bind fun x hx => ?_
    refine (operand_short hlook (eval_short hlook r hr)).bind fun y hy => ?_
    exact (op.apply_short hx hy).bind fun b _ => Stored.isShort_value (Value.isShort_bool b)
  | .connect .not operands, h => by
    rw [eval]
    exact (evalNot_short hlook operands fun x hx => h x (List.mem_cons_of_mem _ hx)).map fun b _ =>
      Stored.isShort_value (Value.isShort_bool b)
  | .connect .and operands, h => by
    rw [eval]
    exact (evalAll_short hlook operands fun x hx => h x (List.mem_cons_of_mem _ hx)).map fun b _ =>
      Stored.isShort_value (Value.isShort_bool b)
  | .connect .or operands, h => by
    rw [eval]
    exact (evalAny_short hlook operands fun x hx => h x (List.mem_cons_of_mem _ hx)).map fun b _ =>
      Stored.isShort_value (Value.isShort_bool b)

/-- The connectives evaluate short operands without a fault of their digits. -/
theorem evalNot_short (hlook : look.IsShort) : ∀ operands : List Expr,
    (∀ x ∈ walkAll operands, x.IsShortLeaf) →
    Converts (fun _ => True) (evalNot look operands)
  | [], _ => by
    rw [evalNot]
    exact trivial
  | e :: _, h => by
    have he : e.IsShort := fun x hx => h x (List.mem_append_left _ hx)
    rw [evalNot]
    exact (eval_short hlook e he).map fun _ _ => trivial

theorem evalAll_short (hlook : look.IsShort) : ∀ operands : List Expr,
    (∀ x ∈ walkAll operands, x.IsShortLeaf) →
    Converts (fun _ => True) (evalAll look operands)
  | [], _ => by
    rw [evalAll]
    exact trivial
  | e :: rest, h => by
    have he : e.IsShort := fun x hx => h x (List.mem_append_left _ hx)
    rw [evalAll]
    refine (eval_short hlook e he).bind fun x _ => ?_
    split
    · exact evalAll_short hlook rest fun x hx => h x (List.mem_append_right _ hx)
    · exact trivial

theorem evalAny_short (hlook : look.IsShort) : ∀ operands : List Expr,
    (∀ x ∈ walkAll operands, x.IsShortLeaf) →
    Converts (fun _ => True) (evalAny look operands)
  | [], _ => by
    rw [evalAny]
    exact trivial
  | e :: rest, h => by
    have he : e.IsShort := fun x hx => h x (List.mem_append_left _ hx)
    rw [evalAny]
    refine (eval_short hlook e he).bind fun x _ => ?_
    split
    · exact trivial
    · exact evalAny_short hlook rest fun x hx => h x (List.mem_append_right _ hx)

end

end Expr

end Parley
