import Parley.Proofs.Text.Strip
import Parley.State.Evaluation

/-!
# Laws of the Comparisons

The operands of a comparison are script values and unset variables. An unset one takes its value
from the other operand (`Comparison.beside`). After that, equality has a rule for each pair of types,
and an order compares the numbers that the operands stand for (`Value.number?`), if both do.

An integer and a text can only be compared if the text, or else the integer, has few enough digits to
be converted. What has too many is told by `Value.IsOverlong` for orders and by
`Comparison.IsOverlongPair` for equality.

## Main results

* `Comparison.outcome_eq`, `Comparison.outcome_ne`: both forms of equality ask the same of their
  operands;
* `Comparison.equalIntText_cases`: an integer and a text are compared by what the text writes;
* `Comparison.outcome_order`: an order has an outcome if both operands stand for numbers, and then
  depends on these only;
* `Comparison.comparison_laws`: the laws of the six comparisons;
* `Comparison.order_agrees_with_equality`: orders and equality agree, two writings of one integer
  aside.
-/

namespace Parley

namespace Comparison

/-- What a text is read as: the integer that it writes, none, or a refusal for its digits. -/
theorem readText_cases (s : String) :
    (∃ n, Text.WritesInt n s.toList ∧ Text.isOverlong s.toList = false ∧
      readText s = .ok (some n)) ∨
    ((∀ n, ¬ Text.WritesInt n s.toList) ∧ readText s = .ok none) ∨
    ((∃ n, Text.WritesInt n s.toList) ∧ Text.isOverlong s.toList = true ∧
      readText s = .error .tooManyDigits) := by
  rw [← Text.isOverlong_strip, readText]
  cases hread : Text.readInt (Text.strip s.toList) with
  | ok answer =>
    cases answer with
    | some n =>
      obtain ⟨hspells, hshort⟩ := Text.readInt_eq_some_iff.mp hread
      have hwrites : Text.WritesInt n s.toList :=
        Text.integer?_strip_eq_some_iff.mp (Text.integer?_of_spells hspells)
      exact .inl ⟨n, hwrites, hshort, rfl⟩
    | none =>
      refine .inr (.inl ⟨fun n hwrites => ?_, rfl⟩)
      exact Text.readInt_eq_none_iff.mp hread (Text.isNumeral_strip_iff.mpr ⟨n, hwrites⟩)
  | error refusal =>
    obtain ⟨hnumeral, hlong⟩ := Text.readInt_eq_error_iff.mp ⟨refusal, hread⟩
    exact .inr (.inr ⟨Text.isNumeral_strip_iff.mp hnumeral, hlong, rfl⟩)

end Comparison

namespace Value

/-- The number that a value stands for in an order. A text stands for the integer that it writes, if
it can be converted. -/
def number? : Value → Option Int
  | .bool _ => none
  | .int n => some n
  | .str s => (Comparison.readText s).toOption.join

/-- A value has no place in an order: it is a truth value, or a text that writes no integer. -/
def IsUnordered : Value → Prop
  | .bool _ => True
  | .int _ => False
  | .str s => ∀ n, ¬ Text.WritesInt n s.toList

/-- A value is a text that writes an integer with more digits than can be converted. -/
def IsOverlong : Value → Prop
  | .str s => (∃ n, Text.WritesInt n s.toList) ∧ Text.isOverlong s.toList = true
  | _ => False

/-- The integer that a text stands for is the one that it writes. -/
theorem number?_str_eq_some_iff {s : String} {n : Int} :
    (Value.str s).number? = some n ↔
      Text.WritesInt n s.toList ∧ Text.isOverlong s.toList = false := by
  rw [number?]
  obtain ⟨m, hm, hshort, hread⟩ | ⟨hnone, hread⟩ | ⟨-, hlong, hread⟩ := Comparison.readText_cases s
  · rw [hread]
    refine ⟨fun h => ?_, fun h => congrArg some (hm.unique h.1)⟩
    obtain rfl : m = n := Option.some.inj h
    exact ⟨hm, hshort⟩
  · rw [hread]
    exact iff_of_false nofun fun h => hnone n h.1
  · rw [hread]
    exact iff_of_false nofun fun h => Bool.false_ne_true (h.2.symm.trans hlong)

theorem IsUnordered.number?_eq_none {v : Value} (h : v.IsUnordered) : v.number? = none := by
  cases v with
  | bool b => rfl
  | int n => exact h.elim
  | str s =>
    rw [Option.eq_none_iff_forall_ne_some]
    exact fun n hn => h n (number?_str_eq_some_iff.mp hn).1

theorem IsOverlong.number?_eq_none {v : Value} (h : v.IsOverlong) : v.number? = none := by
  cases v with
  | bool b => exact h.elim
  | int n => exact h.elim
  | str s =>
    rw [Option.eq_none_iff_forall_ne_some]
    exact fun n hn => Bool.false_ne_true ((number?_str_eq_some_iff.mp hn).2.symm.trans h.2)

theorem IsUnordered.not_isOverlong {v : Value} (h : v.IsUnordered) : ¬ v.IsOverlong := by
  cases v with
  | bool b => exact not_false
  | int n => exact h.elim
  | str s => exact fun hlong => hlong.1.elim h

end Value

namespace Comparison

/-- The value of an operand beside another one. If it is unset, this is the initial value of the type
of the other one, and zero if that is unset as well. -/
def beside (other : Option Value) : Option Value → Value
  | some v => v
  | none => (other.map fun v => v.type.initial).getD (.int 0)

/-- The outcome of a comparison of script values and unset variables. -/
def outcome (op : Comparison) (a b : Option Value) : Except Fault Bool :=
  op.apply (a.map .value) (b.map .value)

variable {op : Comparison} {a b c : Option Value}

theorem operands_map (a b : Option Value) :
    operands (a.map .value) (b.map .value) = .ok (.value (beside b a), .value (beside a b)) := by
  cases a with
  | none =>
    cases b with
    | none => rfl
    | some w => rfl
  | some v =>
    cases b with
    | none => rfl
    | some w => rfl

/-! ## Equality -/

theorem outcome_eq (a b : Option Value) :
    outcome .eq a b = equal (beside b a) (beside a b) := by
  rw [outcome, apply, operands_map]
  change (equal (beside b a) (beside a b) >>= fun same => Except.ok same) = _
  cases equal (beside b a) (beside a b) with
  | error fault => rfl
  | ok same => rfl

theorem outcome_ne (a b : Option Value) :
    outcome .ne a b = (equal (beside b a) (beside a b)).map Bool.not := by
  rw [outcome, apply, operands_map]
  rfl

/-- Both rules for an integer and a text are the same rule. -/
theorem equal_comm (v w : Value) : equal v w = equal w v := by
  cases v with
  | bool x =>
    cases w with
    | bool y => exact congrArg Except.ok BEq.comm
    | int n => exact congrArg Except.ok BEq.comm
    | str t => exact congrArg Except.ok BEq.comm
  | int m =>
    cases w with
    | bool y => exact congrArg Except.ok BEq.comm
    | int n => exact congrArg Except.ok BEq.comm
    | str t => rfl
  | str s =>
    cases w with
    | bool y => exact congrArg Except.ok BEq.comm
    | int n => rfl
    | str t => exact congrArg Except.ok BEq.comm

/-- An integer and a text need a conversion that is refused: the text writes an integer with too many
digits, or it writes none and the integer has too many. -/
def NeedsTooManyDigits (n : Int) (s : String) : Prop :=
  ((∃ m, Text.WritesInt m s.toList) ∧ Text.isOverlong s.toList = true) ∨
    (∀ m, ¬ Text.WritesInt m s.toList) ∧ Text.isOverlong (Text.ofInt n) = true

/-- An integer and a text are compared by what the text writes, if the conversion is not refused. -/
theorem equalIntText_cases (n : Int) (s : String) :
    (NeedsTooManyDigits n s ∧ equalIntText n s = .error .tooManyDigits) ∨
      ¬ NeedsTooManyDigits n s ∧ ∃ t, equalIntText n s = .ok t ∧
        (t = true ↔ Text.WritesInt n s.toList) := by
  rw [equalIntText]
  obtain ⟨m, hm, hshort, hread⟩ | ⟨hnone, hread⟩ | ⟨hsome, hlong, hread⟩ := readText_cases s
  · rw [hread]
    refine .inr ⟨?_, n == m, rfl, ?_⟩
    · rintro (⟨-, hlong⟩ | ⟨hnone, -⟩)
      · exact Bool.false_ne_true (hshort.symm.trans hlong)
      · exact hnone m hm
    · rw [beq_iff_eq]
      exact ⟨fun h => h ▸ hm, fun h => h.unique hm⟩
  · rw [hread]
    cases hint : Text.isOverlong (Text.ofInt n) with
    | true =>
      refine .inl ⟨.inr ⟨hnone, hint⟩, ?_⟩
      rw [textOfInt, Text.writeInt, hint]
      rfl
    | false =>
      refine .inr ⟨?_, String.ofList (Text.ofInt n) == s, ?_, ?_⟩
      · rintro (⟨⟨m, hm⟩, -⟩ | ⟨-, hlong⟩)
        · exact hnone m hm
        · exact Bool.false_ne_true (hint.symm.trans hlong)
      · rw [textOfInt, Text.writeInt, hint]
        rfl
      · -- The text is not the writing of the integer, for it writes none.
        refine iff_of_false (fun hsame => ?_) (hnone n)
        obtain rfl : String.ofList (Text.ofInt n) = s := beq_iff_eq.mp hsame
        refine hnone n ?_
        rw [String.toList_ofList]
        exact Text.writesInt_ofInt n
  · rw [hread]
    exact .inl ⟨.inl ⟨hsome, hlong⟩, rfl⟩

/-- Two values are an integer and a text, in some order, that need a conversion that is refused. -/
def IsOverlongPair : Value → Value → Prop
  | .int n, .str s => NeedsTooManyDigits n s
  | .str s, .int n => NeedsTooManyDigits n s
  | _, _ => False

/-- The equality of two values is decided, or a conversion is refused. -/
theorem equal_cases (v w : Value) :
    (IsOverlongPair v w ∧ equal v w = .error .tooManyDigits) ∨
      ¬ IsOverlongPair v w ∧ ∃ t, equal v w = .ok t := by
  have hpair : ∀ n s, (NeedsTooManyDigits n s ∧ equalIntText n s = .error .tooManyDigits) ∨
      ¬ NeedsTooManyDigits n s ∧ ∃ t, equalIntText n s = .ok t := fun n s =>
    (equalIntText_cases n s).imp_right (And.imp_right (Exists.imp fun _ => And.left))
  cases v with
  | bool x => cases w <;> exact .inr ⟨not_false, _, rfl⟩
  | int m =>
    cases w with
    | bool y => exact .inr ⟨not_false, _, rfl⟩
    | int n => exact .inr ⟨not_false, _, rfl⟩
    | str t => exact hpair m t
  | str s =>
    cases w with
    | bool y => exact .inr ⟨not_false, _, rfl⟩
    | int n => exact hpair n s
    | str t => exact .inr ⟨not_false, _, rfl⟩

/-- An integer equals the texts that write it. No other text is its own writing either, so that the
comparison as texts decides nothing. -/
theorem equal_int_str {n : Int} {s : String} :
    equal (.int n) (.str s) = .ok true ↔
      Text.WritesInt n s.toList ∧ Text.isOverlong s.toList = false := by
  change equalIntText n s = .ok true ↔ _
  obtain ⟨hneeds, hequal⟩ | ⟨hneeds, t, hequal, ht⟩ := equalIntText_cases n s
  · rw [hequal]
    refine iff_of_false nofun fun ⟨hwrites, hshort⟩ => ?_
    obtain ⟨-, hlong⟩ | ⟨hnone, -⟩ := hneeds
    · exact Bool.false_ne_true (hshort.symm.trans hlong)
    · exact hnone n hwrites
  · rw [hequal, Except.ok.injEq, ht]
    refine (and_iff_left_of_imp fun hwrites => ?_).symm
    exact Bool.eq_false_iff.mpr fun hlong => hneeds (.inl ⟨⟨n, hwrites⟩, hlong⟩)

/-! ## Orders -/

theorem number_of_some {v : Value} {n : Int} (h : v.number? = some n) :
    op.number (.value v) = .ok n := by
  cases v with
  | bool b => cases h
  | int m => exact congrArg Except.ok (Option.some.inj h)
  | str s =>
    rw [Value.number?] at h
    obtain ⟨m, -, -, hread⟩ | ⟨-, hread⟩ | ⟨-, -, hread⟩ := readText_cases s
    · rw [hread] at h
      rw [number, hread, ← Option.some.inj h]
      rfl
    · rw [hread] at h
      cases h
    · rw [hread] at h
      cases h

/-- What stands for no number has no place in an order, or it has too many digits. -/
theorem number_of_none (op : Comparison) {v : Value} (h : v.number? = none) :
    (v.IsUnordered ∧ ∃ cause, op.number (.value v) = .error (.eval cause)) ∨
      v.IsOverlong ∧ op.number (.value v) = .error .tooManyDigits := by
  cases v with
  | bool b => exact .inl ⟨trivial, _, rfl⟩
  | int m => cases h
  | str s =>
    rw [Value.number?] at h
    obtain ⟨m, -, -, hread⟩ | ⟨hnone, hread⟩ | ⟨hsome, hlong, hread⟩ := readText_cases s
    · rw [hread] at h
      cases h
    · rw [number, hread]
      exact .inl ⟨hnone, _, rfl⟩
    · rw [number, hread]
      exact .inr ⟨⟨hsome, hlong⟩, rfl⟩

/-- The first of two values that stands for no number is of a kind. -/
def FirstWithout (P : Value → Prop) (v w : Value) : Prop :=
  P v ∨ (∃ n, v.number? = some n) ∧ P w

/-- An order has an outcome if both operands stand for numbers, and otherwise fails because of the
first of them that does not. -/
theorem outcome_order (hop : op.isOrdering = true) (a b : Option Value) :
    (∃ m n, (beside b a).number? = some m ∧ (beside a b).number? = some n ∧
      outcome op a b = .ok (op.holdsInt m n)) ∨
    (FirstWithout Value.IsUnordered (beside b a) (beside a b) ∧
      ∃ cause, outcome op a b = .error (.eval cause)) ∨
    (FirstWithout Value.IsOverlong (beside b a) (beside a b) ∧
      outcome op a b = .error .tooManyDigits) := by
  have happly : outcome op a b = op.number (.value (beside b a)) >>= fun m =>
      op.number (.value (beside a b)) >>= fun n => .ok (op.holdsInt m n) := by
    rw [outcome, apply, operands_map]
    exact if_pos hop
  rw [happly]
  cases hleft : (beside b a).number? with
  | none =>
    obtain ⟨hunordered, cause, hcause⟩ | ⟨hlong, hcause⟩ := number_of_none op hleft
    · exact .inr (.inl ⟨.inl hunordered, cause, by rw [hcause]; rfl⟩)
    · exact .inr (.inr ⟨.inl hlong, by rw [hcause]; rfl⟩)
  | some m =>
    rw [number_of_some hleft]
    cases hright : (beside a b).number? with
    | none =>
      obtain ⟨hunordered, cause, hcause⟩ | ⟨hlong, hcause⟩ := number_of_none op hright
      · exact .inr (.inl ⟨.inr ⟨⟨m, hleft⟩, hunordered⟩, cause, by rw [hcause]; rfl⟩)
      · exact .inr (.inr ⟨.inr ⟨⟨m, hleft⟩, hlong⟩, by rw [hcause]; rfl⟩)
    | some n =>
      rw [number_of_some hright]
      exact .inl ⟨m, n, rfl, rfl, rfl⟩

/-- Where both values stand for numbers, none is the first that does not. -/
theorem FirstWithout.not_both_numbers {P : Value → Prop} {v w : Value}
    (hP : ∀ {u : Value}, P u → u.number? = none) (h : FirstWithout P v w) :
    ¬ ∃ m n, v.number? = some m ∧ w.number? = some n := by
  rintro ⟨m, n, hm, hn⟩
  obtain hv | ⟨-, hw⟩ := h
  · exact nomatch hm.symm.trans (hP hv)
  · exact nomatch hn.symm.trans (hP hw)

/-- The first value that stands for no number does so for one reason. -/
theorem FirstWithout.not_both {v w : Value} (hunordered : FirstWithout Value.IsUnordered v w) :
    ¬ FirstWithout Value.IsOverlong v w := by
  rintro (hlong | ⟨⟨n, hn⟩, hlong⟩)
  · obtain hv | ⟨⟨m, hm⟩, -⟩ := hunordered
    · exact hv.not_isOverlong hlong
    · exact nomatch hm.symm.trans hlong.number?_eq_none
  · obtain hv | ⟨-, hw⟩ := hunordered
    · exact nomatch hn.symm.trans hv.number?_eq_none
    · exact hw.not_isOverlong hlong

/-- An order that has an outcome compares the numbers of its operands. -/
theorem outcome_eq_ok_iff (hop : op.isOrdering = true) {t : Bool} :
    outcome op a b = .ok t ↔ ∃ m n, (beside b a).number? = some m ∧ (beside a b).number? = some n ∧
      op.holdsInt m n = t := by
  obtain ⟨m, n, hm, hn, hok⟩ | ⟨hfirst, cause, herror⟩ | ⟨hfirst, herror⟩ := outcome_order hop a b
  · rw [hok, hm, hn, Except.ok.injEq]
    constructor
    · rintro rfl
      exact ⟨m, n, rfl, rfl, rfl⟩
    · rintro ⟨m', n', hm', hn', rfl⟩
      rw [Option.some.inj hm', Option.some.inj hn']
  · rw [herror]
    refine ⟨nofun, fun ⟨m, n, hm, hn, _⟩ => ?_⟩
    exact absurd ⟨m, n, hm, hn⟩ (hfirst.not_both_numbers Value.IsUnordered.number?_eq_none)
  · rw [herror]
    refine ⟨nofun, fun ⟨m, n, hm, hn, _⟩ => ?_⟩
    exact absurd ⟨m, n, hm, hn⟩ (hfirst.not_both_numbers Value.IsOverlong.number?_eq_none)

/-- An order fails with an evaluation error exactly if the first operand that stands for no number
has no place in an order. -/
theorem outcome_eq_error_iff (hop : op.isOrdering = true) :
    (∃ cause, outcome op a b = .error (.eval cause)) ↔
      FirstWithout Value.IsUnordered (beside b a) (beside a b) := by
  obtain ⟨m, n, hm, hn, hok⟩ | ⟨hfirst, hcause⟩ | ⟨hfirst, herror⟩ := outcome_order hop a b
  · rw [hok]
    refine ⟨nofun, fun hfirst => ?_⟩
    exact absurd ⟨m, n, hm, hn⟩ (hfirst.not_both_numbers Value.IsUnordered.number?_eq_none)
  · exact ⟨fun _ => hfirst, fun _ => hcause⟩
  · rw [herror]
    exact ⟨nofun, fun hunordered => absurd hfirst hunordered.not_both⟩

/-- An order is refused for its digits exactly if the first operand that stands for no number has too
many. -/
theorem outcome_eq_refused_iff (hop : op.isOrdering = true) :
    outcome op a b = .error .tooManyDigits ↔
      FirstWithout Value.IsOverlong (beside b a) (beside a b) := by
  obtain ⟨m, n, hm, hn, hok⟩ | ⟨hfirst, cause, herror⟩ | ⟨hfirst, herror⟩ := outcome_order hop a b
  · rw [hok]
    refine ⟨nofun, fun hlong => ?_⟩
    exact absurd ⟨m, n, hm, hn⟩ (hlong.not_both_numbers Value.IsOverlong.number?_eq_none)
  · rw [herror]
    exact ⟨nofun, fun hlong => absurd hlong hfirst.not_both⟩
  · exact ⟨fun _ => hfirst, fun _ => herror⟩

/-- The number that an operand stands for in every order that has an outcome. An unset one is zero
there: beside a truth value or a text it would stand for none. -/
def operandNumber? : Option Value → Option Int
  | some v => v.number?
  | none => some 0

theorem operandNumber?_eq {m n : Int} (hm : (beside b a).number? = some m)
    (hn : (beside a b).number? = some n) : operandNumber? a = some m := by
  cases a with
  | some v => exact hm
  | none =>
    cases b with
    | none => exact hm
    | some w =>
      cases w with
      | bool x => cases hm
      | int k => exact hm
      | str t => cases hm

/-- The laws of `=` and `!=` for two operands. -/
structure EqualityLaws (a b : Option Value) : Prop where
  /-- Both are decided and one says the opposite of the other, or both are refused for their
  digits. -/
  decided : (∃ t, outcome .eq a b = .ok t ∧ outcome .ne a b = .ok (!t)) ∨
    outcome .eq a b = .error .tooManyDigits ∧ outcome .ne a b = .error .tooManyDigits
  /-- They are refused exactly if an integer and a text have too many digits. -/
  refused_iff : outcome .eq a b = .error .tooManyDigits ↔
    IsOverlongPair (beside b a) (beside a b)
  eq_symm : outcome .eq a b = outcome .eq b a
  ne_symm : outcome .ne a b = outcome .ne b a

theorem equalityLaws (a b : Option Value) : EqualityLaws a b where
  decided := by
    rw [outcome_eq, outcome_ne]
    obtain ⟨-, hequal⟩ | ⟨-, t, hequal⟩ := equal_cases (beside b a) (beside a b)
    · exact .inr ⟨hequal, by rw [hequal]; rfl⟩
    · exact .inl ⟨t, hequal, by rw [hequal]; rfl⟩
  refused_iff := by
    rw [outcome_eq]
    obtain ⟨hpair, hequal⟩ | ⟨hpair, t, hequal⟩ := equal_cases (beside b a) (beside a b)
    · exact iff_of_true hequal hpair
    · rw [hequal]
      exact iff_of_false nofun hpair
  eq_symm := by rw [outcome_eq, outcome_eq, equal_comm]
  ne_symm := by rw [outcome_ne, outcome_ne, equal_comm]

/-- The laws of the orders for two operands. -/
structure OrderLaws (a b : Option Value) : Prop where
  /-- An order has an outcome, or it fails with an evaluation error or for its digits. -/
  decided : ∀ op : Comparison, op.isOrdering = true →
    (∃ t, outcome op a b = .ok t) ∨ (∃ cause, outcome op a b = .error (.eval cause)) ∨
      outcome op a b = .error .tooManyDigits
  /-- It fails with an evaluation error exactly if one of the operands is a truth value or a text that
  writes no integer, the one in front of it standing for a number. -/
  fails_iff : ∀ op : Comparison, op.isOrdering = true →
    ((∃ cause, outcome op a b = .error (.eval cause)) ↔
      FirstWithout Value.IsUnordered (beside b a) (beside a b))
  /-- It fails for its digits exactly if one of the operands is a text that writes an integer with too
  many, the one in front of it standing for a number. -/
  refused_iff : ∀ op : Comparison, op.isOrdering = true →
    (outcome op a b = .error .tooManyDigits ↔
      FirstWithout Value.IsOverlong (beside b a) (beside a b))
  gt_iff_lt : ∀ t, outcome .gt a b = .ok t ↔ outcome .lt b a = .ok t
  ge_iff_le : ∀ t, outcome .ge a b = .ok t ↔ outcome .le b a = .ok t
  ge_iff_not_lt : ∀ t, outcome .ge a b = .ok t ↔ outcome .lt a b = .ok (!t)

/-- Two orders say the same of two operands and of these the other way round, if they do so of
integers. -/
theorem outcome_flip {op' : Comparison} (hop : op.isOrdering = true) (hop' : op'.isOrdering = true)
    (h : ∀ m n, op.holdsInt m n = op'.holdsInt n m) (t : Bool) :
    outcome op a b = .ok t ↔ outcome op' b a = .ok t := by
  rw [outcome_eq_ok_iff hop, outcome_eq_ok_iff hop', exists_comm]
  refine exists_congr fun n => exists_congr fun m => ?_
  rw [h m n]
  exact ⟨fun ⟨hm, hn, ht⟩ => ⟨hn, hm, ht⟩, fun ⟨hn, hm, ht⟩ => ⟨hm, hn, ht⟩⟩

theorem holdsInt_ge (m n : Int) : holdsInt .ge m n = !holdsInt .lt m n := by
  rw [holdsInt, holdsInt, ← decide_not, decide_eq_decide, Int.not_lt]

theorem orderLaws (a b : Option Value) : OrderLaws a b where
  decided op hop := by
    obtain ⟨m, n, -, -, hok⟩ | ⟨-, hcause⟩ | ⟨-, herror⟩ := outcome_order hop a b
    · exact .inl ⟨_, hok⟩
    · exact .inr (.inl hcause)
    · exact .inr (.inr herror)
  fails_iff op hop := outcome_eq_error_iff hop
  refused_iff op hop := outcome_eq_refused_iff hop
  gt_iff_lt := outcome_flip rfl rfl fun _ _ => rfl
  ge_iff_le := outcome_flip rfl rfl fun _ _ => rfl
  ge_iff_not_lt t := by
    rw [outcome_eq_ok_iff rfl, outcome_eq_ok_iff rfl]
    refine exists_congr fun m => exists_congr fun n => ?_
    rw [holdsInt_ge, Bool.not_eq_eq_eq_not]

/-- A chain of two orders. The operand in the middle stands for the same number in both. -/
theorem le_trans_of_outcome (hab : outcome .le a b = .ok true) (hbc : outcome .le b c = .ok true)
    {t : Bool} (hac : outcome .le a c = .ok t) : t = true := by
  obtain ⟨m, n, hm, hn, hle⟩ := (outcome_eq_ok_iff rfl).mp hab
  obtain ⟨n', k, hn', hk, hle'⟩ := (outcome_eq_ok_iff rfl).mp hbc
  obtain ⟨m', k', hm', hk', rfl⟩ := (outcome_eq_ok_iff rfl).mp hac
  obtain rfl : m = m' :=
    Option.some.inj ((operandNumber?_eq hm hn).symm.trans (operandNumber?_eq hm' hk'))
  obtain rfl : n = n' :=
    Option.some.inj ((operandNumber?_eq hn hm).symm.trans (operandNumber?_eq hn' hk))
  obtain rfl : k = k' :=
    Option.some.inj ((operandNumber?_eq hk hn').symm.trans (operandNumber?_eq hk' hm'))
  rw [holdsInt, decide_eq_true_iff] at hle hle' ⊢
  exact Int.le_trans hle hle'

/-- The laws of the comparisons, for all script values and unset variables. Both forms of equality are
symmetric, and opposite wherever they are decided, which is everywhere but for an integer and a text
with too many digits; an integer equals exactly the texts that write it, with or without blanks around
them, a sign and zeros in front, and with few enough digits. The orders have an outcome exactly if both
operands are integers or texts that write one with few enough digits, after an unset operand has taken
its value from the other; they agree with each other, and are transitive as far as they have an
outcome. -/
theorem comparison_laws (a b c : Option Value) :
    EqualityLaws a b ∧
      (∀ n s, outcome .eq (some (.int n)) (some (.str s)) = .ok true ↔
        Text.WritesInt n s.toList ∧ Text.isOverlong s.toList = false) ∧
      OrderLaws a b ∧
      (outcome .le a b = .ok true → outcome .le b c = .ok true →
        ∀ t, outcome .le a c = .ok t → t = true) := by
  refine ⟨equalityLaws a b, fun n s => ?_, orderLaws a b,
    fun hab hbc t hac => le_trans_of_outcome hab hbc hac⟩
  rw [outcome_eq]
  exact equal_int_str

/-- The laws at three operands in order: two texts with an integer in between. -/
theorem comparison_laws_of_texts :
    outcome .le (some (.str " -03 ")) (some (.int 0)) = .ok true ∧
      outcome .le (some (.int 0)) (some (.str "+7")) = .ok true ∧
      outcome .le (some (.str " -03 ")) (some (.str "+7")) = .ok true := by
  obtain ⟨-, -, -, htrans⟩ :=
    comparison_laws (some (.str " -03 ")) (some (.int 0)) (some (.str "+7"))
  have hab : outcome .le (some (.str " -03 ")) (some (.int 0)) = .ok true := by rfl
  have hbc : outcome .le (some (.int 0)) (some (.str "+7")) = .ok true := by rfl
  obtain ⟨t, ht⟩ : ∃ t, outcome .le (some (.str " -03 ")) (some (.str "+7")) = .ok t := ⟨_, rfl⟩
  exact ⟨hab, hbc, htrans hab hbc t ht ▸ ht⟩

/-- The integer one behind so many zeros that it is not converted. -/
def longOne : String :=
  String.ofList (Text.paddedDigits Text.digitLimit 1)

theorem needsTooManyDigits_longOne (n : Int) :
    Text.WritesInt 1 longOne.toList ∧ NeedsTooManyDigits n longOne := by
  have hlist : longOne.toList = Text.paddedDigits Text.digitLimit 1 := String.toList_ofList
  have hwrites : Text.WritesInt 1 longOne.toList := by
    rw [hlist]
    have hspells : Text.SpellsInt 1 (Text.paddedDigits Text.digitLimit (Int.natAbs 1)) :=
      .bare Text.digitLimit (by decide)
    exact ⟨[], _, [], (List.append_nil _).symm, List.forall_mem_nil _, hspells,
      List.forall_mem_nil _⟩
  have hlong : Text.isOverlong longOne.toList = true := by
    rw [hlist]
    exact Text.isOverlong_paddedDigits _ 1 (Nat.le_refl _)
  exact ⟨hwrites, .inl ⟨⟨1, hwrites⟩, hlong⟩⟩

/-- No integer is comparable with that text. -/
theorem equalIntText_longOne (n : Int) : equalIntText n longOne = .error .tooManyDigits := by
  obtain ⟨-, hequal⟩ | ⟨hneeds, -⟩ := equalIntText_cases n longOne
  · exact hequal
  · exact absurd (needsTooManyDigits_longOne n).2 hneeds

/-- Equality fails between the integer one and a text that writes it. -/
theorem equality_fails_of_longOne :
    Text.WritesInt 1 longOne.toList ∧
      outcome .eq (some (.int 1)) (some (.str longOne)) = .error .tooManyDigits ∧
      outcome .ne (some (.int 1)) (some (.str longOne)) = .error .tooManyDigits := by
  have hequal : equal (.int 1) (.str longOne) = .error .tooManyDigits := equalIntText_longOne 1
  refine ⟨(needsTooManyDigits_longOne 1).1, (outcome_eq _ _).trans hequal, ?_⟩
  rw [outcome_ne]
  exact congrArg (Except.map Bool.not) hequal

/-! ## Orders and equality -/

/-- Two operands are different texts that write the same integer. -/
def Respelled (a b : Option Value) : Prop :=
  ∃ s t n, a = some (.str s) ∧ b = some (.str t) ∧ s ≠ t ∧ Text.WritesInt n s.toList ∧
    Text.WritesInt n t.toList

/-- Values that stand for numbers are equal if the numbers are. Two texts are compared as they are
written, however. -/
theorem equal_of_numbers {v w : Value} {m n : Int} (hm : v.number? = some m)
    (hn : w.number? = some n) : ∃ t, equal v w = .ok t ∧
      (t = true ↔ m = n ∧ ∀ s t, v = .str s → w = .str t → s = t) := by
  have hpair : ∀ k s, (Value.str s).number? = some k → ∀ p, ∃ t, equalIntText p s = .ok t ∧
      (t = true ↔ p = k) := by
    intro k s hk p
    obtain ⟨hwrites, hshort⟩ := Value.number?_str_eq_some_iff.mp hk
    obtain ⟨⟨-, hlong⟩ | ⟨hnone, -⟩, -⟩ | ⟨-, t, hequal, ht⟩ := equalIntText_cases p s
    · exact absurd (hshort.symm.trans hlong) Bool.false_ne_true
    · exact absurd hwrites (hnone k)
    · exact ⟨t, hequal, ht.trans ⟨fun h => h.unique hwrites, fun h => h ▸ hwrites⟩⟩
  cases v with
  | bool x => cases hm
  | int p =>
    obtain rfl := Option.some.inj hm
    have htexts : ∀ s t, Value.int p = .str s → w = .str t → s = t := nofun
    simp only [and_iff_left htexts]
    cases w with
    | bool y => cases hn
    | int q =>
      obtain rfl := Option.some.inj hn
      exact ⟨p == q, rfl, beq_iff_eq⟩
    | str t => exact hpair n t hn p
  | str s =>
    cases w with
    | bool y => cases hn
    | int q =>
      obtain rfl := Option.some.inj hn
      have htexts : ∀ s' t, Value.str s = .str s' → Value.int q = .str t → s' = t := nofun
      simp only [and_iff_left htexts, eq_comm (a := m)]
      exact hpair m s hm q
    | str t =>
      refine ⟨s == t, rfl, ?_⟩
      rw [beq_iff_eq]
      constructor
      · rintro rfl
        refine ⟨Option.some.inj (hm.symm.trans hn), fun s' t' hs ht => ?_⟩
        exact Value.str.inj (hs.symm.trans ht)
      · rintro ⟨-, htexts⟩
        exact htexts s t rfl rfl

/-- A text in an order is an operand as it was written, since an unset operand does not turn into the
writing of an integer. -/
theorem eq_some_of_beside {s : String} {m : Int} (hs : beside b a = .str s)
    (hm : (beside b a).number? = some m) : a = some (.str s) := by
  cases a with
  | some v => exact congrArg some hs
  | none =>
    cases b with
    | none => cases hs
    | some w =>
      cases w with
      | bool x => cases hs
      | int k => cases hs
      | str t => cases hm

/-- Of two integers exactly one is less than the other, or they are equal. -/
theorem holdsInt_agree (m n : Int) :
    holdsInt .ge m n = (holdsInt .gt m n || holdsInt .eq m n) ∧
      holdsInt .le m n = (holdsInt .lt m n || holdsInt .eq m n) ∧
      [holdsInt .lt m n, holdsInt .eq m n, holdsInt .gt m n].count true = 1 := by
  refine ⟨?_, ?_, ?_⟩
  · rw [Bool.eq_iff_iff]
    simp only [holdsInt, Bool.or_eq_true, decide_eq_true_eq, beq_iff_eq]
    omega
  · rw [Bool.eq_iff_iff]
    simp only [holdsInt, Bool.or_eq_true, decide_eq_true_eq, beq_iff_eq]
    omega
  · obtain h | rfl | h := Int.lt_trichotomy m n
    · simp [holdsInt, h, Int.ne_of_lt h, Int.lt_asymm h]
    · simp [holdsInt]
    · simp [holdsInt, h, Int.ne_of_gt h, Int.lt_asymm h]

/-- Orders and equality agree. Where an order has an outcome, all comparisons have one: at least is
greater or equal, at most is less or equal, and exactly one of less, equal and greater holds.
Different texts that write the same integer are the one exception: they are at least and at most each
other, but neither equal nor less or greater. -/
theorem order_agrees_with_equality (h : ∃ t, outcome .ge a b = .ok t) :
    ∃ lt eq gt le ge, outcome .lt a b = .ok lt ∧ outcome .eq a b = .ok eq ∧
      outcome .gt a b = .ok gt ∧ outcome .le a b = .ok le ∧ outcome .ge a b = .ok ge ∧
      (¬ Respelled a b → ge = (gt || eq) ∧ le = (lt || eq) ∧ [lt, eq, gt].count true = 1) ∧
      (Respelled a b → ge = true ∧ le = true ∧ lt = false ∧ eq = false ∧ gt = false) := by
  obtain ⟨t, ht⟩ := h
  obtain ⟨m, n, hm, hn, -⟩ := (outcome_eq_ok_iff rfl).mp ht
  have horder : ∀ op : Comparison, op.isOrdering = true →
      outcome op a b = .ok (op.holdsInt m n) :=
    fun op hop => (outcome_eq_ok_iff hop).mpr ⟨m, n, hm, hn, rfl⟩
  obtain ⟨same, hsame, hsame_iff⟩ := equal_of_numbers hm hn
  refine ⟨_, same, _, _, _, horder .lt rfl, (outcome_eq a b).trans hsame, horder .gt rfl,
    horder .le rfl, horder .ge rfl, fun hrespelled => ?_, fun hrespelled => ?_⟩
  · have hequal : same = holdsInt .eq m n := by
      rw [Bool.eq_iff_iff, hsame_iff, holdsInt, beq_iff_eq]
      refine and_iff_left_of_imp fun hmn u v hu hv => ?_
      -- two different texts would be operands that write the one integer
      by_contra hne
      refine hrespelled ⟨u, v, m, eq_some_of_beside hu hm, eq_some_of_beside hv hn, hne, ?_, ?_⟩
      · exact (Value.number?_str_eq_some_iff.mp (hu ▸ hm)).1
      · exact (Value.number?_str_eq_some_iff.mp (hmn ▸ hv ▸ hn)).1
    rw [hequal]
    exact holdsInt_agree m n
  · obtain ⟨u, v, k, rfl, rfl, hne, hu, hv⟩ := hrespelled
    obtain rfl : k = m := hu.unique (Value.number?_str_eq_some_iff.mp hm).1
    obtain rfl : k = n := hv.unique (Value.number?_str_eq_some_iff.mp hn).1
    have hdiffer : same = false :=
      Bool.eq_false_iff.mpr fun h => hne ((hsame_iff.mp h).2 u v rfl rfl)
    refine ⟨?_, ?_, ?_, hdiffer, ?_⟩ <;> simp [holdsInt]

/-- An integer beside one of its writings: equality and orders agree. -/
theorem order_agrees_with_equality_of_writing :
    (∃ t, outcome .ge (some (.int 3)) (some (.str " +03 ")) = .ok t) ∧
      ¬ Respelled (some (.int 3)) (some (.str " +03 ")) ∧
      ∃ lt eq gt le ge, outcome .lt (some (.int 3)) (some (.str " +03 ")) = .ok lt ∧
        outcome .eq (some (.int 3)) (some (.str " +03 ")) = .ok eq ∧
        outcome .gt (some (.int 3)) (some (.str " +03 ")) = .ok gt ∧
        outcome .le (some (.int 3)) (some (.str " +03 ")) = .ok le ∧
        outcome .ge (some (.int 3)) (some (.str " +03 ")) = .ok ge ∧
        ge = (gt || eq) ∧ le = (lt || eq) ∧ [lt, eq, gt].count true = 1 := by
  have hge : ∃ t, outcome .ge (some (.int 3)) (some (.str " +03 ")) = .ok t := ⟨true, rfl⟩
  have hrespelled : ¬ Respelled (some (.int 3)) (some (.str " +03 ")) := by
    rintro ⟨s, t, n, hs, -⟩
    cases hs
  obtain ⟨lt, eq, gt, le, ge, hlt, heq, hgt, hle, hge', hagree, -⟩ := order_agrees_with_equality hge
  exact ⟨hge, hrespelled, lt, eq, gt, le, ge, hlt, heq, hgt, hle, hge', hagree hrespelled⟩

/-- Two writings of the integer one: the first is at least the second, but neither greater nor
equal. -/
theorem order_disagrees_of_leading_zero :
    outcome .ge (some (.str "1")) (some (.str "01")) = .ok true ∧
      ¬ (outcome .ge (some (.str "1")) (some (.str "01")) = .ok true ↔
        outcome .gt (some (.str "1")) (some (.str "01")) = .ok true ∨
          outcome .eq (some (.str "1")) (some (.str "01")) = .ok true) := by
  have hge : outcome .ge (some (.str "1")) (some (.str "01")) = .ok true := by rfl
  have hgt : outcome .gt (some (.str "1")) (some (.str "01")) = .ok false := by rfl
  have heq : outcome .eq (some (.str "1")) (some (.str "01")) = .ok false := by rfl
  refine ⟨hge, fun hiff => ?_⟩
  obtain h | h := hiff.mp hge
  · exact nomatch hgt.symm.trans h
  · exact nomatch heq.symm.trans h

end Comparison

end Parley
