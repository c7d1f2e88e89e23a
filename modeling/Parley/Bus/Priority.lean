import Parley.Json.Size

/-!
# Priorities

A priority is whatever a subscription gives as one. Numbers are ordered by their size and texts by
their characters; a number and a text cannot be compared, and nothing else can be compared at all.

Main definitions: `Rank`, what a priority is ordered by, with `Rank.isBelow` and `Rank.isComparable`.
The order is transitive (`Rank.isBelow_trans`), and only what can be compared is ordered
(`Rank.isComparable_of_isBelow`).
-/

namespace Parley.Bus

/-- What a priority is ordered by. -/
inductive Rank
  | number (size : Json.Size)
  | text (text : String)
  /-- Nothing that is ordered. -/
  | unordered
  deriving DecidableEq, Inhabited

namespace Rank

/-- The rank of a document. -/
def ofJson (document : Json) : Rank :=
  match document.size?, document.str? with
  | some size, _ => .number size
  | none, some chars => .text chars
  | none, none => .unordered

/-- Whether two ranks can be compared. -/
def isComparable : Rank → Rank → Bool
  | .number _, .number _ => true
  | .text _, .text _ => true
  | _, _ => false

/-- Whether a rank is lower than another one. -/
def isBelow : Rank → Rank → Bool
  | .number a, .number b => a.isBelow b
  | .text a, .text b => decide (a < b)
  | _, _ => false

theorem isComparable_of_isBelow {a b : Rank} (h : a.isBelow b = true) :
    a.isComparable b = true := by
  cases a <;> cases b <;> simp_all [isBelow, isComparable]

theorem isBelow_trans {a b c : Rank} (hab : a.isBelow b = true) (hbc : b.isBelow c = true) :
    a.isBelow c = true := by
  cases a <;> cases b <;> cases c <;> simp_all only [isBelow, Bool.false_eq_true, decide_eq_true_eq]
  · exact Json.Size.isBelow_trans hab hbc
  · exact String.lt_trans hab hbc

end Rank

/-- A priority. -/
structure Priority where
  /-- The priority as it was given. -/
  written : Json
  deriving DecidableEq, Inhabited

namespace Priority

/-- What the priority is ordered by. -/
def rank (p : Priority) : Rank :=
  .ofJson p.written

/-- The priority given by an integer. -/
def ofInt (n : Int) : Priority :=
  ⟨.int n⟩

/-- Integers are ordered as usual. -/
@[simp]
theorem isBelow_ofInt (m n : Int) :
    (ofInt m).rank.isBelow (ofInt n).rank = decide (m < n) := by
  simp only [rank, ofInt, Rank.ofJson, Json.size?, Rank.isBelow, Json.Size.isBelow_finite,
    Rat.intCast_lt_intCast]

/-- Integers can be compared. -/
@[simp]
theorem isComparable_ofInt (m n : Int) :
    (ofInt m).rank.isComparable (ofInt n).rank = true := rfl

end Priority

end Parley.Bus
