import Parley.State.Fault
import Parley.Text.Blank
import Parley.Text.Integer

/-!
# Evaluation

The value of an expression, given what each variable holds. Nothing is written.

Comparisons bring both operands to a common type. Equal types are compared as they are, a truth
value and an integer as integers, an integer and the text of an integer as integers, and all else
as texts. An order is only defined between integers and texts of integers. A variable that is unset
takes the initial value of the type of the other operand, and zero if both are unset.

An integer and a text meet by a conversion of one of them, which may be refused for its digits.
-/

namespace Parley

/-- What each variable holds; nothing for one that is unset. -/
abbrev Lookup := String → Option Stored

namespace Comparison

/-- Whether the order of two numbers satisfies a comparison. -/
def holdsInt (op : Comparison) (a b : Int) : Bool :=
  match op with
  | .eq => a == b
  | .ne => a != b
  | .gt => b < a
  | .lt => a < b
  | .ge => b ≤ a
  | .le => a ≤ b

/-- What a conversion answers, its refusal being a fault. -/
def converted {α : Type} : Except Text.TooManyDigits α → Except Fault α
  | .ok x => .ok x
  | .error _ => .error .tooManyDigits

/-- Reads the integer that a text writes, blanks around it aside. -/
def readText (s : String) : Except Fault (Option Int) :=
  converted (Text.readInt (Text.strip s.toList))

/-- The text of an integer in a comparison with another text. -/
def textOfInt (n : Int) : Except Fault String :=
  converted ((Text.writeInt n).map String.ofList)

/-- The text of a truth value in a comparison with another text. -/
def textOfBool (b : Bool) : String :=
  if b then "true" else "false"

/-- Whether an integer is what a text stands for: the integer that it writes, or else the text that
writes it. -/
def equalIntText (n : Int) (s : String) : Except Fault Bool := do
  match ← readText s with
  | some m => .ok (n == m)
  | none => .ok ((← textOfInt n) == s)

/-- Whether two values are equal after being brought to a common type. -/
def equal : Value → Value → Except Fault Bool
  | .bool a, .bool b => .ok (a == b)
  | .int a, .int b => .ok (a == b)
  | .str a, .str b => .ok (a == b)
  | .bool a, .int b => .ok ((if a then 1 else 0) == b)
  | .int a, .bool b => .ok (a == (if b then 1 else 0))
  | .int a, .str b => equalIntText a b
  | .str a, .int b => equalIntText b a
  | .bool a, .str b => .ok (textOfBool a == b)
  | .str a, .bool b => .ok (a == textOfBool b)

/-- The number that an operand of an order stands for. -/
def number (op : Comparison) : Stored → Except Fault Int
  | .value (.int n) => .ok n
  | .value (.bool b) => .error (.eval (.truthOperand op b))
  | .value (.str s) => do
    match ← readText s with
    | some n => .ok n
    | none => .error (.eval (.textOperand op s))
  | .foreign document => .error (.notOrdered document)

/-- The initial value of the type of an operand. -/
def initialLike : Stored → Except Fault Stored
  | .value v => .ok (.value v.type.initial)
  | .foreign document => .error (.notValue document)

/-- The operands of a comparison, an unset one replaced by what it stands for. -/
def operands : Option Stored → Option Stored → Except Fault (Stored × Stored)
  | none, none => .ok (.value (.int 0), .value (.int 0))
  | none, some r => (initialLike r).map fun l => (l, r)
  | some l, none => (initialLike l).map fun r => (l, r)
  | some l, some r => .ok (l, r)

/-- The script value of an operand of an equality. -/
def valueOf : Stored → Except Fault Value
  | .value v => .ok v
  | .foreign document => .error (.notValue document)

/-- The outcome of a comparison; `none` is a variable that is unset. -/
def apply (op : Comparison) (left right : Option Stored) : Except Fault Bool := do
  let (l, r) ← operands left right
  -- The left operand is looked at first, and its fault is the one that is reported.
  if op.isOrdering then
    let a ← op.number l
    let b ← op.number r
    .ok (op.holdsInt a b)
  else
    let a ← valueOf l
    let b ← valueOf r
    let same ← equal a b
    .ok (if op = .ne then !same else same)

end Comparison

namespace Expr

/-- The operand of a comparison: an unset variable stays unset. -/
def operand (look : Lookup) (e : Expr) (value : Except Fault Stored) :
    Except Fault (Option Stored) :=
  match e with
  | .var name => .ok (look name)
  | _ => value.map some

mutual

/-- The value of an expression. An unset variable counts as false. -/
def eval (look : Lookup) : Expr → Except Fault Stored
  | .literal v => .ok (.value v)
  | .var name => .ok ((look name).getD (.value (.bool false)))
  | .compare op left right => do
    -- Only a variable can be unset; the value of any other operand is there.
    let l ← operand look left (eval look left)
    let r ← operand look right (eval look right)
    let b ← op.apply l r
    .ok (.value (.bool b))
  | .connect .not operands => (evalNot look operands).map fun b => .value (.bool b)
  | .connect .and operands => (evalAll look operands).map fun b => .value (.bool b)
  | .connect .or operands => (evalAny look operands).map fun b => .value (.bool b)

/-- Whether the operand of a negation does not count as true. -/
def evalNot (look : Lookup) : List Expr → Except Fault Bool
  | [] => .ok true
  | e :: _ => (eval look e).map fun v => !v.isTruthy

/-- Whether all operands count as true, looking no further than the first that does not. -/
def evalAll (look : Lookup) : List Expr → Except Fault Bool
  | [] => .ok true
  | e :: rest => do
    let v ← eval look e
    if v.isTruthy then evalAll look rest else .ok false

/-- Whether some operand counts as true, looking no further than the first that does. -/
def evalAny (look : Lookup) : List Expr → Except Fault Bool
  | [] => .ok false
  | e :: rest => do
    let v ← eval look e
    if v.isTruthy then .ok true else evalAny look rest

end

/-- Whether an expression counts as true. -/
def test (look : Lookup) (e : Expr) : Except Fault Bool :=
  (eval look e).map Stored.isTruthy

end Expr

end Parley
