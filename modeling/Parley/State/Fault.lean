import Parley.Script.Syntax
import Parley.Text.Integer

/-!
# Faults

What can go wrong while quest state is read and written. Scope errors and evaluation errors are
expected while a script runs and are recovered there; the others are defects of the caller or of
restored state, come from integers that are too long to be written or read, or are faults of the
presenter. The wordings of faults and notices write the integers in them whatever their length.
-/

namespace Parley

/-- Why a write is refused. -/
inductive ScopeCause
  /-- The manifest does not declare the variable. -/
  | undeclared
  /-- The value is not of the declared type. -/
  | wrongType (declared : ValueType) (value : Value)
  /-- The variable belongs to speakers and nobody speaks. -/
  | noSpeaker
  deriving DecidableEq, Inhabited

/-- The refusal of a write. -/
structure ScopeError where
  name : String
  cause : ScopeCause
  deriving DecidableEq, Inhabited

/-- The wording of a refusal. -/
def ScopeError.message (e : ScopeError) : String :=
  match e.cause with
  | .undeclared => e.name ++ " is not declared in the scope manifest"
  | .wrongType declared value =>
    e.name ++ " is declared " ++ declared.name ++ ", cannot store " ++ value.display
  | .noSpeaker => e.name ++ " is a speaker variable but no speaker is in scope"

/-- Why two values have no order. -/
inductive EvalError
  /-- An operand is a truth value. -/
  | truthOperand (op : Comparison) (b : Bool)
  /-- An operand is a text that is not the writing of an integer. -/
  | textOperand (op : Comparison) (s : String)
  deriving DecidableEq, Inhabited

/-- The wording of an evaluation error. -/
def EvalError.message : EvalError → String
  | .truthOperand op b => "'" ++ op.name ++ "' needs numbers, got boolean " ++ (Value.bool b).display
  | .textOperand op s => "'" ++ op.name ++ "' needs numbers, got " ++ (Value.str s).display

/-- What can go wrong while a conversation runs. -/
inductive Fault
  | scope (error : ScopeError)
  /-- Two values have no order. -/
  | eval (error : EvalError)
  /-- A document is used where a script value is needed. -/
  | notValue (document : Json)
  /-- A document that is no script value is ordered. -/
  | notOrdered (document : Json)
  /-- Something that is no text is used where a text is needed. -/
  | notText
  /-- Something that is no number is compared with a price. -/
  | notNumber
  /-- An integer or a text that would have to be converted has too many digits. -/
  | tooManyDigits
  | alreadyRan (npc : String)
  /-- The presenter fails at a request. -/
  | presenter (error : String)
  deriving Inhabited

namespace Fault

/-- The wording of a fault. -/
def message : Fault → String
  | .scope e => e.message
  | .eval e => e.message
  | .notValue document => "not a script value: " ++ document.display
  | .notOrdered document => "no order for " ++ document.display
  | .notText => "not a text"
  | .notNumber => "not a number"
  | .tooManyDigits => Text.TooManyDigits.message {}
  | .alreadyRan npc => "Session for " ++ npc ++ " already ran; start a new one"
  | .presenter error => error

/-- Whether a running script recovers from a fault. -/
def IsRecoverable : Fault → Prop
  | .scope _ => True
  | .eval _ => True
  | _ => False

end Fault

end Parley
