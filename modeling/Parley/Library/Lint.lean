import Parley.Script.Syntax
import Parley.Script.Defect
import Parley.State.Manifest
import Parley.Talk.Placeholder

/-!
# Lint

Defects of scripts that conversations tolerate: placeholders that stand for nothing, reads and writes
of variables that nobody declared, and literals of the wrong type. Every statement is looked at, also
those in option bodies, and every defect is reported once.
-/

namespace Parley

/-- How serious an issue is. -/
inductive Severity
  | error
  | warning
  deriving DecidableEq, Inhabited

/-- The word for a severity. -/
def Severity.name : Severity → String
  | .error => "error"
  | .warning => "warning"

/-- What is wrong with a script. -/
inductive IssueCause
  | unknownPlaceholder (token : String)
  | undeclaredRead (name : String)
  | undeclaredSet (name : String)
  /-- A literal of another type than the declared one is written. -/
  | wrongLiteral (name : String) (declared : ValueType) (literal : Value)
  /-- The script cannot be used at all. -/
  | broken (error : ParseError)
  deriving DecidableEq, Inhabited

namespace IssueCause

/-- How serious a cause is. -/
def severity : IssueCause → Severity
  | .undeclaredRead _ => .warning
  | _ => .error

/-- The wording of a cause. -/
def message : IssueCause → String
  | .unknownPlaceholder token => "unknown placeholder #" ++ token
  | .undeclaredRead name => "reads undeclared variable " ++ name
  | .undeclaredSet name => "sets undeclared variable " ++ name
  | .wrongLiteral name declared literal =>
    "sets " ++ declared.name ++ " variable " ++ name ++ " to " ++ literal.display
  | .broken error => error.message

/-- Whether a cause is a write that the manifest does not allow. -/
def isWrite : IssueCause → Bool
  | .undeclaredSet _ => true
  | .wrongLiteral .. => true
  | _ => false

end IssueCause

/-- A defect of the script of an archetype. -/
structure Issue where
  archetype : String
  cause : IssueCause
  deriving DecidableEq, Inhabited

namespace Issue

/-- How serious an issue is. -/
def severity (i : Issue) : Severity :=
  i.cause.severity

/-- The line that reports an issue. -/
def text (i : Issue) : String :=
  "[" ++ i.severity.name ++ "] " ++ i.archetype ++ ": " ++ i.cause.message

/-- Whether there is an error among issues. -/
def anyError (issues : List Issue) : Bool :=
  issues.any fun i => i.severity == .error

end Issue

namespace Lint

/-- The unknown placeholders of a phrase. -/
def phrase (known : List String) (p : Phrase) : List IssueCause :=
  p.literals.flatMap fun text =>
    ((Placeholder.find text).filter fun token => !known.contains token).map .unknownPlaceholder

/-- The undeclared variables that an expression reads. -/
def expr (m : Manifest) (e : Expr) : List IssueCause :=
  (e.reads.filter fun name => !m.contains name).map .undeclaredRead

/-- What is wrong with writing a value to a variable. -/
def write? (m : Manifest) (name : String) (value : Expr) : Option IssueCause :=
  match m.get? name, value with
  | none, _ => some (.undeclaredSet name)
  | some d, .literal v => if v.type = d.type then none else some (.wrongLiteral name d.type v)
  | some _, _ => none

/-- The undeclared variables that the tests of clauses read. -/
def tests (m : Manifest) (clauses : List Clause) : List IssueCause :=
  clauses.flatMap fun c =>
    match c.test with
    | .expr e => expr m e
    | .otherwise => []

/-- What is wrong with a statement itself, statements inside it aside. -/
def statement (m : Manifest) (known : List String) : Statement → List IssueCause
  | .say text => phrase known text
  | .option label guard _ => phrase known label ++ (guard.map (expr m)).getD []
  | .give _ message => phrase known message
  | .finish message => (message.map (phrase known)).getD []
  | .cond clauses => tests m clauses
  | .assign name value => expr m value ++ (write? m name value).toList
  | .offer _ => []
  | .spend _ => []

/-- Everything that is wrong with a script, as often as it is met. -/
def findings (m : Manifest) (known : List String) (script : Script) : List IssueCause :=
  script.walk.flatMap (statement m known)

/-- The issues of a script, each reported where it is first met. -/
def script (m : Manifest) (known : List String) (s : Script) : List Issue :=
  (findings m known s).eraseDups.map fun cause => ⟨s.archetype, cause⟩

end Lint

end Parley
