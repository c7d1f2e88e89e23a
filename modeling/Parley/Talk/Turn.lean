import Parley.Notice
import Parley.State.Evaluation
import Parley.State.Stage
import Parley.Talk.Dice

/-!
# Turns

Running a body of statements against quest state that it cannot change. Text and options are
gathered and side effects recorded in the order in which they are reached, and assignments are
staged, so that later tests in the same body see them. A body ends early where a closing statement
is reached.

An assignment that is refused is skipped, and a test that cannot be evaluated counts as false; both
are noted. Any other fault ends the run.
-/

namespace Parley

/-- A side effect, recorded by a run and performed by a commit. -/
inductive Effect
  | give (item message : String)
  | spend (amount : Nat)
  | offer (item : String)
  deriving DecidableEq, Inhabited

/-- An option that the player can choose. -/
structure Choice where
  label : Phrase
  guard : Option Expr
  /-- What happens if it is chosen. -/
  body : List Statement
  deriving Inhabited

/-- All that a run of a body produced. -/
structure Turn where
  stage : Stage
  /-- The spoken lines, placeholders as written. -/
  lines : List String := []
  /-- The options whose guards held. -/
  options : List Choice := []
  /-- The recorded side effects. -/
  effects : List Effect := []
  ended : Bool := false
  deriving Inhabited

namespace Effect

/-- The amount that an effect charges. -/
def charge : Effect → Nat
  | .spend amount => amount
  | _ => 0

end Effect

namespace Turn

/-- The lines that are not empty, each on a line of its own. -/
def text (turn : Turn) : String :=
  "\n".intercalate (turn.lines.filter fun line => line != "")

/-- The sum of all charges. -/
def spendTotal (turn : Turn) : Nat :=
  turn.effects.foldr (fun e total => e.charge + total) 0

/-- Whether something is recorded or staged. -/
def hasEffects (turn : Turn) : Bool :=
  !turn.effects.isEmpty || turn.stage.pending.size != 0

end Turn

/-- How the run of a statement or body ended. -/
inductive Flow
  /-- The next statement comes next. -/
  | next
  /-- A closing statement was reached. -/
  | ended
  | failed (fault : Fault)
  deriving Inhabited

/-- A run under way. -/
structure Walk where
  /-- What was produced so far. -/
  turn : Turn
  dice : Dice
  notices : List Notice := []

namespace Walk

/-- The value of a variable as the run sees it. -/
def lookup (env : Environment) (w : Walk) : Lookup :=
  w.turn.stage.lookup env

/-- The run with something noted. -/
def note (w : Walk) (notice : Notice) : Walk :=
  { w with notices := w.notices ++ [notice] }

/-- The run with a line spoken. -/
def say (w : Walk) (phrase : Phrase) : Walk :=
  let (line, dice) := w.dice.speak phrase
  { w with turn := { w.turn with lines := w.turn.lines ++ [line] }, dice }

/-- The run with a side effect recorded. -/
def record (w : Walk) (effect : Effect) : Walk :=
  { w with turn := { w.turn with effects := w.turn.effects ++ [effect] } }

/-- The run with an option offered. -/
def offerChoice (w : Walk) (choice : Choice) : Walk :=
  { w with turn := { w.turn with options := w.turn.options ++ [choice] } }

/-- Whether an expression counts as true. One that cannot be evaluated is noted and does not. -/
def test (env : Environment) (e : Expr) (w : Walk) : Except Fault Bool × Walk :=
  match e.test (w.lookup env) with
  | .ok b => (.ok b, w)
  -- A fault in the script is the author's; any other one is not expected here.
  | .error (.eval cause) => (.ok false, w.note (.failedTest (.eval cause)))
  | .error fault => (.error fault, w)

/-- Whether a clause is taken. -/
def holds (env : Environment) (t : Test) (w : Walk) : Except Fault Bool × Walk :=
  match t with
  | .otherwise => (.ok true, w)
  | .expr e => test env e w

/-- Whether an option is offered. -/
def allows (env : Environment) (guard : Option Expr) (w : Walk) : Except Fault Bool × Walk :=
  match guard with
  | none => (.ok true, w)
  | some e => test env e w

/-- The value of an assignment. A source that is unset gives the target the initial value of its
declared type. -/
def assigned (env : Environment) (name : String) (value : Expr) (w : Walk) : Except Fault Stored :=
  match value, env.manifest.get? name with
  | .var source, some d =>
    -- Copying an unset variable does not make the target false, whatever its type is.
    if (w.lookup env source).isNone then .ok (.value d.type.initial)
    else value.eval (w.lookup env)
  | _, _ => value.eval (w.lookup env)

/-- The stage after an assignment. -/
def assign (env : Environment) (name : String) (value : Expr) (w : Walk) : Except Fault Stage :=
  match w.assigned env name value with
  | .error fault => .error fault
  | .ok x => w.turn.stage.write env name x

mutual

/-- Runs a statement. -/
def exec (env : Environment) : Statement → Walk → Flow × Walk
  | .cond clauses, w => execClauses env clauses w
  | .say text, w => (.next, w.say text)
  | .option label guard body, w =>
    match w.allows env guard with
    | (.error fault, w) => (.failed fault, w)
    | (.ok true, w) => (.next, w.offerChoice ⟨label, guard, body⟩)
    | (.ok false, w) => (.next, w)
  | .assign name value, w =>
    match w.assign env name value with
    | .ok stage => (.next, { w with turn := { w.turn with stage } })
    | .error (.eval cause) => (.next, w.note (.skippedSet name (.eval cause)))
    | .error (.scope cause) => (.next, w.note (.skippedSet name (.scope cause)))
    | .error fault => (.failed fault, w)
  -- Picks are rolled when the statement is reached, and not when the gift is made.
  | .give item message, w =>
    let (line, dice) := w.dice.speak message
    (.next, ({ w with dice } : Walk).record (.give item line))
  | .spend amount, w => (.next, w.record (.spend amount))
  | .offer item, w => (.next, w.record (.offer item))
  | .finish none, w => (.ended, w)
  | .finish (some message), w => (.ended, w.say message)

/-- Runs the body of the first clause that is taken. -/
def execClauses (env : Environment) : List Clause → Walk → Flow × Walk
  | [], w => (.next, w)
  -- The walk may have noted something even if the clause is not taken.
  | .mk t body :: rest, w =>
    match w.holds env t with
    | (.error fault, w) => (.failed fault, w)
    | (.ok true, w) => execBody env body w
    | (.ok false, w) => execClauses env rest w

/-- Runs statements in order, up to the first that does not lead to the next. -/
def execBody (env : Environment) : List Statement → Walk → Flow × Walk
  | [], w => (.next, w)
  | s :: rest, w =>
    match exec env s w with
    | (.next, w) => execBody env rest w
    | (flow, w) => (flow, w)

end

/-- The start of a run in the name of a speaker, or of nobody. -/
def start (viewer : Option String) (dice : Dice) : Walk where
  turn := { stage := { viewer } }
  dice

/-- Runs a body from its start. The walk is answered also if the run failed. -/
def run (env : Environment) (viewer : Option String) (dice : Dice) (body : List Statement) :
    Except Fault Turn × Walk :=
  match execBody env body (start viewer dice) with
  | (.next, w) => (.ok w.turn, w)
  | (.ended, w) => (.ok { w.turn with ended := true }, w)
  | (.failed fault, w) => (.error fault, w)

end Walk

end Parley
