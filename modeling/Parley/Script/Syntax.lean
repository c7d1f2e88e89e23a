import Parley.Value

/-!
# Script Syntax

What a script says: expressions, phrases with random picks, and statements. A script is parsed once
for each archetype and then serves every conversation, so nothing in it changes.

`Expr.walk` and `Statement.walk` list everything inside an expression or body, outermost first.
-/

namespace Parley

/-- The comparisons. -/
inductive Comparison
  | eq
  | ne
  | gt
  | lt
  | ge
  | le
  deriving DecidableEq, Inhabited

namespace Comparison

/-- The operator as written in scripts. -/
def name : Comparison → String
  | .eq => "="
  | .ne => "!="
  | .gt => ">"
  | .lt => "<"
  | .ge => ">="
  | .le => "<="

/-- The comparison written by an operator. -/
def ofName? : String → Option Comparison
  | "=" => some .eq
  | "!=" => some .ne
  | ">" => some .gt
  | "<" => some .lt
  | ">=" => some .ge
  | "<=" => some .le
  | _ => none

/-- Whether a comparison asks for an order and not only for equality. -/
def isOrdering : Comparison → Bool
  | .eq => false
  | .ne => false
  | _ => true

@[simp]
theorem ofName?_name (op : Comparison) : ofName? op.name = some op := by
  cases op <;> rfl

end Comparison

/-- The logical connectives. -/
inductive Connective
  | and
  | or
  | not
  deriving DecidableEq, Inhabited

namespace Connective

/-- The connective as written in scripts. -/
def name : Connective → String
  | .and => "and"
  | .or => "or"
  | .not => "not"

/-- The connective written by a word. -/
def ofName? : String → Option Connective
  | "and" => some .and
  | "or" => some .or
  | "not" => some .not
  | _ => none

@[simp]
theorem ofName?_name (op : Connective) : ofName? op.name = some op := by
  cases op <;> rfl

end Connective

/-- Expressions over quest state. -/
inductive Expr
  /-- A value written in the script. -/
  | literal (value : Value)
  | var (name : String)
  | compare (op : Comparison) (left right : Expr)
  /-- A connective over truth values; a negation has exactly one operand. -/
  | connect (op : Connective) (operands : List Expr)
  deriving Inhabited

namespace Expr

mutual

/-- An expression and all expressions inside it. -/
def walk : Expr → List Expr
  | .compare op l r => .compare op l r :: (walk l ++ walk r)
  | .connect op operands => .connect op operands :: walkAll operands
  | e => [e]

/-- All expressions inside a list of expressions, these included. -/
def walkAll : List Expr → List Expr
  | [] => []
  | e :: rest => walk e ++ walkAll rest

end

/-- The variables read by an expression, in the order of their occurrence. -/
def reads (e : Expr) : List String :=
  e.walk.filterMap fun
    | .var name => some name
    | _ => none

end Expr

/-- A part of an authored text. -/
inductive PhrasePart
  | run (text : String)
  /-- One of several texts, chosen anew whenever the phrase is spoken. -/
  | pick (alternatives : List String)
  deriving DecidableEq, Inhabited

/-- An authored text. Its placeholders stay as written until it is shown. -/
abbrev Phrase := List PhrasePart

/-- The texts that an author wrote in a phrase, alternatives included. -/
def Phrase.literals (phrase : Phrase) : List String :=
  phrase.flatMap fun
    | .run text => [text]
    | .pick alternatives => alternatives

/-- The condition of a clause. -/
inductive Test
  /-- The clause is taken if the expression counts as true. -/
  | expr (e : Expr)
  /-- The clause is always taken. -/
  | otherwise
  deriving Inhabited

mutual

/-- The statements of a script. -/
inductive Statement
  /-- Run the first clause whose test holds. -/
  | cond (clauses : List Clause)
  | say (text : Phrase)
  /-- Offer the player an option, if the guard holds. -/
  | option (label : Phrase) (guard : Option Expr) (body : List Statement)
  | give (item : String) (message : Phrase)
  /-- Offer to take an item from the player. -/
  | offer (item : String)
  | spend (amount : Nat)
  | assign (name : String) (value : Expr)
  /-- Say something and stop. -/
  | finish (message : Option Phrase)

/-- A test with the body that it guards. -/
inductive Clause
  | mk (test : Test) (body : List Statement)

end

namespace Clause

/-- The test of a clause. -/
def test : Clause → Test
  | .mk t _ => t

/-- The body of a clause. -/
def body : Clause → List Statement
  | .mk _ b => b

end Clause

namespace Statement

instance : Inhabited Statement := ⟨.finish none⟩

mutual

/-- A statement and all statements inside it, option bodies included. -/
def walk : Statement → List Statement
  | .cond clauses => .cond clauses :: walkClauses clauses
  | .option label guard body => .option label guard body :: walkBody body
  | s => [s]

/-- All statements of the bodies of clauses. -/
def walkClauses : List Clause → List Statement
  | [] => []
  | .mk _ body :: rest => walkBody body ++ walkClauses rest

/-- All statements of a body, outermost first. -/
def walkBody : List Statement → List Statement
  | [] => []
  | s :: rest => walk s ++ walkBody rest

end

end Statement

/-- The dialogue script of an archetype. -/
structure Script where
  archetype : String
  /-- The statements run at the start of every conversation. -/
  body : List Statement
  /-- Where the script was read from. -/
  source : String := "<string>"
  /-- The line that is left of a script that failed to load, as the settings give it. -/
  fallback : Option Json := none
  deriving Inhabited

/-- Whether a script failed to load. -/
def Script.disabled (script : Script) : Bool :=
  script.fallback.isSome

/-- All statements of a script. -/
def Script.walk (script : Script) : List Statement :=
  Statement.walkBody script.body

end Parley
