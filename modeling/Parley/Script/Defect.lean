import Parley.Text.Integer
import Parley.Value

/-!
# Script Defects

What can be wrong with the text of a script, and how it is reported: a defect, the position it was
found at if there is one, and the source that was read.
-/

namespace Parley

/-- A place in a script, both numbers counted from one. -/
structure Position where
  line : Nat
  /-- The column, counted in characters. -/
  column : Nat
  deriving DecidableEq, Inhabited

/-- What is wrong with a script. -/
inductive Defect
  /-- A closing parenthesis closes nothing. -/
  | unbalancedClose
  /-- A datum was asked for at the end of the text. -/
  | unexpectedEnd
  | unclosedList
  | unterminatedString
  /-- A body is an atom. -/
  | bodyExpected
  /-- A form is an atom or the empty list. -/
  | formExpected
  /-- A form starts with something else than a symbol. -/
  | formHead
  /-- No form or operator has this name. -/
  | unknownForm (name : String)
  /-- A reserved word that heads no statement heads one. -/
  | notStatement (name : String)
  | nestedOption
  /-- The amount of a purchase is not a non-negative integer. -/
  | spendAmount
  /-- The target of an assignment is not a variable name. -/
  | setTarget
  /-- A closing form has more than one message. -/
  | endMessages
  | noClause
  /-- A clause is not a pair of a test and a body. -/
  | clauseShape
  /-- A catch-all clause is followed by another clause. -/
  | elseNotLast
  /-- An option does not have two or three arguments. -/
  | optionShape
  /-- The template of an item is neither a usable symbol nor a non-empty string. -/
  | itemExpected
  /-- A form has the wrong count of arguments. -/
  | argumentCount (form : String) (expected actual : Nat)
  | noText
  /-- A text is neither a string nor a pick. -/
  | textExpected
  /-- A pick has no alternative. -/
  | noAlternative
  /-- An alternative of a pick is not a string. -/
  | alternativeExpected
  /-- A reserved word is used as a value. -/
  | notValue (name : String)
  | emptyExpression
  /-- An expression starts with something else than an operator. -/
  | expressionHead
  /-- A comparison does not have two operands. -/
  | comparisonOperands (operator : String)
  /-- A negation does not have one operand. -/
  | notOperands
  /-- A conjunction or disjunction has no operand. -/
  | noOperand (operator : String)
  /-- A reserved word that heads no expression heads one. -/
  | notExpression (name : String)
  /-- A word writes an integer that has more digits than a conversion takes. -/
  | tooManyDigits
  /-- More lists are open at once than the reader takes. -/
  | tooDeep
  /-- The file of the script could not be read, for the given reason. -/
  | unreadable (reason : String)
  /-- A variable is assigned that the manifest does not declare. -/
  | undeclaredSet (name : String)
  /-- A literal of another type than the declared one is assigned. -/
  | wrongLiteral (name : String) (declared : ValueType) (literal : Value)
  deriving DecidableEq, Inhabited

namespace Defect

/-- The wording of a defect. -/
def message : Defect → String
  | .unbalancedClose => "unbalanced ')'"
  | .unexpectedEnd => "unexpected end of script"
  | .unclosedList => "unbalanced '(': list is never closed"
  | .unterminatedString => "unterminated string"
  | .bodyExpected => "expected a form or a list of forms"
  | .formExpected => "expected a form"
  | .formHead => "form must start with a symbol"
  | .unknownForm name => "unknown form '" ++ name ++ "'"
  | .notStatement name => "'" ++ name ++ "' cannot be used as a statement"
  | .nestedOption => "option cannot appear inside another option"
  | .spendAmount => "spend takes a non-negative integer"
  | .setTarget => "set needs a variable name"
  | .endMessages => "end takes at most one message"
  | .noClause => "cond needs at least one clause"
  | .clauseShape => "cond clause must be a (test body) pair"
  | .elseNotLast => "else must be the last cond clause"
  | .optionShape => "option takes a label, an optional guard and a body"
  | .itemExpected => "expected an item template name"
  | .argumentCount form expected actual =>
    form ++ " takes " ++ toString expected ++ " argument" ++ (if expected = 1 then "" else "s") ++
      ", got " ++ toString actual
  | .noText => "say needs some text"
  | .textExpected => "expected a string or (pick ...)"
  | .noAlternative => "pick needs at least one alternative"
  | .alternativeExpected => "pick alternatives must be strings"
  | .notValue name => "'" ++ name ++ "' is not a value"
  | .emptyExpression => "empty expression"
  | .expressionHead => "expression must start with an operator"
  | .comparisonOperands operator => "'" ++ operator ++ "' compares exactly two values"
  | .notOperands => "not takes exactly one operand"
  | .noOperand operator => operator ++ " needs at least one operand"
  | .notExpression name => "'" ++ name ++ "' cannot be used as an expression"
  | .tooManyDigits => Text.TooManyDigits.message {}
  | .tooDeep => "lists are nested too deep"
  | .unreadable reason => "cannot read script: " ++ reason
  | .undeclaredSet name => "set of undeclared variable " ++ name
  | .wrongLiteral name declared literal =>
    name ++ " is declared " ++ declared.name ++ ", got " ++ literal.display

/-- Whether a limit of the reader is exceeded. No report is made of that: it ends whatever asked for
the script to be read. -/
def isLimit : Defect → Bool
  | .tooManyDigits => true
  | .tooDeep => true
  | _ => false

end Defect

/-- A defect at its place in a text. -/
structure Flaw where
  position : Position
  defect : Defect
  deriving DecidableEq, Inhabited

/-- The report of a defective script. -/
structure ParseError where
  /-- Where the script was read from. -/
  source : String
  /-- The place of the defect in the text, if it has one. -/
  position : Option Position
  defect : Defect
  deriving DecidableEq, Inhabited

namespace ParseError

/-- The report of a flaw in the text read from a source. -/
def ofFlaw (source : String) (flaw : Flaw) : ParseError :=
  ⟨source, some flaw.position, flaw.defect⟩

/-- The source with the place inside it. -/
def location (e : ParseError) : String :=
  match e.position with
  | some p => e.source ++ ":" ++ toString p.line ++ ":" ++ toString p.column
  | none => e.source

/-- The wording of a report. -/
def message (e : ParseError) : String :=
  e.location ++ ": " ++ e.defect.message

end ParseError

end Parley
