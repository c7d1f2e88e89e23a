import Parley.Script.Reader
import Parley.Script.Syntax

/-!
# Parsing Scripts

Script data become expressions, phrases and statements. The symbol at the head of a list selects
its form, and every shape is checked once, so that a script that parses can be run without checking
shapes again. Every flaw lies at the position of a datum.
-/

namespace Parley

/-- The forms that can be statements. -/
inductive Form
  | cond
  | say
  | option
  | give
  | assign
  | spend
  | offer
  | finish
  deriving DecidableEq, Inhabited

namespace Form

/-- The word that heads a form. -/
def name : Form → String
  | .cond => "cond"
  | .say => "say"
  | .option => "option"
  | .give => "give"
  | .assign => "set"
  | .spend => "spend"
  | .offer => "offer"
  | .finish => "end"

/-- The form headed by a word. -/
def ofName? : String → Option Form
  | "cond" => some .cond
  | "say" => some .say
  | "option" => some .option
  | "give" => some .give
  | "set" => some .assign
  | "spend" => some .spend
  | "offer" => some .offer
  | "end" => some .finish
  | _ => none

@[simp]
theorem ofName?_name (form : Form) : ofName? form.name = some form := by
  cases form <;> rfl

end Form

/-- The words that cannot name variables. -/
def isReserved (name : String) : Bool :=
  (Form.ofName? name).isSome || name == "else" || name == "pick" ||
    (Comparison.ofName? name).isSome || (Connective.ofName? name).isSome

/-- The truth value written by a word. -/
def truthWord? : String → Option Bool
  | "true" => some true
  | "false" => some false
  | _ => none

namespace Expr

/-- The expression written by a symbol. -/
def ofSymbol (name : String) (position : Position) : Except Flaw Expr :=
  match truthWord? name with
  | some b => .ok (.literal (.bool b))
  | none =>
    if isReserved name then .error ⟨position, .notValue name⟩
    else .ok (.var name)

mutual

/-- The expression written by a datum. -/
def ofDatum : Datum → Except Flaw Expr
  | .int n _ => .ok (.literal (.int n))
  | .str s _ => .ok (.literal (.str s))
  | .symbol name position => ofSymbol name position
  | .list [] position => .error ⟨position, .emptyExpression⟩
  | .list (.symbol name headPosition :: args) position =>
    match Comparison.ofName? name with
    | some op =>
      match args with
      | [left, right] => do
        let left ← ofDatum left
        let right ← ofDatum right
        .ok (.compare op left right)
      | _ => .error ⟨position, .comparisonOperands name⟩
    | none =>
      match Connective.ofName? name with
      | some op =>
        -- Negation reports a missing operand as a wrong count.
        if op = .not ∧ args.length ≠ 1 then .error ⟨position, .notOperands⟩
        else if args.isEmpty then .error ⟨position, .noOperand name⟩
        else do
          let operands ← ofData args
          .ok (.connect op operands)
      | none =>
        if isReserved name then .error ⟨headPosition, .notExpression name⟩
        else .error ⟨headPosition, .unknownForm name⟩
  | .list (_ :: _) position => .error ⟨position, .expressionHead⟩

/-- The expressions written by data. -/
def ofData : List Datum → Except Flaw (List Expr)
  | [] => .ok []
  | d :: rest => do
    let e ← ofDatum d
    let es ← ofData rest
    .ok (e :: es)

end

end Expr

namespace PhrasePart

/-- The alternatives of a pick. -/
def alternatives : List Datum → Except Flaw (List String)
  | [] => .ok []
  | .str s _ :: rest => (alternatives rest).map (s :: ·)
  | d :: _ => .error ⟨d.position, .alternativeExpected⟩

/-- The part of a text written by a datum: a string or a pick. -/
def ofDatum : Datum → Except Flaw PhrasePart
  | .str s _ => .ok (.run s)
  | .list (.symbol "pick" _ :: args) position =>
    if args.isEmpty then .error ⟨position, .noAlternative⟩
    else (alternatives args).map .pick
  | d => .error ⟨d.position, .textExpected⟩

end PhrasePart

namespace Phrase

/-- The phrase of the single part that a datum writes. -/
def ofDatum (d : Datum) : Except Flaw Phrase :=
  (PhrasePart.ofDatum d).map ([·])

/-- The phrase whose parts are written by data. -/
def ofData : List Datum → Except Flaw Phrase
  | [] => .ok []
  | d :: rest => do
    let part ← PhrasePart.ofDatum d
    let parts ← ofData rest
    .ok (part :: parts)

end Phrase

namespace Statement

/-- The name of an item template: a symbol that is no reserved word, or a non-empty string. -/
def itemOfDatum : Datum → Except Flaw String
  | .symbol name position =>
    if isReserved name then .error ⟨position, .itemExpected⟩ else .ok name
  | .str s position => if s = "" then .error ⟨position, .itemExpected⟩ else .ok s
  | d => .error ⟨d.position, .itemExpected⟩

/-- The name of the variable that an assignment writes. -/
def targetOfDatum : Datum → Except Flaw String
  | .symbol name position =>
    if isReserved name || (truthWord? name).isSome then .error ⟨position, .setTarget⟩ else .ok name
  | d => .error ⟨d.position, .setTarget⟩

/-- The amount of a charge. -/
def amountOfDatum : Datum → Except Flaw Nat
  | .int (.ofNat n) _ => .ok n
  | d => .error ⟨d.position, .spendAmount⟩

/-- The statement of a form that holds no other statements, from its arguments. -/
def ofSimpleForm (form : Form) (args : List Datum) (position : Position) :
    Except Flaw Statement :=
  match form, args with
  | .say, [] => .error ⟨position, .noText⟩
  | .say, args => (Phrase.ofData args).map .say
  | .give, [item, message] => do
    let item ← itemOfDatum item
    let message ← Phrase.ofDatum message
    .ok (.give item message)
  | .give, args => .error ⟨position, .argumentCount Form.give.name 2 args.length⟩
  | .offer, [item] => (itemOfDatum item).map .offer
  | .offer, args => .error ⟨position, .argumentCount Form.offer.name 1 args.length⟩
  | .spend, [amount] => (amountOfDatum amount).map .spend
  | .spend, args => .error ⟨position, .argumentCount Form.spend.name 1 args.length⟩
  | .assign, [target, value] => do
    let target ← targetOfDatum target
    let value ← Expr.ofDatum value
    .ok (.assign target value)
  | .assign, args => .error ⟨position, .argumentCount Form.assign.name 2 args.length⟩
  | .finish, [] => .ok (.finish none)
  | .finish, [message] => (Phrase.ofDatum message).map fun m => .finish (some m)
  | _, _ => .error ⟨position, .endMessages⟩

/-- The test written by a datum, which may be the catch-all only in the last clause. -/
def testOfDatum (isLast : Bool) : Datum → Except Flaw Test
  | .symbol "else" position =>
    if isLast then .ok .otherwise else .error ⟨position, .elseNotLast⟩
  | d => (Expr.ofDatum d).map .expr

mutual

/-- The body written by a datum: a single form, a list of forms, or the empty list for nothing. -/
def bodyOfDatum (inOption : Bool) : Datum → Except Flaw (List Statement)
  | .list [] _ => .ok []
  -- A list that starts with a list is a list of forms; any other one is a form itself.
  | .list (.list first firstPosition :: rest) _ => do
    let s ← ofDatum inOption (.list first firstPosition)
    let ss ← ofData inOption rest
    .ok (s :: ss)
  | .list items position => (ofItems inOption items position).map ([·])
  | d => .error ⟨d.position, .bodyExpected⟩

/-- The statement written by a datum. -/
def ofDatum (inOption : Bool) : Datum → Except Flaw Statement
  | .list [] position => .error ⟨position, .formExpected⟩
  | .list items position => ofItems inOption items position
  | d => .error ⟨d.position, .formExpected⟩

/-- The statements written by data. -/
def ofData (inOption : Bool) : List Datum → Except Flaw (List Statement)
  | [] => .ok []
  | d :: rest => do
    let s ← ofDatum inOption d
    let ss ← ofData inOption rest
    .ok (s :: ss)

/-- The statement written by the items of a list. -/
def ofItems (inOption : Bool) : List Datum → Position → Except Flaw Statement
  | .symbol name headPosition :: args, position =>
    match Form.ofName? name with
    | some .cond =>
      if args.isEmpty then .error ⟨position, .noClause⟩
      else (clausesOfData inOption args).map .cond
    | some .option =>
      -- Bodies of options are the only ones that cannot hold options.
      if inOption then .error ⟨headPosition, .nestedOption⟩
      else
        match args with
        | [label, body] => do
          let label ← Phrase.ofDatum label
          let body ← bodyOfDatum true body
          .ok (.option label none body)
        | [label, guard, body] => do
          -- The guard is read first, so that of two flaws the one in the guard is reported.
          let guard ← Expr.ofDatum guard
          let label ← Phrase.ofDatum label
          let body ← bodyOfDatum true body
          .ok (.option label (some guard) body)
        | _ => .error ⟨position, .optionShape⟩
    | some form => ofSimpleForm form args position
    | none =>
      if isReserved name then .error ⟨headPosition, .notStatement name⟩
      else .error ⟨headPosition, .unknownForm name⟩
  | _, position => .error ⟨position, .formHead⟩

/-- The clauses written by data. -/
def clausesOfData (inOption : Bool) : List Datum → Except Flaw (List Clause)
  | [] => .ok []
  | .list [test, body] _ :: rest => do
    -- Whether a catch-all comes too early is known from what follows.
    let test ← testOfDatum rest.isEmpty test
    let body ← bodyOfDatum inOption body
    let clauses ← clausesOfData inOption rest
    .ok (.mk test body :: clauses)
  | d :: _ => .error ⟨d.position, .clauseShape⟩

end

/-- The statements of a whole script, whose data are bodies. -/
def ofBodies : List Datum → Except Flaw (List Statement)
  | [] => .ok []
  | d :: rest => do
    let ss ← bodyOfDatum false d
    let more ← ofBodies rest
    .ok (ss ++ more)

end Statement

/-- The statements written by a text. -/
def Script.parseBody (text : String) (limits : Limits := .standard) :
    Except Flaw (List Statement) := do
  let data ← Datum.read text limits
  Statement.ofBodies data

/-- The script of an archetype written by a text. -/
def Script.parse (text archetype : String) (source : String := "<string>")
    (limits : Limits := .standard) : Except ParseError Script :=
  match Script.parseBody text limits with
  | .ok body => .ok ⟨archetype, body, source, none⟩
  | .error flaw => .error (.ofFlaw source flaw)

end Parley
