import Parley.Script.Datum
import Parley.Script.Syntax

/-!
# Scripts as Documents

The JSON form of script data and of parsed scripts, for tools that look at scripts without reading
them themselves. A datum is tagged by its kind and has its position; expressions and statements are
objects whose first field tells what they are.
-/

namespace Parley

/-- The line and the column of a position. -/
def Position.toJson (p : Position) : Json :=
  .list [.int p.line, .int p.column]

namespace Datum

mutual

/-- The document for a datum. -/
def toJson : Datum → Json
  | .symbol s p => .object [("sym", .str s), ("at", p.toJson)]
  | .int n p => .object [("int", .int n), ("at", p.toJson)]
  | .str s p => .object [("str", .str s), ("at", p.toJson)]
  | .list items p => .object [("list", .list (toJsons items)), ("at", p.toJson)]

/-- The documents for data. -/
def toJsons : List Datum → List Json
  | [] => []
  | d :: rest => toJson d :: toJsons rest

end

end Datum

namespace Expr

mutual

/-- The document for an expression. -/
def toJson : Expr → Json
  | .literal v => .object [("lit", v.toJson)]
  | .var n => .object [("var", .str n)]
  | .compare op l r => .object [("cmp", .str op.name), ("lhs", toJson l), ("rhs", toJson r)]
  | .connect op es => .object [("logic", .str op.name), ("args", .list (toJsons es))]

/-- The documents for expressions. -/
def toJsons : List Expr → List Json
  | [] => []
  | e :: rest => toJson e :: toJsons rest

end

/-- The word for the kind of an expression. -/
def kind : Expr → String
  | .literal _ => "lit"
  | .var _ => "var"
  | .compare .. => "cmp"
  | .connect .. => "logic"

end Expr

/-- The document for a part of an authored text. -/
def PhrasePart.toJson : PhrasePart → Json
  | .run s => .str s
  | .pick alternatives => .object [("pick", .list (alternatives.map .str))]

/-- The document for an authored text. -/
def Phrase.toJson (phrase : Phrase) : Json :=
  .list (phrase.map PhrasePart.toJson)

/-- The document for the test of a clause. -/
def Test.toJson : Test → Json
  | .expr e => e.toJson
  | .otherwise => .str "else"

namespace Statement

mutual

/-- The document for a statement. -/
def toJson : Statement → Json
  | .cond clauses => .object [("cond", .list (clauseJsons clauses))]
  | .say text => .object [("say", Phrase.toJson text)]
  | .option label guard body =>
    .object [("option", Phrase.toJson label), ("guard", (guard.map Expr.toJson).getD .null),
      ("body", .list (toJsons body))]
  | .give item message => .object [("give", .str item), ("message", Phrase.toJson message)]
  | .offer item => .object [("offer", .str item)]
  | .spend amount => .object [("spend", .int amount)]
  | .assign name value => .object [("set", .str name), ("value", value.toJson)]
  | .finish message => .object [("end", (message.map Phrase.toJson).getD .null)]

/-- The documents for clauses. -/
def clauseJsons : List Clause → List Json
  | [] => []
  | .mk t body :: rest =>
    .object [("test", t.toJson), ("body", .list (toJsons body))] :: clauseJsons rest

/-- The documents for the statements of a body. -/
def toJsons : List Statement → List Json
  | [] => []
  | s :: rest => toJson s :: toJsons rest

end

/-- The word for the kind of a statement. -/
def kind : Statement → String
  | .cond _ => "cond"
  | .say _ => "say"
  | .option .. => "option"
  | .give .. => "give"
  | .offer _ => "offer"
  | .spend _ => "spend"
  | .assign .. => "set"
  | .finish _ => "end"

end Statement

/-- The document for a script. What is left of a script that failed to load is written as a
statement that says its line. -/
def Script.toJson (s : Script) : Json :=
  let body := match s.fallback with
    | some line => [.object [("say", .list [line])]]
    | none => Statement.toJsons s.body
  .object [("archetype", .str s.archetype), ("source", .str s.source),
    ("disabled", .bool s.disabled), ("body", .list body)]

end Parley
