import Parley.State.Environment

/-!
# Quest State as Documents

The JSON form of quest state: lists of names with their values, in the order in which the state holds
them, because an object does not say an order.
-/

namespace Parley

/-- The document for named script values. -/
def Value.pairsJson (pairs : List (String × Value)) : Json :=
  .list (pairs.map fun p => .list [.str p.1, p.2.toJson])

namespace Variables

/-- The document for the variables of one owner. -/
def toJson (m : Variables) : Json :=
  .list (m.entries.map fun e => .list [.str e.1, e.2.toJson])

/-- The variables of a list of names with their values; anything else in the list is passed over. -/
def ofJson (document : Json) : Variables :=
  .ofList ((document.items?.getD []).filterMap fun
    | .list [.str name, value] => some (name, .ofJson value)
    | _ => none)

end Variables

/-- The document for both scopes of quest state. -/
def Environment.toJson (env : Environment) : Json :=
  .object [("global", env.globals.toJson),
    ("speakers", .list (env.speakers.entries.map fun e => .list [.str e.1, e.2.toJson]))]

/-- Both scopes of quest state, from the fields for the globals and for the speakers. A scope without
its field is empty. -/
def Snapshot.ofJson (document : Json) : Snapshot where
  globals := .ofJson ((document.field? "globals").getD .null)
  speakers := .ofList ((((document.field? "speakers").bind Json.items?).getD []).filterMap fun
    | .list [.str npc, own] => some (npc, .ofJson own)
    | _ => none)

end Parley
