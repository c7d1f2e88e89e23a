import Parley.Talk.Session

/-!
# Conversations as Documents

The JSON form of what a conversation leaves behind: events with their data, the requests made to
presenters and economies, and outcomes. Requests are lists that start with the word for what was asked.
-/

namespace Parley

/-- The data of what happened, by name. -/
def Happening.data : Happening → List (String × Json)
  | .sessionStarted archetype => [("archetype", .str archetype)]
  | .textPresented text => [("text", text)]
  | .menuPresented labels => [("options", .list (labels.map .str))]
  | .optionSelected index label => [("index", .int index), ("label", .str label)]
  | .sessionCancelled => []
  | .sessionClosed => []
  | .variableSet name value => [("name", .str name), ("value", value.toJson)]
  | .itemGiven item => [("item", .str item)]
  | .itemOffered item accepted => [("item", .str item), ("accepted", accepted)]
  | .currencySpent amount => [("amount", .int amount)]
  | .purchaseRefused amount => [("amount", .int amount)]

/-- The document for an identifier that may be missing. -/
def Json.ofName? (name : Option String) : Json :=
  (name.map Json.str).getD .null

/-- The document for an event: its name and its data. -/
def TalkEvent.toJson (e : TalkEvent) : Json :=
  .list [.str e.what.kind.name, .object (("npc_id", .ofName? e.npc) :: e.what.data)]

/-- The document for a request made to an economy. -/
def Request.toJson : Request → Json
  | .balance player => .list [.str "balance", player]
  | .spend player amount => .list [.str "spend", player, .int amount]
  | .give npc player item message =>
    .list [.str "give", .ofName? npc, player, .str item, .str message]
  | .offer item => .list [.str "offer", .str item]

/-- The document for an economy: what changed hands, or the requests. -/
def Economy.toJson : Economy → Json
  | .wallet w =>
    .object [("given", .list (w.given.map fun g =>
        .list [.ofName? g.npc, g.player, .str g.item])),
      ("offered", .list (w.offered.map .str))]
  | .fixed f => .object [("calls", .list (f.requests.map Request.toJson))]

/-- The document for the effect of a turn; what an effect does not have is empty. -/
def Effect.toJson : Effect → Json
  | .give item message => .list [.str "GIVE", .str item, .int 0, .str message]
  | .spend amount => .list [.str "SPEND", .str "", .int amount, .str ""]
  | .offer item => .list [.str "OFFER", .str item, .int 0, .str ""]

/-- The document for an entry of a menu. -/
def MenuEntry.toJson (e : MenuEntry) : Json :=
  .list [.int e.index, .str (String.ofList [e.key]), .str e.label]

/-- The document for an outcome. -/
def Outcome.toJson (o : Outcome) : Json :=
  .object [("texts", .list o.texts), ("menu", .list (o.menu.map MenuEntry.toJson)),
    ("chosen", (o.chosen.map fun n => Json.int n).getD .null), ("cancelled", .bool o.cancelled),
    ("refused", .bool o.refused)]

/-- The document for a request made to a presenter, in which phases are written as given. -/
def Presentation.toJson (phase : Phase → Json) : Presentation → Json
  | .text p shown => .list [.str "text", phase p, shown]
  | .menu p shown entries =>
    .list [.str "menu", phase p, shown, .list (entries.map MenuEntry.toJson)]
  | .confirm p prompt => .list [.str "confirm", phase p, .str prompt]

end Parley
