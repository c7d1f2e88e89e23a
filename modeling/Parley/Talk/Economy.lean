import Parley.Json.Size
import Parley.State.Environment

/-!
# Economies

Who holds the player's money and items. The wallet economy keeps the money in a global variable of
quest state and lists the items that change hands. The fixed economy answers the same to every
request and records the requests. Players are told apart by whatever the settings identify them by,
and answers are kept as they were given: any document says whether an offer is taken, by counting as
true or not, and money that is no number shows up where it is compared with a price. So does the money
of a wallet whose variable cannot be looked up.
-/

namespace Parley

/-- An item handed to a player. -/
structure Gift where
  /-- The speaker who gave it, if there is one. -/
  npc : Option String
  player : Json
  item : String
  deriving DecidableEq, Inhabited

/-- An economy whose money is a global variable. -/
structure Wallet where
  /-- The variable that holds the money: a document that is no text is no variable. -/
  variableKey : Json := .str "PLAYER_WALLET"
  /-- Whether the player takes every offer, or none. -/
  acceptsOffers : Json := .bool true
  given : List Gift := []
  offered : List String := []
  deriving DecidableEq, Inhabited

/-- A request made to an economy. -/
inductive Request
  | balance (player : Json)
  | spend (player : Json) (amount : Nat)
  | give (npc : Option String) (player : Json) (item message : String)
  | offer (item : String)
  deriving DecidableEq, Inhabited

/-- An economy that answers the same to every request. -/
structure FixedEconomy where
  /-- The money that every player has. -/
  balance : Json := .int 0
  /-- Whether payments succeed. -/
  pays : Bool := true
  acceptsOffers : Json := .bool true
  requests : List Request := []
  deriving DecidableEq, Inhabited

/-- An economy. -/
inductive Economy
  | wallet (wallet : Wallet)
  | fixed (fixed : FixedEconomy)
  deriving DecidableEq, Inhabited

namespace Wallet

/-- The name of the variable that holds the money, if there is one. -/
def variableName (w : Wallet) : Option String :=
  w.variableKey.str?

/-- The money in the wallet: whatever integer the variable holds, and zero if it holds none. -/
def balance (w : Wallet) (env : Environment) : Int :=
  match w.variableName.bind (env.lookup none) with
  | some (.value (.int n)) => n
  | _ => 0

/-- Takes money out of the wallet, if there is enough. The variable is written like any other. -/
def spend (w : Wallet) (env : Environment) (amount : Nat) : Except Fault Bool × Environment :=
  match w.variableName with
  | none => (.ok false, env)
  | some name =>
    if w.balance env < amount then (.ok false, env)
    else
      match env.write none name (.value (.int (w.balance env - amount))) with
      | .error fault => (.error fault, env)
      | .ok env => (.ok true, env)

end Wallet

namespace FixedEconomy

/-- The economy after a request. -/
def record (f : FixedEconomy) (request : Request) : FixedEconomy :=
  { f with requests := f.requests ++ [request] }

end FixedEconomy

namespace Economy

/-- The money of a player. -/
def balance (economy : Economy) (env : Environment) (player : Json) : Json × Economy :=
  match economy with
  | .wallet w => (if w.variableKey.isKey then .int (w.balance env) else .null, .wallet w)
  | .fixed f => (f.balance, .fixed (f.record (.balance player)))

/-- Makes a player pay; the answer says whether money was taken. -/
def spend (economy : Economy) (env : Environment) (player : Json) (amount : Nat) :
    Except Fault Bool × Environment × Economy :=
  match economy with
  | .wallet w =>
    let (answer, env) := w.spend env amount
    (answer, env, .wallet w)
  | .fixed f => (.ok f.pays, env, .fixed (f.record (.spend player amount)))

/-- Hands an item to a player, with a message. -/
def give (economy : Economy) (npc : Option String) (player : Json) (item message : String) :
    Economy :=
  match economy with
  | .wallet w => .wallet { w with given := w.given ++ [⟨npc, player, item⟩] }
  | .fixed f => .fixed (f.record (.give npc player item message))

/-- Offers an item; the answer says whether the offer is taken. -/
def offer (economy : Economy) (item : String) : Json × Economy :=
  match economy with
  | .wallet w => (w.acceptsOffers, .wallet { w with offered := w.offered ++ [item] })
  | .fixed f => (f.acceptsOffers, .fixed (f.record (.offer item)))

end Economy

end Parley
