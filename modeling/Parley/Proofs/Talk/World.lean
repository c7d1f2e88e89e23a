import Parley.Proofs.State.Stage
import Parley.Talk.Commit

/-!
# What Lasts of a Conversation

Of all that a scene holds, events and notices only tell what happened. What lasts is quest state and
the economy, the *world* of the scene. An economy changes by the requests that are made of it:

* `Economy.after e rs` is the economy `e` after the requests `rs`, and the operations of an economy
  leave just what their request leaves (`Economy.balance_snd`, `Economy.spend_snd`,
  `Economy.give_eq`, `Economy.offer_snd`);
* `Economy.given` and `Economy.offered` are the items that were handed over and offered, and they
  grow by the items of the requests (`Economy.given_after`, `Economy.offered_after`);
* a request for the balance or for a payment moves no item, and a payment that is not answered with
  yes leaves quest state alone (`Economy.spend_env_of_ne`).
-/

namespace Parley

/-- What lasts of a scene. -/
structure World where
  env : Environment
  economy : Option Economy

/-- Quest state with one declared variable, the money of the player. -/
def Environment.purse (money : Int) : Environment where
  manifest := Manifest.empty.declare (.make "PLAYER_WALLET" .global .int)
  globals := OrderedMap.empty.insert "PLAYER_WALLET" (.value (.int money))

/-- What lasts of a scene. -/
def Scene.world (scene : Scene) : World :=
  ⟨scene.env, scene.economy⟩

namespace Request

/-- The gift that a request asks for. -/
def gift? : Request → Option Gift
  | .give npc player item _ => some ⟨npc, player, item⟩
  | _ => none

/-- The item that a request offers. -/
def offer? : Request → Option String
  | .offer item => some item
  | _ => none

end Request

namespace Economy

/-- The gifts that were handed over so far. -/
def given : Economy → List Gift
  | .wallet w => w.given
  | .fixed f => f.requests.filterMap Request.gift?

/-- The items that were offered so far. -/
def offered : Economy → List String
  | .wallet w => w.offered
  | .fixed f => f.requests.filterMap Request.offer?

/-- The economy after requests. A wallet lists the items only; its money is quest state. -/
def after (economy : Economy) (requests : List Request) : Economy :=
  match economy with
  | .wallet w =>
    .wallet { w with
      given := w.given ++ requests.filterMap Request.gift?
      offered := w.offered ++ requests.filterMap Request.offer? }
  | .fixed f => .fixed { f with requests := f.requests ++ requests }

variable (economy : Economy) (env : Environment) (player : Json)

@[simp]
theorem after_nil : economy.after [] = economy := by
  cases economy <;> simp [after]

@[simp]
theorem after_after (first second : List Request) :
    (economy.after first).after second = economy.after (first ++ second) := by
  cases economy <;> simp [after]

@[simp]
theorem given_after (requests : List Request) :
    (economy.after requests).given = economy.given ++ requests.filterMap Request.gift? := by
  cases economy <;> simp [after, given]

@[simp]
theorem offered_after (requests : List Request) :
    (economy.after requests).offered = economy.offered ++ requests.filterMap Request.offer? := by
  cases economy <;> simp [after, offered]

/-- Asking for the balance leaves the request for it. -/
@[simp]
theorem balance_snd : (economy.balance env player).2 = economy.after [.balance player] := by
  cases economy with
  | wallet w => simp [balance, after, List.filterMap_cons, Request.gift?, Request.offer?]
  | fixed f => rfl

/-- The economy that pays leaves the request for the payment. -/
@[simp]
theorem spend_snd (amount : Nat) :
    (economy.spend env player amount).2.2 = economy.after [.spend player amount] := by
  cases economy with
  | wallet w => simp [spend, after, List.filterMap_cons, Request.gift?, Request.offer?]
  | fixed f => rfl

/-- What a payment does does not depend on the requests made before. -/
theorem spend_after (requests : List Request) (amount : Nat) :
    ((economy.after requests).spend env player amount).1 = (economy.spend env player amount).1 ∧
      ((economy.after requests).spend env player amount).2.1 =
        (economy.spend env player amount).2.1 := by
  cases economy <;> exact ⟨rfl, rfl⟩

/-- A gift leaves the request for it. -/
theorem give_eq (npc : Option String) (item message : String) :
    economy.give npc player item message = economy.after [.give npc player item message] := by
  cases economy with
  | wallet w => simp [give, after, List.filterMap_cons, Request.gift?, Request.offer?]
  | fixed f => rfl

/-- An offer leaves the request for it. -/
@[simp]
theorem offer_snd (item : String) : (economy.offer item).2 = economy.after [.offer item] := by
  cases economy with
  | wallet w => simp [offer, after, List.filterMap_cons, Request.gift?, Request.offer?]
  | fixed f => rfl

/-- A payment leaves the declarations alone. -/
theorem spend_manifest (amount : Nat) :
    (economy.spend env player amount).2.1.manifest = env.manifest := by
  cases economy with
  | fixed f => rfl
  | wallet w =>
    -- Only the last of the ways in which a payment can end writes, and a write keeps declarations.
    simp only [spend, Wallet.spend]
    split
    · rfl
    · split
      · rfl
      · split
        · rfl
        · next hwrite => exact Environment.write_manifest hwrite

/-- A payment that is not answered with yes leaves quest state alone. -/
theorem spend_env_of_ne {amount : Nat} (h : (economy.spend env player amount).1 ≠ .ok true) :
    (economy.spend env player amount).2.1 = env := by
  cases economy with
  | fixed f => rfl
  | wallet w =>
    -- The answer and quest state come out of the same cases: where the answer is not yes, nothing is
    -- written.
    revert h
    simp only [spend, Wallet.spend]
    split
    · intro _; rfl
    · split
      · intro _; rfl
      · split
        · intro _; rfl
        · exact fun h => absurd rfl h

end Economy

namespace World

/-- The gifts that were handed over so far. -/
def given (w : World) : List Gift :=
  (w.economy.map Economy.given).getD []

/-- The items that were offered so far. -/
def offered (w : World) : List String :=
  (w.economy.map Economy.offered).getD []

/-- One world follows another one with all variables kept and no item moved. -/
structure Kept (before after : World) : Prop where
  env : after.env = before.env
  given : after.given = before.given
  offered : after.offered = before.offered

theorem Kept.refl (w : World) : w.Kept w :=
  ⟨rfl, rfl, rfl⟩

/-- Requests that move no item keep the world. -/
theorem kept_after {w : World} {requests : List Request}
    (hgift : requests.filterMap Request.gift? = [])
    (hoffer : requests.filterMap Request.offer? = []) :
    w.Kept ⟨w.env, w.economy.map fun e => e.after requests⟩ := by
  obtain ⟨env, economy⟩ := w
  -- Without an economy there are no items at all.
  refine ⟨rfl, ?_, ?_⟩ <;> cases economy <;> simp [World.given, World.offered, hgift, hoffer]

end World

end Parley
