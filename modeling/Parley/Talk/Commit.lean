import Parley.Talk.Economy
import Parley.Talk.Lore
import Parley.Talk.Placeholder
import Parley.Talk.Turn

/-!
# Commits

Performing what a turn recorded. The sum of all charges is checked and paid first; if it cannot be
paid the turn is refused and nothing of it happens. Then the staged writes are made, and gifts and
offers are performed in the order in which they were recorded, up to the first that fails.
-/

namespace Parley

/-- The outcome of a commit. -/
inductive CommitResult
  /-- The turn happened, with these writes. -/
  | committed (written : List (String × Value))
  /-- The turn could not be paid for. -/
  | refused
  deriving Inhabited

/-- What a commit changes. -/
structure Scene where
  env : Environment
  economy : Option Economy
  events : List TalkEvent := []
  notices : List Notice := []
  deriving Inhabited

namespace Scene

/-- The scene with an event made known. -/
def publish (scene : Scene) (npc : Option String) (what : Happening) : Scene :=
  { scene with events := scene.events ++ [⟨npc, what⟩] }

/-- The scene with notices taken. -/
def noteAll (scene : Scene) (notices : List Notice) : Scene :=
  { scene with notices := scene.notices ++ notices }

/-- A text with its placeholders replaced; those that stand for nothing are noted. It fails if one of
them stands for something that is no text. -/
def substitute (scene : Scene) (lore : Option Lore) (text : String) :
    Except Fault String × Scene :=
  let meaning (token : String) := lore.bind fun l => l.resolve token
  let (shown, unresolved) :=
    Placeholder.substitute (fun token => (meaning token).map Json.shown) text
  -- A foreign meaning fails only where it is used, after what stands for nothing was noted.
  let isForeign (token : String) := (meaning token).any fun m => !m.isText
  (if (Placeholder.find text).any isForeign then .error .notText else .ok shown,
    scene.noteAll (unresolved.map Notice.unresolvedPlaceholder))

end Scene

/-- Who takes part in a commit, and whether its events are made known. -/
structure Parties where
  npc : Option String
  player : Json
  lore : Option Lore := none
  /-- Whether events are made known. -/
  publishes : Bool := true
  deriving Inhabited

namespace Parties

/-- The scene with an event made known, if events are. -/
def tell (p : Parties) (what : Happening) (scene : Scene) : Scene :=
  if p.publishes then scene.publish p.npc what else scene

/-- Makes the player pay for a turn. The answer says whether the player could. -/
def charge (p : Parties) (total : Nat) (scene : Scene) : Except Fault Bool × Scene :=
  match scene.economy with
  | none => (.ok false, scene)
  | some economy =>
    match economy.balance scene.env p.player with
    -- The balance is asked for before anything is spent, and a price that it equals can be paid.
    | (funds, economy) =>
      match funds.isBelow? total with
      | none => (.error .notNumber, { scene with economy := some economy })
      | some true => (.ok false, { scene with economy := some economy })
      | some false =>
        match economy.spend scene.env p.player total with
        | (answer, env, economy) => (answer, { scene with env, economy := some economy })

/-- Performs a gift or an offer; a charge was performed before. -/
def perform (p : Parties) (effect : Effect) (scene : Scene) : Except Fault Unit × Scene :=
  match effect, scene.economy with
  -- All charges were added up and paid at once.
  | .spend _, _ => (.ok (), scene)
  | .give _ _, none => (.ok (), scene.noteAll [.noEconomy "GIVE" p.npc])
  | .offer _, none => (.ok (), scene.noteAll [.noEconomy "OFFER" p.npc])
  | .give item message, some economy =>
    match scene.substitute p.lore message with
    | (.error fault, scene) => (.error fault, scene)
    | (.ok message, scene) =>
      (.ok (), p.tell (.itemGiven item)
        { scene with economy := some (economy.give p.npc p.player item message) })
  | .offer item, some economy =>
    match economy.offer item with
    | (accepted, economy) =>
      (.ok (), p.tell (.itemOffered item accepted) { scene with economy := some economy })

/-- Performs side effects in order, up to the first that fails. -/
def performAll (p : Parties) : List Effect → Scene → Except Fault Unit × Scene
  | [], scene => (.ok (), scene)
  | effect :: rest, scene =>
    match p.perform effect scene with
    | (.error fault, scene) => (.error fault, scene)
    | (.ok (), scene) => performAll p rest scene

/-- Makes the staged writes and performs gifts and offers. -/
def apply (p : Parties) (turn : Turn) (scene : Scene) :
    Except Fault CommitResult × Turn × Scene :=
  match turn.stage.commit scene.env with
  | (.error fault, env, stage) => (.error fault, { turn with stage }, { scene with env })
  | (.ok written, env, stage) =>
    -- Writes are made known in the order in which their names were first staged.
    let scene := written.foldl (fun scene w => p.tell (.variableSet w.1 w.2) scene)
      { scene with env }
    match p.performAll turn.effects scene with
    | (.error fault, scene) => (.error fault, { turn with stage }, scene)
    | (.ok (), scene) => (.ok (.committed written), { turn with stage }, scene)

/-- Commits a turn. The turn is answered with what is left on its stage. -/
def commit (p : Parties) (turn : Turn) (scene : Scene) :
    Except Fault CommitResult × Turn × Scene :=
  if turn.spendTotal = 0 then p.apply turn scene
  else
    match p.charge turn.spendTotal scene with
    | (.error fault, scene) => (.error fault, turn, scene)
    -- What was staged is thrown away, so that the turn cannot be committed again.
    | (.ok false, scene) =>
      (.ok .refused, { turn with stage := turn.stage.discard },
        p.tell (.purchaseRefused turn.spendTotal) scene)
    | (.ok true, scene) => p.apply turn (p.tell (.currencySpent turn.spendTotal) scene)

end Parties

end Parley
