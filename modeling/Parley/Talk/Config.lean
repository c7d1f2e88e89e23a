import Parley.Files.Path
import Parley.Json.Writer

/-!
# Configuration

Where scripts are found and what is said when a script says nothing. All settings have defaults.

Only the paths are looked at when settings are made. The others are kept as they are given, and
something that is no text shows up where it is used: in an answer, or as a fault.
-/

namespace Parley

/-- The settings of script loading and conversations. -/
structure Config where
  scriptDir : String := "game/data/dialogue"
  /-- The end of the names of script files. -/
  scriptExtension : Json := .str ".dlg"
  manifestPath : String := "game/data/dialogue/scopes.json"
  /-- The seed of the random choices, which is only kept. -/
  seed : Json := .null
  playerId : Json := .str "player"
  /-- What is said by those whose script is broken. -/
  fallbackLine : Json := .str "..."
  /-- What is said when nothing was said and nothing happened. -/
  turnAwayLine : Json := .str "#NPC_NAME turns away from you."
  /-- What is said when the player cannot pay. -/
  cannotAffordLine : Json := .str "You can't afford that."
  currencyName : Json := .str "zorkmids"
  /-- Whether the player is asked before money is spent. -/
  confirmPurchases : Json := .bool false
  deriving Inhabited

namespace Config

/-- The names of the settings. -/
def settings : List String :=
  ["script_dir", "script_extension", "manifest_path", "rng_seed", "player_id", "fallback_line",
    "turn_away_line", "cannot_afford_line", "currency_name", "confirm_purchases"]

/-- The directory of the scripts that settings name, if it is a text. -/
def scriptDirOf? (fields : List (String × Json)) : Option String :=
  (((fields.lookup "script_dir").getD (.str ({} : Config).scriptDir)).str?).map Path.normalize

/-- The manifest file that settings name, if it is a text. The manifest lies beside the scripts unless
its path is given. -/
def manifestPathOf? (fields : List (String × Json)) (scriptDir : String) : Option String :=
  match (fields.lookup "manifest_path").getD .null with
  | .str path =>
    some (if path = "" then Path.join scriptDir "scopes.json" else Path.normalize path)
  | given => if given.isTruthy then none else some (Path.join scriptDir "scopes.json")

/-- The settings with the given ones changed, or nothing if a setting is unknown or a path is no
text. -/
def ofFields? (fields : List (String × Json)) : Option Config := do
  guard (fields.all fun f => settings.contains f.1)
  let scriptDir ← scriptDirOf? fields
  let manifestPath ← manifestPathOf? fields scriptDir
  let defaults : Config := {}
  let given (name : String) (default : Json) := (fields.lookup name).getD default
  some
    { scriptDir
      manifestPath
      scriptExtension := given "script_extension" defaults.scriptExtension
      seed := given "rng_seed" defaults.seed
      playerId := given "player_id" defaults.playerId
      fallbackLine := given "fallback_line" defaults.fallbackLine
      turnAwayLine := given "turn_away_line" defaults.turnAwayLine
      cannotAffordLine := given "cannot_afford_line" defaults.cannotAffordLine
      currencyName := given "currency_name" defaults.currencyName
      confirmPurchases := given "confirm_purchases" defaults.confirmPurchases }

/-- The settings written by a document, which has to be an object. -/
def ofJson? (document : Json) : Option Config :=
  document.fields?.bind ofFields?

/-- The document that lists all settings. -/
def toJson (c : Config) : Json :=
  .object [("script_dir", .str c.scriptDir), ("script_extension", c.scriptExtension),
    ("manifest_path", .str c.manifestPath), ("rng_seed", c.seed), ("player_id", c.playerId),
    ("fallback_line", c.fallbackLine), ("turn_away_line", c.turnAwayLine),
    ("cannot_afford_line", c.cannotAffordLine), ("currency_name", c.currencyName),
    ("confirm_purchases", c.confirmPurchases)]

/-- Whether random choices can be made from the seed. -/
def hasSeed (c : Config) : Bool :=
  c.seed.isKey

end Config

end Parley
