import Parley.Record

/-!
# Lore

What placeholders stand for during a conversation. A lore context binds five standard tokens and any
further ones; an empty binding counts as none, and a further binding wins over a standard one. The
world may also answer tokens from a table of its own, where an empty text is an answer and null is
none. Any other answer of a table stands for its token too, but it cannot be put into a text.
-/

namespace Parley

/-- The bindings of one conversation. -/
structure LoreContext where
  npcName : String := ""
  playerName : String := ""
  townName : String := ""
  partnerName : String := ""
  /-- What the current quest is after. -/
  questTarget : String := ""
  /-- Further bindings by token. -/
  extra : OrderedMap String := .empty
  deriving DecidableEq, Inhabited

namespace LoreContext

/-- The tokens that every context knows. -/
def standardTokens : List String :=
  ["NPC_NAME", "PLAYER_NAME", "TOWN_NAME", "PARTNER_NAME", "QUEST_TARGET"]

/-- The fields of a lore record. -/
def rule : RecordRule :=
  { fields := [.ofText "npc_name", .ofText "player_name", .ofText "town_name",
      .ofText "partner_name", .ofText "quest_target", ⟨"extra", .mapOf .text, some (.object [])⟩]
    closed := true
    shared := ["STANDARD_TOKENS"]
    operations := ["bindings", "resolve", "known_tokens"] }

/-- The texts of an object of texts. -/
def texts (document : Json) : OrderedMap String :=
  .ofList ((document.fields?.getD []).filterMap fun f => f.2.str?.map fun s => (f.1, s))

/-- The context of a valid record. -/
def ofRecord (record : List (String × Json)) : LoreContext :=
  let text (name : String) := ((record.lookup name).bind Json.str?).getD ""
  { npcName := text "npc_name"
    playerName := text "player_name"
    townName := text "town_name"
    partnerName := text "partner_name"
    questTarget := text "quest_target"
    extra := texts ((record.lookup "extra").getD .null) }

/-- The context written by a document. -/
def ofJson (document : Json) (records : Validator := .standard) :
    Except RecordError LoreContext :=
  (records.build rule document).map ofRecord

/-- The standard bindings, empty ones included. -/
def standard (lore : LoreContext) : OrderedMap String :=
  .ofList (standardTokens.zip
    [lore.npcName, lore.playerName, lore.townName, lore.partnerName, lore.questTarget])

/-- All bindings that are not empty. -/
def bindings (lore : LoreContext) : List (String × String) :=
  (lore.extra.entries.foldl (fun m e => m.insert e.1 e.2) lore.standard).entries.filter fun e =>
    e.2 != ""

/-- What a token stands for. -/
def resolve (lore : LoreContext) (token : String) : Option String :=
  lore.bindings.lookup token

/-- The context with the speaker's name filled in where no name is given. -/
def withNpcName (lore : LoreContext) (name : String) : LoreContext :=
  if lore.npcName = "" then { lore with npcName := name } else lore

/-- What a document stands for as a token: nothing, unless it is a text. -/
def resolveKey (lore : LoreContext) (key : Json) : Except RecordError (Option String) :=
  if key.isKey then .ok (key.str?.bind lore.resolve) else .error .wrongKind

/-- The tokens that are accepted in scripts, given those accepted beside the standard ones. -/
def knownTokens (more : List String) : List String :=
  (standardTokens ++ more).foldr RecordRule.insertName []

/-- The known tokens, given documents beside the standard ones: those that are texts are tokens, and
all of them have to be documents that can be looked up. -/
def knownTokensWith (more : List Json) : Except RecordError (List String) :=
  if more.all Json.isKey then .ok (knownTokens (more.filterMap Json.str?)) else .error .wrongKind

end LoreContext

/-- Where the meaning of placeholders comes from. -/
inductive Lore
  | context (context : LoreContext)
  | table (answers : OrderedMap Json)
  deriving DecidableEq, Inhabited

namespace Lore

/-- What a token stands for. -/
def resolve : Lore → String → Option Json
  | .context c, token => (c.resolve token).map .str
  | .table answers, token => (answers.get? token).filter (· ≠ .null)

/-- The lore of a conversation: without any, an empty context; a context takes the speaker's name
where it has none of its own. -/
def forSpeaker (lore : Option Lore) (name : String) : Lore :=
  match lore with
  | none => .context (LoreContext.withNpcName {} name)
  | some (.context c) => .context (c.withNpcName name)
  | some (.table answers) => .table answers

end Lore

end Parley
