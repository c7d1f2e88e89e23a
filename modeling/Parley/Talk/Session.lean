import Parley.Talk.Commit
import Parley.Talk.Config
import Parley.Talk.Speaker

/-!
# Sessions

One conversation of the player with a speaker. It runs the script from its start, shows the text, and
if there are options shows a menu; the body of the chosen option is run and committed, and the
conversation is over. Cancelling, an answer that is no entry of the menu, and declining a purchase
leave it at what the start of the script did.

The presenter may fail at any request, and its fault then ends the session where it stands.

The lines that settings give are shown like texts of the script, whatever they are: a line that is no
text has no placeholders, and most of them cannot be searched for any, which is a fault.

A session is run once. What is to be remembered from one conversation to the next is in variables.
-/

namespace Parley

/-- How far a session has got. -/
inductive Phase
  | idle
  | presenting
  | awaitingChoice
  | resolving
  | closed
  deriving DecidableEq, Inhabited

/-- The name of a phase. -/
def Phase.name : Phase → String
  | .idle => "IDLE"
  | .presenting => "PRESENTING"
  | .awaitingChoice => "AWAITING_CHOICE"
  | .resolving => "RESOLVING"
  | .closed => "CLOSED"

/-- An entry of a menu. -/
structure MenuEntry where
  /-- The place in the menu, from zero. -/
  index : Nat
  key : Char
  label : String
  deriving DecidableEq, Inhabited

/-- What happened in a session. -/
structure Outcome where
  /-- The texts that were shown, or what settings gave for texts. -/
  texts : List Json := []
  menu : List MenuEntry := []
  chosen : Option Nat := none
  cancelled : Bool := false
  /-- Whether something could not be paid for. -/
  refused : Bool := false
  deriving DecidableEq, Inhabited

/-- An answer to a menu. -/
inductive MenuAnswer
  | cancel
  /-- The player answers something. -/
  | reply (document : Json)
  deriving Inhabited

/-- A write that is made while a menu is open. -/
structure MenuWrite where
  /-- The speaker in whose name it is made, or nobody. -/
  viewer : Option String
  name : String
  value : Stored
  deriving Inhabited

/-- A request made to a presenter, with the phase of the session at that time. -/
inductive Presentation
  | text (phase : Phase) (text : Json)
  | menu (phase : Phase) (text : Json) (entries : List MenuEntry)
  | confirm (phase : Phase) (prompt : String)
  deriving DecidableEq, Inhabited

/-- Who shows texts and menus to the player. -/
structure Presenter where
  /-- The answers to the next menus; after them every menu is cancelled. -/
  answers : List MenuAnswer := []
  /-- The answer to every question. -/
  confirms : Bool := true
  /-- The writes that are made while a menu is open. -/
  writes : List MenuWrite := []
  /-- The error that the last of the requests made so far fails with, if it fails. -/
  breaks : List Presentation → Option String := fun _ => none
  /-- What was shown so far. -/
  shown : List Presentation := []
  deriving Inhabited

/-- An answer to the last request, unless the presenter fails at it. -/
def Presenter.reply {α : Type} (p : Presenter) (answer : α) : Except Fault α :=
  match p.breaks p.shown with
  | some error => .error (.presenter error)
  | none => .ok answer

/-- A session with all that it works on. -/
structure Session where
  script : Script
  speaker : Speaker
  lore : Lore
  config : Config := {}
  /-- Whether the commits of the session make their events known. -/
  commitsPublish : Bool := true
  /-- How far the session has got. -/
  phase : Phase := .idle
  menu : List MenuEntry := []
  options : List Choice := []
  /-- What happened so far. -/
  outcome : Outcome := {}
  presenter : Presenter := {}
  dice : Dice
  /-- Quest state, economy, events and notices. -/
  scene : Scene

namespace Session

/-- The count of entries that a menu has room for, one for each letter. -/
def menuRoom : Nat := 26

/-- The key of the entry at a place. -/
def menuKey (index : Nat) : Char :=
  Char.ofNat ('a'.toNat + index)

/-- A new session. -/
def start (script : Script) (speaker : Speaker) (lore : Option Lore) (config : Config)
    (presenter : Presenter) (dice : Dice) (scene : Scene) : Session :=
  { script, speaker, lore := .forSpeaker lore speaker.name, config, presenter, dice, scene }

/-- The session with an event made known. -/
def publish (s : Session) (what : Happening) : Session :=
  { s with scene := s.scene.publish (some s.speaker.id) what }

/-- The session in another phase. -/
def enter (s : Session) (phase : Phase) : Session :=
  { s with phase }

/-- A text with its placeholders replaced. -/
def substitute (s : Session) (text : String) : Except Fault String × Session :=
  match s.scene.substitute (some s.lore) text with
  | (shown, scene) => (shown, { s with scene })

/-- Whether a document can be searched for placeholders and has no mark of them: a list without a mark
among its items, or an object without one among its names. -/
def isUnmarked : Json → Bool
  | .list items => !items.contains (.str "#")
  | .object fields => (fields.lookup "#").isNone
  | _ => false

/-- The line of a setting with its placeholders replaced. -/
def substituteLine (s : Session) (line : Json) : Except Fault Json × Session :=
  match line with
  | .str text =>
    match s.substitute text with
    | (shown, s) => (shown.map .str, s)
  -- Only texts can be searched for placeholders; the others pass if the search would not start.
  | line => (if isUnmarked line then .ok line else .error .notText, s)

/-- The session with a text noted as shown. -/
def showText (s : Session) (text : Json) : Session :=
  ({ s with outcome := { s.outcome with texts := s.outcome.texts ++ [text] } } : Session).publish
    (.textPresented text)

/-- The session after a request to the presenter. -/
def ask (s : Session) (request : Presentation) : Session :=
  { s with presenter := { s.presenter with shown := s.presenter.shown ++ [request] } }

/-- Presents a text. It counts as shown once the presenter has returned. -/
def present (s : Session) (text : Json) : Except Fault Unit × Session :=
  let s := s.ask (.text s.phase text)
  match s.presenter.reply () with
  | .error fault => (.error fault, s)
  | .ok () => (.ok (), s.showText text)

/-- The session at its end. -/
def close (s : Session) : Session :=
  ({ s with phase := .closed, menu := [], options := [] } : Session).publish .sessionClosed

/-- Presents a text and closes the session. -/
def presentLast (s : Session) (text : Json) : Except Fault Unit × Session :=
  match s.present text with
  | (.error fault, s) => (.error fault, s)
  | (.ok (), s) => (.ok (), s.close)

/-- Closes the session with a text, if there is one. -/
def closeWith (s : Session) (text : Json) : Except Fault Unit × Session :=
  if text.isTruthy then s.presentLast text else (.ok (), s.close)

/-- The session at its end, nothing having been chosen. -/
def cancel (s : Session) : Session :=
  (({ s with outcome := { s.outcome with cancelled := true } } : Session).publish
    .sessionCancelled).close

/-- Runs a body in the name of the speaker. -/
def runBody (s : Session) (body : List Statement) : Except Fault Turn × Session :=
  match Walk.run s.scene.env (some s.speaker.id) s.dice body with
  | (answer, w) => (answer, { s with dice := w.dice, scene := s.scene.noteAll w.notices })

/-- The parties of the session's commits. -/
def parties (s : Session) : Parties :=
  ⟨some s.speaker.id, s.config.playerId, some s.lore, s.commitsPublish⟩

/-- What is shown of a turn after its commit. -/
def shownText (s : Session) (turn : Turn) : CommitResult → Except Fault Json × Session
  | .refused =>
    ({ s with outcome := { s.outcome with refused := true } } : Session).substituteLine
      s.config.cannotAffordLine
  | .committed _ => s.substituteLine (.str turn.text)

/-- Commits a turn. The answer holds the text to be shown and the turn after the commit. -/
def commit (s : Session) (turn : Turn) : Except Fault (Json × Turn) × Session :=
  match s.parties.commit turn s.scene with
  | (.error fault, _, scene) => (.error fault, { s with scene })
  | (.ok result, turn, scene) =>
    match ({ s with scene } : Session).shownText turn result with
    | (text, s) => (text.map fun text => (text, turn), s)

/-- The menu entries for options, from a place on. -/
def entriesFor (s : Session) : Nat → List Choice → Except Fault (List MenuEntry) × Session
  | _, [] => (.ok [], s)
  | index, choice :: rest =>
    match s.dice.speak choice.label with
    | (label, dice) =>
      -- Labels are spoken in order, each with the dice that the one before it left.
      match ({ s with dice } : Session).substitute label with
      | (.error fault, s) => (.error fault, s)
      | (.ok label, s) =>
        match entriesFor s (index + 1) rest with
        | (.error fault, s) => (.error fault, s)
        | (.ok more, s) => (.ok (⟨index, menuKey index, label⟩ :: more), s)

/-- The session with a menu of options. Options for which there is no room are dropped. -/
def buildMenu (s : Session) (options : List Choice) : Except Fault Unit × Session :=
  let scene := if menuRoom < options.length
    then s.scene.noteAll [.menuTooLong s.script.archetype menuRoom] else s.scene
  -- Answers are places among the options that were kept.
  let kept := options.take menuRoom
  match ({ s with scene, options := kept } : Session).entriesFor 0 kept with
  | (.error fault, s) => (.error fault, s)
  | (.ok menu, s) => (.ok (), { s with menu, outcome := { s.outcome with menu } })

/-- Makes writes in order, up to the first that is refused. -/
def writeAll (env : Environment) : List MenuWrite → Except Fault Unit × Environment
  | [] => (.ok (), env)
  | w :: rest =>
    match env.write w.viewer w.name w.value with
    | .error fault => (.error fault, env)
    | .ok env => writeAll env rest

/-- Shows the menu and waits for the answer. -/
def presentMenu (s : Session) (text : Json) : Except Fault MenuAnswer × Session :=
  let s := s.ask (.menu s.phase text s.menu)
  -- The player takes time, and others may write meanwhile: the menu holds no lock on quest state.
  match writeAll s.scene.env s.presenter.writes with
  | (.error fault, env) => (.error fault, { s with scene := { s.scene with env } })
  | (.ok (), env) =>
    (s.presenter.reply (s.presenter.answers.headD .cancel),
      { s with
        scene := { s.scene with env }
        presenter := { s.presenter with answers := s.presenter.answers.tail } })

/-- The place in the menu that an answer chooses. -/
def chosenIndex? (s : Session) : MenuAnswer → Option Nat
  | .reply (.int (.ofNat n)) => if n < s.options.length then some n else none
  | _ => none

/-- Whether the player is asked before a turn is paid for. -/
def asksFor (s : Session) (turn : Turn) : Bool :=
  s.config.confirmPurchases.isTruthy && turn.spendTotal != 0

/-- Asks the player for consent to what a turn costs, where that is due and the price can be written. -/
def consult (s : Session) (turn : Turn) : Except Fault Bool × Session :=
  if s.asksFor turn then
    if Text.isOverlong (Text.ofInt turn.spendTotal) then (.error .tooManyDigits, s)
    else
      let s := s.ask (.confirm s.phase
        ("Spend " ++ toString turn.spendTotal ++ " " ++ s.config.currencyName.shown ++ "?"))
      (s.presenter.reply s.presenter.confirms, s)
  else (.ok true, s)

/-- Runs and commits the body of an option. -/
def resolve (s : Session) (index : Nat) (choice : Choice) : Except Fault Unit × Session :=
  let label := ((s.menu[index]?).map MenuEntry.label).getD ""
  let s := ({ s with outcome := { s.outcome with chosen := some index } } : Session).publish
    (.optionSelected index label)
  match s.runBody choice.body with
  | (.error fault, s) => (.error fault, s)
  | (.ok turn, s) =>
    match s.consult turn with
    | (.error fault, s) => (.error fault, s)
    -- Declining is no refusal: the session ends as if nothing had been chosen.
    | (.ok false, s) => (.ok (), s.cancel)
    | (.ok true, s) =>
      match (s.enter .resolving).commit turn with
      | (.error fault, s) => (.error fault, s)
      | (.ok (text, _), s) => s.closeWith text

/-- Acts on the answer to the menu. -/
def follow (s : Session) (answer : MenuAnswer) : Except Fault Unit × Session :=
  match s.chosenIndex? answer, answer with
  -- The place was checked already, and the options were not touched since.
  | some index, _ =>
    match s.options[index]? with
    | some choice => s.resolve index choice
    | none => (.ok (), s.cancel)
  | none, .cancel => (.ok (), s.cancel)
  | none, .reply document =>
    (.ok (), ({ s with scene := s.scene.noteAll [.invalidChoice document] } : Session).cancel)

/-- Shows the menu for the options of a turn and acts on the answer. -/
def offer (s : Session) (text : Json) (options : List Choice) : Except Fault Unit × Session :=
  match s.buildMenu options with
  | (.error fault, s) => (.error fault, s)
  | (.ok (), s) =>
    let s := s.enter .awaitingChoice
    let s := s.publish (.menuPresented (s.menu.map MenuEntry.label))
    let s := if text.isTruthy then s.showText text else s
    match s.presentMenu text with
    | (.error fault, s) => (.error fault, s)
    | (.ok answer, s) => s.follow answer

/-- The text that a turn closes with when it leads to no menu. If it has none, and neither ended nor
left anything, the player is turned away. -/
def closingText (s : Session) (text : Json) (turn : Turn) : Except Fault Json × Session :=
  if !text.isTruthy && !turn.ended && !turn.hasEffects then
    s.substituteLine s.config.turnAwayLine
  else (.ok text, s)

/-- Shows the text of a turn that leads to no menu. -/
def conclude (s : Session) (text : Json) (turn : Turn) : Except Fault Unit × Session :=
  match s.closingText text turn with
  | (.error fault, s) => (.error fault, s)
  | (.ok text, s) => s.closeWith text

/-- Runs a new session to its end. -/
def play (s : Session) : Except Fault Unit × Session :=
  let s := s.publish (.sessionStarted s.script.archetype)
  if s.script.disabled then (s.enter .presenting).presentLast s.config.fallbackLine
  else
    match s.runBody s.script.body with
    | (.error fault, s) => (.error fault, s)
    | (.ok turn, s) =>
      match s.commit turn with
      | (.error fault, s) => (.error fault, s)
      | (.ok (text, turn), s) =>
        let s := s.enter .presenting
        -- A refused root shows no menu, even if it gathered options.
        if turn.ended || turn.options.isEmpty || s.outcome.refused then
          s.conclude text turn
        else s.offer text turn.options

/-- Runs a session, unless it has been run before. -/
def run (s : Session) : Except Fault Unit × Session :=
  if s.phase = .idle then s.play else (.error (.alreadyRan s.speaker.id), s)

end Session

end Parley
