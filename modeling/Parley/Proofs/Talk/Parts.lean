import Parley.Talk.Session

/-!
# The Parts of a Session

A session starts, runs and commits its root, and then either closes with a text or opens a menu, whose
answer may choose an option that is run and committed in turn. Here these parts get names, and each
longer part is shown to be made of shorter ones, so that what is proved of the parts one by one can be
put together.
-/

namespace Parley.Session

/-- The session as it starts: it tells so. -/
def started (s : Session) : Session :=
  s.publish (.sessionStarted s.script.archetype)

/-- Runs the root and commits its turn. -/
def settleRoot (s : Session) : Except Fault (Json × Turn) × Session :=
  match s.runBody s.script.body with
  | (.error fault, s) => (.error fault, s)
  | (.ok turn, s) => s.commit turn

/-- Whether no menu follows a committed turn. -/
def isOver (s : Session) (turn : Turn) : Bool :=
  turn.ended || turn.options.isEmpty || s.outcome.refused

/-- Closes with the text of the root, or offers its options. -/
def proceed (s : Session) (text : Json) (turn : Turn) : Except Fault Unit × Session :=
  if s.isOver turn then s.conclude text turn else s.offer text turn.options

/-- The session whose script could not be loaded: it shows a line for it. -/
def fallBack (s : Session) : Except Fault Unit × Session :=
  (s.enter .presenting).presentLast s.config.fallbackLine

/-- The session with its menu opened: the entries are told of, and the text is shown. -/
def openMenu (s : Session) (text : Json) : Session :=
  let s := (s.enter .awaitingChoice).publish (.menuPresented (s.menu.map MenuEntry.label))
  if text.isTruthy then s.showText text else s

/-- The session with an option chosen. -/
def choose (s : Session) (index : Nat) : Session :=
  ({ s with outcome := { s.outcome with chosen := some index } } : Session).publish
    (.optionSelected index (((s.menu[index]?).map MenuEntry.label).getD ""))

/-- Commits the turn of the chosen option and closes with its text. -/
def settle (s : Session) (turn : Turn) : Except Fault Unit × Session :=
  match (s.enter .resolving).commit turn with
  | (.error fault, s) => (.error fault, s)
  | (.ok (text, _), s) => s.closeWith text

/-- Runs a body and commits its turn, unless the player does not agree to pay for it. -/
def execute (s : Session) (body : List Statement) : Except Fault Unit × Session :=
  match s.runBody body with
  | (.error fault, s) => (.error fault, s)
  | (.ok turn, s) =>
    match s.consult turn with
    | (.error fault, s) => (.error fault, s)
    | (.ok false, s) => (.ok (), s.cancel)
    | (.ok true, s) => s.settle turn

variable (s : Session)

theorem conclude_eq (text : Json) (turn : Turn) :
    s.conclude text turn =
      match s.closingText text turn with
      | (.error fault, s) => (.error fault, s)
      | (.ok text, s) => s.closeWith text := rfl

theorem resolve_eq (index : Nat) (choice : Choice) :
    s.resolve index choice = (s.choose index).execute choice.body := rfl

theorem offer_eq (text : Json) (options : List Choice) :
    s.offer text options =
      match s.buildMenu options with
      | (.error fault, s) => (.error fault, s)
      | (.ok (), s) =>
        match (s.openMenu text).presentMenu text with
        | (.error fault, s) => (.error fault, s)
        | (.ok answer, s) => s.follow answer := rfl

theorem play_eq :
    s.play =
      if s.script.disabled then s.started.fallBack
      else
        match s.started.settleRoot with
        | (.error fault, s) => (.error fault, s)
        | (.ok (text, turn), s) => (s.enter .presenting).proceed text turn := by
  have hplay : s.play =
      if s.script.disabled then s.started.fallBack
      else
        match s.started.runBody s.script.body with
        | (.error fault, s) => (.error fault, s)
        | (.ok turn, s) =>
          match s.commit turn with
          | (.error fault, s) => (.error fault, s)
          | (.ok (text, turn), s) => (s.enter .presenting).proceed text turn := rfl
  rw [hplay, settleRoot, show s.started.script = s.script from rfl]
  -- the run of the root may fail, and then its commit is not tried
  rcases s.started.runBody s.script.body with ⟨_ | turn, ran⟩ <;> rfl

variable {s}

/-- A script that could not be loaded is not run. -/
theorem play_of_disabled (h : s.script.disabled = true) : s.play = s.started.fallBack := by
  rw [play_eq, if_pos h]

/-- A script that was loaded is run from its root. -/
theorem play_of_enabled (h : s.script.disabled = false) :
    s.play =
      match s.started.settleRoot with
      | (.error fault, s) => (.error fault, s)
      | (.ok (text, turn), s) => (s.enter .presenting).proceed text turn := by
  rw [play_eq, if_neg (by simp [h])]

theorem run_of_idle (h : s.phase = .idle) : s.run = s.play :=
  if_pos h

/-- A session that was run is not run again. -/
theorem run_of_not_idle (h : s.phase ≠ .idle) :
    s.run = (.error (.alreadyRan s.speaker.id), s) :=
  if_neg h

end Parley.Session
