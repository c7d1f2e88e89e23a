import Parley.Script.Defect
import Parley.State.Fault
import Parley.Talk.Event

/-!
# Notices

What is logged: each notice names its cause, and its level and wording follow from that.
-/

namespace Parley

/-- How serious a notice is. -/
inductive Level
  | info
  | warning
  | error
  deriving DecidableEq, Inhabited

/-- The name of a level. -/
def Level.name : Level → String
  | .info => "INFO"
  | .warning => "WARNING"
  | .error => "ERROR"

/-- What is logged. -/
inductive Notice
  /-- A placeholder stands for nothing. -/
  | unresolvedPlaceholder (token : String)
  /-- An assignment was skipped. -/
  | skippedSet (name : String) (cause : Fault)
  /-- A test could not be evaluated and counts as false. -/
  | failedTest (cause : Fault)
  /-- There is nothing to perform an effect. -/
  | noEconomy (effect : String) (npc : Option String)
  /-- A menu has no room for all options. -/
  | menuTooLong (archetype : String) (room : Nat)
  /-- The player's answer is no entry of the menu. -/
  | invalidChoice (answer : Json)
  | manifestLoaded (count : Nat) (path : String)
  | manifestMissing (path : String)
  | directoryMissing (path : String)
  | scriptsLoaded (loaded disabled : Nat)
  | scriptDisabled (archetype : String) (error : ParseError)
  | scriptMissing (path : String)
  | archetypeMissing (archetype : String)
  /-- Two manifests declare different names. -/
  | manifestsDiffer (names : List String)
  | saveFailed (reason : String)
  | loadFailed (reason : String)
  | saveCorrupted (path : String)
  | metadataUnreadable (path reason : String)
  | deleteFailed (slot : Json) (reason : String)
  /-- A manifest cannot be used for a verification. -/
  | badManifest (path reason : String)
  | finding (level : Level) (text : String)
  | verificationFailed (issues scripts : Nat)
  | verified (scripts : Nat)
  | handlerFailed (kind : EventKind)

namespace Notice

/-- How serious a notice is. -/
def level : Notice → Level
  | .manifestLoaded .. => .info
  | .scriptsLoaded .. => .info
  | .verified _ => .info
  | .scriptDisabled .. => .error
  | .saveFailed _ => .error
  | .loadFailed _ => .error
  | .saveCorrupted _ => .error
  | .deleteFailed .. => .error
  | .badManifest .. => .error
  | .verificationFailed .. => .error
  | .handlerFailed _ => .error
  | .finding level _ => level
  | _ => .warning

/-- The wording of a notice. -/
def text : Notice → String
  | .unresolvedPlaceholder token => "Unresolved placeholder #" ++ token ++ " in dialogue text"
  | .skippedSet name cause => "Skipping (set " ++ name ++ " ...): " ++ cause.message
  | .failedTest cause => "Treating failed test as false: " ++ cause.message
  | .noEconomy effect npc =>
    "No economy to perform " ++ effect ++ " for " ++ ((npc.map Json.str).getD .null).shown
  | .menuTooLong archetype room =>
    archetype ++ " offers more than " ++ toString room ++ " options; extras dropped"
  | .invalidChoice answer =>
    "Presenter returned invalid menu index " ++ answer.display ++ "; cancelling"
  | .manifestLoaded count path =>
    "Loaded " ++ toString count ++ " variable declarations from " ++ path
  | .manifestMissing path =>
    "Scope manifest not found: " ++ path ++ "; every set will be rejected"
  | .directoryMissing path => "Dialogue directory not found: " ++ path
  | .scriptsLoaded loaded disabled =>
    "Loaded " ++ toString loaded ++ " dialogue scripts, " ++ toString disabled ++ " disabled."
  | .scriptDisabled archetype error =>
    "Dialogue script '" ++ archetype ++ "' disabled: " ++ error.message
  | .scriptMissing path => "Dialogue script not found: " ++ path
  | .archetypeMissing archetype => "No dialogue script for archetype '" ++ archetype ++ "'"
  | .manifestsDiffer names =>
    "Library and environment use different scope manifests: " ++
      (Json.list (names.map Json.str)).display
  | .saveFailed reason => "Save failed: " ++ reason
  | .loadFailed reason => "Load failed: " ++ reason
  | .saveCorrupted path => "Save file corrupted: checksum mismatch in " ++ path
  | .metadataUnreadable path reason => "Unreadable save metadata " ++ path ++ ": " ++ reason
  | .deleteFailed slot reason =>
    "Could not delete save slot " ++ slot.shown ++ ": " ++ reason
  | .badManifest path reason =>
    "VERIFICATION FAILED: bad scope manifest " ++ path ++ ": " ++ reason
  | .finding _ text => text
  | .verificationFailed issues scripts =>
    "VERIFICATION FAILED: " ++ toString issues ++ " issues in " ++ toString scripts ++ " scripts"
  | .verified scripts => "VERIFICATION SUCCESSFUL: " ++ toString scripts ++ " scripts checked."
  | .handlerFailed kind => "Error in event handler for DialogueEvent." ++ kind.name

end Notice

end Parley
