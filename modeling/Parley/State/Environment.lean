import Parley.State.Fault
import Parley.State.Manifest

/-!
# Quest State

All state that scripts can see: one map of global variables, and one map for each speaker. Reads
and writes are made from the view of one speaker, or of nobody, and the manifest decides which map
a name belongs to.

A read falls back to the declared initial value. An undeclared name is looked up among the global
variables only, where restored state may hold it, and is unset if it is not there. A write is
checked first, and a refused write changes nothing.
-/

namespace Parley

/-- The variables of one owner. -/
abbrev Variables := OrderedMap Stored

/-- The quest state. -/
structure Environment where
  /-- The declarations that reads and writes follow. -/
  manifest : Manifest
  globals : Variables := .empty
  /-- The variables of each speaker that has any, or had. -/
  speakers : OrderedMap Variables := .empty
  deriving Inhabited

/-- Both scopes of quest state, without the declarations. -/
structure Snapshot where
  globals : Variables
  speakers : OrderedMap Variables
  deriving Inhabited

/-- Whether a declaration admits a value. -/
def Declaration.accepts (d : Declaration) : Stored → Except Fault Bool
  | .foreign document => .error (.notValue document)
  | .value v => .ok (v.type = d.type)

namespace Environment

/-- The variables of a speaker, none if it has no entry. -/
def speakerVariables (env : Environment) (npc : String) : Variables :=
  (env.speakers.get? npc).getD .empty

/-- The state with an entry for a speaker, which stays empty if it is new. -/
def withSpeaker (env : Environment) (npc : String) : Environment :=
  { env with speakers := env.speakers.insert npc (env.speakerVariables npc) }

/-- The value of a variable as seen by a speaker, or by nobody. -/
def lookup (env : Environment) (viewer : Option String) (name : String) : Option Stored :=
  match env.manifest.get? name with
  -- Restored state may hold names that the manifest does not declare.
  | none => env.globals.get? name
  | some d =>
    match d.scope, viewer with
    | .global, _ => some ((env.globals.get? name).getD d.initial)
    -- Where nobody speaks only the initial value can be seen.
    | .speaker, none => some d.initial
    | .speaker, some npc => some (((env.speakerVariables npc).get? name).getD d.initial)

/-- The declaration that allows a write and the value to be written. -/
def checkWrite (env : Environment) (viewer : Option String) (name : String) (x : Stored) :
    Except Fault (Declaration × Value) :=
  match env.manifest.get? name with
  | none => .error (.scope ⟨name, .undeclared⟩)
  | some d =>
    match x with
    | .foreign document => .error (.notValue document)
    | .value v =>
      -- The type comes before the speaker: of two reasons the first is given.
      if v.type ≠ d.type then .error (.scope ⟨name, .wrongType d.type v⟩)
      else if d.scope = .speaker ∧ viewer = none then .error (.scope ⟨name, .noSpeaker⟩)
      else .ok (d, v)

/-- The state with a value put where a declaration says. -/
def store (env : Environment) (viewer : Option String) (d : Declaration) (name : String)
    (v : Value) : Environment :=
  match d.scope, viewer with
  | .global, _ => { env with globals := env.globals.insert name (.value v) }
  | .speaker, some npc =>
    { env with
      speakers := env.speakers.insert npc ((env.speakerVariables npc).insert name (.value v)) }
  -- The check has refused such a write.
  | .speaker, none => env

/-- The state after a write, if the write is allowed. -/
def write (env : Environment) (viewer : Option String) (name : String) (x : Stored) :
    Except Fault Environment :=
  match env.checkWrite viewer name x with
  | .error fault => .error fault
  | .ok (d, v) => .ok (env.store viewer d name v)

/-- The state without a speaker's entry. -/
def forget (env : Environment) (npc : String) : Environment :=
  { env with speakers := env.speakers.erase npc }

/-- Both scopes. -/
def snapshot (env : Environment) : Snapshot :=
  ⟨env.globals, env.speakers⟩

/-- The state with both scopes replaced, unchecked. -/
def restore (env : Environment) (s : Snapshot) : Environment :=
  { env with globals := s.globals, speakers := s.speakers }

@[simp]
theorem snapshot_restore (env : Environment) (s : Snapshot) : (env.restore s).snapshot = s := rfl

@[simp]
theorem restore_snapshot (env : Environment) : env.restore env.snapshot = env := rfl

end Environment

end Parley
