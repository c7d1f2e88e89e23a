import Parley.State.Environment

/-!
# Staged Writes

A stage collects writes in front of quest state. Reads through the stage see them at once, the state
itself only after a commit. A write is checked when it is staged and again when it is committed,
since the manifest may have changed in between; a commit that is refused halfway keeps the writes
made before, and its stage.
-/

namespace Parley

/-- Writes that have not reached quest state. -/
structure Stage where
  /-- Who writes. -/
  viewer : Option String
  /-- The values to be written, in the order in which their names were first staged. -/
  pending : OrderedMap Value := .empty
  deriving Inhabited

namespace Stage

/-- The value of a variable as seen through the stage. -/
def lookup (stage : Stage) (env : Environment) (name : String) : Option Stored :=
  match stage.pending.get? name with
  | some v => some (.value v)
  | none => env.lookup stage.viewer name

/-- The stage after a write, if the write is allowed. -/
def write (stage : Stage) (env : Environment) (name : String) (x : Stored) : Except Fault Stage :=
  match env.checkWrite stage.viewer name x with
  | .error fault => .error fault
  -- A name that is written again keeps its place in the order of the writes.
  | .ok (_, v) => .ok { stage with pending := stage.pending.insert name v }

/-- The stage without its writes. -/
def discard (stage : Stage) : Stage :=
  { stage with pending := .empty }

/-- Makes writes in order, up to the first that is refused. -/
def writeAll (viewer : Option String) (env : Environment) :
    List (String × Value) → Except Fault Unit × Environment
  | [] => (.ok (), env)
  | (name, v) :: rest =>
    match env.write viewer name (.value v) with
    | .error fault => (.error fault, env)
    | .ok env => writeAll viewer env rest

/-- Makes the staged writes in order. The answer lists them if none was refused, and then the stage
is empty afterwards. -/
def commit (stage : Stage) (env : Environment) :
    Except Fault (List (String × Value)) × Environment × Stage :=
  match writeAll stage.viewer env stage.pending.entries with
  | (.ok (), env) => (.ok stage.pending.entries, env, stage.discard)
  -- Writes made before the refused one stay made, and all of them stay staged.
  | (.error fault, env) => (.error fault, env, stage)

end Stage

end Parley
