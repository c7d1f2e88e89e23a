import Parley.Library.Basic
import Parley.Talk.Session

/-!
# Talking from a Library

Starting conversations with speakers whose scripts come from a library. The library and the quest
state may follow different manifests; this is noted once.
-/

namespace Parley.Library

/-- The names that are declared on one side only. -/
def manifestDifference (a b : Manifest) : List String :=
  sortNames ((a.names.filter fun n => !b.contains n) ++ (b.names.filter fun n => !a.contains n))

/-- What is noted when a library is used with quest state. -/
def compareManifests (lib : Library) (env : Environment) : List Notice :=
  match manifestDifference lib.manifest env.manifest with
  | [] => []
  | names => [.manifestsDiffer names]

/-- A session with a speaker, if there is a script for its archetype. -/
def startSession (lib : Library) (tree : FileTree) (speaker : Speaker) (lore : Option Lore)
    (config : Config) (presenter : Presenter) (dice : Dice) (scene : Scene) :
    Except LibraryFault (Library × Option Session × List Notice) :=
  match lib.get tree speaker.archetype with
  | .error fault => .error fault
  | .ok (lib, none, notices) => .ok (lib, none, notices ++ [.archetypeMissing speaker.archetype])
  | .ok (lib, some script, notices) =>
    .ok (lib, some (Session.start script speaker lore config presenter dice scene), notices)

/-- Runs a session with a speaker. The session is answered as it ended, with the fault if one ended
it; there is none without a script. -/
def talk (lib : Library) (tree : FileTree) (speaker : Speaker) (lore : Option Lore)
    (config : Config) (presenter : Presenter) (dice : Dice) (scene : Scene) :
    Except LibraryFault (Library × Option (Except Fault Unit × Session) × List Notice) :=
  (lib.startSession tree speaker lore config presenter dice scene).map fun
    (lib, session, notices) => (lib, session.map Session.run, notices)

end Parley.Library
