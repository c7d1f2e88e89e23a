import Parley.State.Environment

/-!
# Adopted Manifests

Quest state that is given a manifest goes on to share it, so that later declarations on either side
are seen by both, but only if the manifest declares something when it is given. A manifest without
declarations is not adopted; the state then starts a manifest of its own.
-/

namespace Parley

/-- A manifest together with the quest state that it was given to. -/
structure Adoption where
  given : Manifest
  env : Environment
  /-- Whether the state shares the given manifest. -/
  shared : Bool
  deriving Inhabited

namespace Adoption

/-- New quest state given a manifest. -/
def start (m : Manifest) : Adoption :=
  ⟨m, { manifest := m }, m.size != 0⟩

/-- A declaration added to the given manifest. -/
def declareGiven (a : Adoption) (d : Declaration) : Adoption :=
  let m := a.given.declare d
  { a with given := m, env := if a.shared then { a.env with manifest := m } else a.env }

/-- A declaration added to the manifest of the quest state. -/
def declareOwn (a : Adoption) (d : Declaration) : Adoption :=
  let m := a.env.manifest.declare d
  { a with env := { a.env with manifest := m }, given := if a.shared then m else a.given }

end Adoption

end Parley
