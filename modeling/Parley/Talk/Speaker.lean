import Parley.Record

/-!
# Speakers

Somebody who can be talked to: one individual of an archetype. All individuals of an archetype share
its script, and each has variables of its own.
-/

namespace Parley

/-- An individual that can be talked to. -/
structure Speaker where
  /-- The identifier that its variables are kept under. -/
  id : String
  archetype : String
  /-- The name it is shown under, possibly empty. -/
  name : String := ""
  deriving DecidableEq, Inhabited

namespace Speaker

/-- The fields of a speaker's record. -/
def rule : RecordRule :=
  { fields := [⟨"npc_id", .text, none⟩, ⟨"archetype", .text, none⟩, .ofText "name"]
    closed := true }

/-- The speaker of a valid record. -/
def ofRecord (record : List (String × Json)) : Speaker where
  id := ((record.lookup "npc_id").bind Json.str?).getD ""
  archetype := ((record.lookup "archetype").bind Json.str?).getD ""
  name := ((record.lookup "name").bind Json.str?).getD ""

/-- The speaker written by a document. -/
def ofJson (document : Json) (records : Validator := .standard) : Except RecordError Speaker :=
  (records.build rule document).map ofRecord

end Speaker

end Parley
