import Parley.Digest.Base64
import Parley.Digest.Sha256
import Parley.Record
import Parley.State.Environment

/-!
# Saved States

The form in which quest state is kept in a file: a version, the global variables and the variables of
each speaker. Only script values can be saved, and every value comes back with its type. A checksum
over all other fields tells whether a saved document was changed.
-/

namespace Parley

/-- The variables of one owner, all of them script values. -/
abbrev SavedVariables := OrderedMap Value

/-- Quest state in the form in which it is saved. -/
structure SavedState where
  version : String := "1.0"
  globals : SavedVariables := .empty
  speakers : OrderedMap SavedVariables := .empty
  deriving DecidableEq, Inhabited

namespace SavedState

/-- The type of a saved value. -/
def valueType : FieldType :=
  .oneOf [.bool, .int, .text]

/-- The type of the variables of one owner. -/
def variablesType : FieldType :=
  .mapOf valueType

/-- The fields of a saved state; others are ignored. -/
def rule : RecordRule :=
  { fields := [⟨"version", .text, some (.str "1.0")⟩,
      ⟨"global_vars", variablesType, some (.object [])⟩,
      ⟨"speaker_vars", .mapOf variablesType, some (.object [])⟩]
    closed := false
    shared := ["variable_count"] }

/-- The variables of an object of script values. -/
def ownVariables (document : Json) : SavedVariables :=
  .ofList ((document.fields?.getD []).filterMap fun f => (Value.ofJson? f.2).map fun v => (f.1, v))

/-- The saved state of a valid record. -/
def ofRecord (record : List (String × Json)) : SavedState where
  version := ((record.lookup "version").bind Json.str?).getD ""
  globals := ownVariables ((record.lookup "global_vars").getD .null)
  speakers := .ofList ((((record.lookup "speaker_vars").bind Json.fields?).getD []).map fun f =>
    (f.1, ownVariables f.2))

/-- The saved state written by a document. -/
def ofJson (document : Json) (records : Validator := .standard) : Except RecordError SavedState :=
  (records.build rule document).map ofRecord

/-- The document for the variables of one owner. -/
def variablesJson (m : Variables) : Json :=
  .object (m.entries.map fun e => (e.1, e.2.toJson))

/-- The saved form of quest state. It is refused if some value is no script value. -/
def ofEnvironment (env : Environment) (records : Validator := .standard) :
    Except RecordError SavedState :=
  ofJson (.object [("global_vars", variablesJson env.globals),
    ("speaker_vars", .object (env.speakers.entries.map fun e => (e.1, variablesJson e.2)))]) records

/-- Both scopes of quest state as they were saved. -/
def snapshot (s : SavedState) : Snapshot where
  globals := s.globals.map Stored.value
  speakers := s.speakers.map fun m => m.map Stored.value

/-- The fields of the document for a saved state. -/
def fields (s : SavedState) : List (String × Json) :=
  let values (m : SavedVariables) : Json := .object (m.entries.map fun e => (e.1, e.2.toJson))
  [("version", .str s.version), ("global_vars", values s.globals),
    ("speaker_vars", .object (s.speakers.entries.map fun e => (e.1, values e.2)))]

/-- The count of saved variables. -/
def variableCount (s : SavedState) : Nat :=
  s.speakers.entries.foldr (fun e total => e.2.size + total) s.globals.size

/-- The count of variables in a record whose fields were set unchecked. -/
def countIn (record : List (String × Json)) : Except RecordError Nat :=
  let size : Json → Except RecordError Nat
    | .object fields => .ok fields.length
    | .list items => .ok items.length
    | .str s => .ok s.length
    | _ => .error .wrongKind
  match size ((record.lookup "global_vars").getD .null), record.lookup "speaker_vars" with
  | .error e, _ => .error e
  | .ok n, some (.object speakers) =>
    speakers.foldl (fun sum f => do
      let sum ← sum
      let k ← size f.2
      .ok (sum + k)) (.ok n)
  | .ok _, _ => .error .noAttribute

end SavedState

/-- The name of the field that holds the checksum. -/
def checksumField : String := "checksum"

/-- Fields without the checksum. -/
def withoutChecksum (fields : List (String × Json)) : List (String × Json) :=
  fields.filter fun f => f.1 != checksumField

/-- The checksum of fields: the digest of their canonical form. -/
def checksum (fields : List (String × Json)) : String :=
  String.ofList (Digest.base64 (Digest.sha256 ((Json.object fields).canonical.map fun c =>
    UInt8.ofNat c.toNat)))

/-- Whether fields match a checksum that they hold. -/
def matchesChecksum (fields : List (String × Json)) (expected : Json) : Bool :=
  match expected with
  | .str s => checksum (withoutChecksum fields) == s
  | _ => false

end Parley
