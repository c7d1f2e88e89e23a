import Parley.Library.ManifestFile
import Parley.Notice
import Parley.Save.State

/-!
# Archives

Saves in numbered slots of a directory. A slot has a file with the saved state and a file that
describes it. Saving and loading are announced as they start and end. A load that does not succeed
leaves quest state alone.

Errors in what the files hold are noted and answered with false, except for some that are not
expected: bytes that are not UTF-8, a document beyond the limits of the reader, and one that is no
object. A document that names no slot is not expected either, nor a slot whose number has too many digits
to be written, save that a save to it just fails.
-/

namespace Parley

/-- What is announced about saves. -/
inductive SaveEventKind
  | saveStarted
  | saveCompleted
  | saveFailed
  | loadStarted
  | loadCompleted
  | loadFailed
  deriving DecidableEq, Inhabited

/-- The name of an announcement. -/
def SaveEventKind.name : SaveEventKind → String
  | .saveStarted => "SAVE_STARTED"
  | .saveCompleted => "SAVE_COMPLETED"
  | .saveFailed => "SAVE_FAILED"
  | .loadStarted => "LOAD_STARTED"
  | .loadCompleted => "LOAD_COMPLETED"
  | .loadFailed => "LOAD_FAILED"

/-- Why a save or a load failed. -/
inductive SaveFailure
  | checksumMismatch
  /-- A file could not be read or written, or does not hold a saved state. -/
  | other (reason : String)
  deriving DecidableEq, Inhabited

/-- The wording of a failure. -/
def SaveFailure.message : SaveFailure → String
  | .checksumMismatch => "Checksum validation failed"
  | .other reason => reason

/-- An announcement about a slot. -/
structure SaveEvent where
  kind : SaveEventKind
  /-- The slot, as it was named. -/
  slot : Json
  /-- Why it failed, if it did. -/
  failure : Option SaveFailure := none
  deriving DecidableEq, Inhabited

/-- What ends an operation on saves that does not expect it. -/
inductive SaveFault
  /-- A file cannot be looked at, or is not UTF-8. -/
  | file (error : FileError)
  | notObject
  /-- A field is to be removed from a list. -/
  | listField
  /-- A slot is named by a number with a fraction or by a text. -/
  | notWhole
  /-- A slot is named by something that is neither a number nor a text. -/
  | notNumber
  /-- The number of a slot or an integer in a file has too many digits. -/
  | tooManyDigits
  /-- More objects and lists are open at once than the reader can hold. -/
  | tooDeep
  deriving DecidableEq, Inhabited

/-- The wording of a fault. -/
def SaveFault.message : SaveFault → String
  | .file error => error.message
  | .notObject => "not an object"
  | .listField => "a list has no fields"
  | .notWhole => "a slot is a whole number"
  | .notNumber => "a slot is a number"
  | .tooManyDigits => Text.TooManyDigits.message {}
  | .tooDeep => Json.ReadError.message .tooDeep

/-- The fault that an error of reading a save comes to, if it is not expected. -/
def DocumentError.fault? : DocumentError → Option SaveFault
  | .file .notText => some (.file .notText)
  | .text .tooManyDigits => some .tooManyDigits
  | .text .tooDeep => some .tooDeep
  | _ => none

/-- A slot. It is reported as it was named: a truth value counts as a number too. -/
structure Slot where
  number : Int
  /-- What named it. -/
  written : Json := .int number
  deriving DecidableEq, Inhabited

/-- Whether the number of a slot has too many digits to be written. -/
def Slot.isOverlong (slot : Slot) : Bool :=
  Text.isOverlong (Text.ofInt slot.number)

/-- The slot that a document names. -/
def Slot.ofJson : Json → Except SaveFault Slot
  | .int n => .ok ⟨n, .int n⟩
  | .bool b => .ok ⟨if b then 1 else 0, .bool b⟩
  | .float _ => .error .notWhole
  | .str _ => .error .notWhole
  | _ => .error .notNumber

/-- The description of a save. -/
structure SaveMetadata where
  slot : Json
  name : Json
  timestamp : Json
  variableCount : Json
  deriving Inhabited

/-- Quest state with the saves in a directory. -/
structure Archive where
  env : Environment
  tree : FileTree
  directory : String
  /-- The time that is written into descriptions. -/
  now : String
  /-- How deep documents may be nested. -/
  limits : Limits := .standard
  /-- What checks the records that are saved and loaded. -/
  records : Validator := .standard
  /-- Whether anything is announced. -/
  announces : Bool := true
  /-- The slot that was saved or loaded last. -/
  currentSlot : Option Json := none
  events : List SaveEvent := []
  notices : List Notice := []
  deriving Inhabited

namespace Archive

/-- The count of slots that are listed. -/
def slotCount : Nat := 10

/-- The number of a slot with at least two characters. -/
def slotName (number : Int) : String :=
  let digits := Text.ofInt number
  String.ofList (if digits.length < 2 then '0' :: digits else digits)

/-- The file of a slot. -/
@[irreducible]  -- so that nothing that looks up the file works the path out
def slotPath (a : Archive) (slot : Slot) : String :=
  Path.join a.directory ("save_" ++ slotName slot.number ++ ".json")

/-- The file that describes a slot. -/
@[irreducible]
def metadataPath (a : Archive) (slot : Slot) : String :=
  Path.join a.directory ("save_" ++ slotName slot.number ++ "_meta.json")

/-- The archive with something announced. -/
def announce (a : Archive) (kind : SaveEventKind) (slot : Json)
    (failure : Option SaveFailure := none) : Archive :=
  if a.announces then { a with events := a.events ++ [⟨kind, slot, failure⟩] } else a

/-- The archive with something noted. -/
def note (a : Archive) (notice : Notice) : Archive :=
  { a with notices := a.notices ++ [notice] }

/-- The bytes of an ASCII text. -/
def asciiBytes (s : List Char) : List UInt8 :=
  s.map fun c => UInt8.ofNat c.toNat

/-- The archive with as much of a document written to a file as can be. -/
def writeJson (a : Archive) (path : String) (document : Json) : Except FileError Archive :=
  (a.tree.write path (asciiBytes document.written)).map fun tree => { a with tree }

/-- The fields of the file of a slot, the checksum last. -/
def savedFields (s : SavedState) : List (String × Json) :=
  s.fields ++ [(checksumField, .str (checksum s.fields))]

/-- The document that describes a save. -/
def metadataJson (a : Archive) (slot : Slot) (name : Json) (s : SavedState) : Json :=
  .object [("slot", slot.written), ("name", name), ("timestamp", .str a.now),
    ("variable_count", .int s.variableCount)]

/-- The wording of the refusal of a record. -/
def refusal : RecordError → String
  | .invalid names => "invalid fields: " ++ ", ".intercalate names
  | .noAttribute => "no such attribute"
  | .noField => "no such field"
  | .wrongKind => "not of the kind that is needed"

/-- The archive after a save failed. -/
def failSave (a : Archive) (slot : Json) (reason : String) : Bool × Archive :=
  (false, (a.note (.saveFailed reason)).announce .saveFailed slot (some (.other reason)))

/-- Whether the numbers in the path and the files of a slot can be written. A count of variables that
cannot would take more variables than there can be. -/
def canWrite (slot : Slot) (s : SavedState) : Bool :=
  (Json.object s.fields).isShort && (Json.int s.variableCount).isShort && !slot.isOverlong

/-- Saves quest state to a slot, under a name that may be anything. The answer says whether both files
were written. -/
def save (a : Archive) (slot : Slot) (name : Json := .str "Save") : Bool × Archive :=
  let a := a.announce .saveStarted slot.written
  match SavedState.ofEnvironment a.env a.records with
  | .error e => a.failSave slot.written (refusal e)
  | .ok s =>
    -- The checksum and the path are made before a file is touched.
    if !canWrite slot s then a.failSave slot.written (Text.TooManyDigits.message {})
    else
      match a.writeJson (a.slotPath slot) (.object (savedFields s)) with
      -- If only the description fails the new state stays in its file.
      | .error e => a.failSave slot.written e.message
      | .ok a =>
        let description := a.metadataJson slot name s
        match a.writeJson (a.metadataPath slot) description with
        | .error e => a.failSave slot.written e.message
        | .ok a =>
          if description.isShort then
            (true, ({ a with currentSlot := some slot.written } : Archive).announce .saveCompleted
              slot.written)
          else a.failSave slot.written (Text.TooManyDigits.message {})

/-- Saves quest state to the slot that a document names; if it names none the save fails. -/
def saveTo (a : Archive) (slot : Json) (name : Json := .str "Save") : Bool × Archive :=
  match Slot.ofJson slot with
  | .ok slot => a.save slot name
  | .error fault => (a.announce .saveStarted slot).failSave slot fault.message

/-- The archive after a load failed. -/
def failLoad (a : Archive) (slot : Slot) (reason : String) : Except SaveFault Bool × Archive :=
  (.ok false, (a.note (.loadFailed reason)).announce .loadFailed slot.written
    (some (.other reason)))

/-- Whether the fields of a save hold a checksum that they do not match. -/
def isCorrupted (fields : List (String × Json)) : Bool :=
  match fields.lookup checksumField with
  | some expected => expected.isTruthy && !matchesChecksum fields expected
  | none => false

/-- Puts the fields of a save in place of quest state. -/
def restoreFields (a : Archive) (slot : Slot) (fields : List (String × Json)) :
    Except SaveFault Bool × Archive :=
  match SavedState.ofJson (.object (withoutChecksum fields)) a.records with
  | .error e => a.failLoad slot (refusal e)
  | .ok s =>
    (.ok true,
      ({ a with env := a.env.restore s.snapshot, currentSlot := some slot.written } :
        Archive).announce .loadCompleted slot.written)

/-- Loads quest state from the file of a slot, which is there. -/
def loadFile (a : Archive) (slot : Slot) (validate : Bool) : Except SaveFault Bool × Archive :=
  match a.tree.readJson (a.slotPath slot) a.limits with
  | .error e =>
    match e.fault? with
    | some fault => (.error fault, a)
    | none => a.failLoad slot e.message
  | .ok (.object fields) =>
    -- A checksum that was emptied or removed is no corruption.
    if validate && isCorrupted fields then
      (.ok false, (a.note (.saveCorrupted (a.slotPath slot))).announce .loadFailed slot.written
        (some .checksumMismatch))
    else a.restoreFields slot fields
  -- Without a validation the checksum is the first thing that is looked for in the document.
  | .ok (.list _) => (.error (if validate then .notObject else .listField), a)
  | .ok _ => (.error .notObject, a)

/-- Whether the file of a slot is there. -/
def isSaved (a : Archive) (slot : Slot) : Except SaveFault Bool :=
  if slot.isOverlong then .error .tooManyDigits
  else (a.tree.pathExists (a.slotPath slot)).mapError .file

/-- Loads quest state from a slot. The answer says whether it was replaced. -/
def load (a : Archive) (slot : Slot) (validate : Bool := true) : Except SaveFault Bool × Archive :=
  match a.isSaved slot with
  | .error fault => (.error fault, a)
  | .ok false => (.ok false, a)
  | .ok true => (a.announce .loadStarted slot.written).loadFile slot validate

/-- Whether the file of a slot is there and unchanged. A document without checksum counts as
edited on purpose. -/
def validate (a : Archive) (slot : Slot) : Except SaveFault Bool :=
  match a.isSaved slot with
  | .error fault => .error fault
  | .ok false => .ok false
  | .ok true =>
    match a.tree.readJson (a.slotPath slot) a.limits with
    | .error e =>
      match e.fault? with
      | some fault => .error fault
      | none => .ok false
    | .ok (.object fields) => .ok (!isCorrupted fields)
    | .ok _ => .error .notObject

/-- The archive without the files of a slot, as far as they can be removed. -/
def deleteFiles (a : Archive) (slot : Slot) : Bool × Archive :=
  match a.tree.remove (a.slotPath slot) with
  | .error e => (false, a.note (.deleteFailed slot.written e.message))
  | .ok tree =>
    -- The state is gone even if the description cannot be removed.
    let a := { a with tree }
    match a.tree.remove (a.metadataPath slot) with
    | .error e => (false, a.note (.deleteFailed slot.written e.message))
    | .ok tree => (true, { a with tree })

/-- Removes both files of a slot. The answer says whether they are gone. -/
def delete (a : Archive) (slot : Slot) : Except SaveFault Bool × Archive :=
  if slot.isOverlong then (.error .tooManyDigits, a)
  else (.ok (a.deleteFiles slot).1, (a.deleteFiles slot).2)

/-- The description written by a document, which has to have its four fields and no others. -/
def metadata? (document : Json) : Option SaveMetadata :=
  match document.field? "slot", document.field? "name", document.field? "timestamp",
    document.field? "variable_count" with
  | some slot, some name, some timestamp, some variableCount =>
    -- Fields of an object have different names, so that four are just these four.
    if (document.fields?.getD []).length = 4 then some ⟨slot, name, timestamp, variableCount⟩
    else none
  | _, _, _, _ => none

/-- The description of a listed slot, if it has one that can be read. -/
def readMetadata (a : Archive) (slot : Slot) : Except SaveFault (Option SaveMetadata) × Archive :=
  let path := a.metadataPath slot
  match a.tree.pathExists path with
  | .error e => (.error (.file e), a)
  | .ok false => (.ok none, a)
  | .ok true =>
    match a.tree.readJson path a.limits with
    | .error e =>
      match e.fault? with
      | some fault => (.error fault, a)
      | none => (.ok none, a.note (.metadataUnreadable path e.message))
    | .ok document =>
      match metadata? document with
      | some m => (.ok (some m), a)
      | none => (.ok none, a.note (.metadataUnreadable path "not a description of a save"))

/-- The descriptions of slots. -/
def readSlots (a : Archive) : List Nat → Except SaveFault (List (Option SaveMetadata)) × Archive
  | [] => (.ok [], a)
  | slot :: rest =>
    match a.readMetadata { number := slot } with
    | (.error fault, a) => (.error fault, a)
    | (.ok m, a) =>
      match readSlots a rest with
      | (.error fault, a) => (.error fault, a)
      | (.ok ms, a) => (.ok (m :: ms), a)

/-- The descriptions of all listed slots. -/
def slots (a : Archive) : Except SaveFault (List (Option SaveMetadata)) × Archive :=
  a.readSlots (List.range slotCount)

end Archive

end Parley
