import Parley.Files.Tree
import Parley.Json.Reader
import Parley.State.Manifest
import Parley.Text.Utf8

/-!
# Manifest Files

Reading text files strictly as UTF-8, JSON documents from files, and scope manifests from those.
-/

namespace Parley

/-- Why a document could not be read from a file. -/
inductive DocumentError
  /-- The file could not be read. -/
  | file (error : FileError)
  /-- The text is refused. -/
  | text (error : Json.ReadError)
  deriving DecidableEq, Inhabited

/-- The wording of a document error. -/
def DocumentError.message : DocumentError → String
  | .file error => error.message
  | .text error => error.message

namespace FileTree

/-- The characters of a text file. -/
def readText (t : FileTree) (path : String) : Except FileError (List Char) :=
  match t.read path with
  | .error e => .error e
  | .ok bytes =>
    match Text.decodeUtf8 bytes with
    | some s => .ok s
    | none => .error .notText

/-- The characters of a script file. -/
def readScript (t : FileTree) (path : String) : Except FileError (List Char) :=
  match t.read path with
  | .error e => .error e
  | .ok bytes =>
    match Text.decodeScript bytes with
    | some s => .ok s
    | none => .error .notText

/-- The document in a JSON file. -/
def readJson (t : FileTree) (path : String) (limits : Limits := .standard) :
    Except DocumentError Json :=
  match t.readText path with
  | .error e => .error (.file e)
  | .ok s => (Json.ofText s limits).mapError .text

end FileTree

/-- Why a manifest could not be read from a file. -/
inductive ManifestFileError
  /-- There is no document. -/
  | document (error : DocumentError)
  /-- The document is no manifest. -/
  | manifest (error : ManifestError)
  deriving Inhabited

/-- The wording of a manifest file error. -/
def ManifestFileError.message : ManifestFileError → String
  | .document error => error.message
  | .manifest error => error.message

/-- Whether an error is one that can be expected of a manifest file. A default that is no script value is
not, and neither is a document that the reader cannot hold. -/
def ManifestFileError.isExpected : ManifestFileError → Bool
  | .document (.text .tooDeep) => false
  | .manifest (.notValue _) => false
  | _ => true

/-- The manifest in a file. -/
def Manifest.load (t : FileTree) (path : String) (limits : Limits := .standard)
    (schemas : SchemaChecker := .standard) : Except ManifestFileError Manifest :=
  match t.readJson path limits with
  | .error e => .error (.document e)
  | .ok document => (Manifest.ofJson document schemas).mapError .manifest

end Parley
