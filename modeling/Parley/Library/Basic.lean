import Parley.Files.Pattern
import Parley.Library.Lint
import Parley.Library.ManifestFile
import Parley.Notice
import Parley.Script.Parser
import Parley.Talk.Config

/-!
# Script Libraries

All scripts that were loaded, one for each archetype. A script that cannot be read or parsed, or that
makes a write the manifest does not allow, is replaced by one that only has the fallback line, and
the error is kept. Loading an archetype again replaces whatever was there.

A path that cannot be looked at, an extension that makes no pattern of files, and a script that exceeds a
limit of the reader end an operation with a fault. What was loaded before stays loaded.
-/

namespace Parley

/-- The scripts loaded so far. -/
structure Library where
  config : Config
  /-- The declarations that scripts have to follow. -/
  manifest : Manifest
  /-- How deep scripts may be nested. -/
  limits : Limits := .standard
  scripts : OrderedMap Script := .empty
  /-- The error of each archetype whose script is broken. -/
  errors : OrderedMap ParseError := .empty
  deriving Inhabited

/-- What ends an operation on a library that does not expect it. -/
inductive LibraryFault
  /-- A path cannot be looked at. -/
  | file (error : FileError)
  /-- The extension of script files makes no pattern. -/
  | noPattern
  /-- A script exceeds a limit of the reader. -/
  | limit (defect : Defect)
  deriving DecidableEq, Inhabited

/-- The wording of a fault. -/
def LibraryFault.message : LibraryFault → String
  | .file error => error.message
  | .noPattern => "two stars in a row are no component of a pattern"
  | .limit defect => defect.message

/-- An operation on several scripts that a fault has ended. -/
structure Interruption where
  fault : LibraryFault
  /-- The library with the scripts that were loaded before. -/
  library : Library
  /-- What was noted before. -/
  notices : List Notice
  deriving Inhabited

namespace Library

/-- The manifest that the settings name, an empty one if there is no such file. -/
def findManifest (tree : FileTree) (config : Config) (limits : Limits := .standard)
    (schemas : SchemaChecker := .standard) : Except ManifestFileError (Manifest × List Notice) :=
  match tree.pathExists config.manifestPath with
  | .error e => .error (.document (.file e))
  | .ok true =>
    (Manifest.load tree config.manifestPath limits schemas).map fun m =>
      (m, [.manifestLoaded m.size config.manifestPath])
  | .ok false => .ok (.empty, [.manifestMissing config.manifestPath])

/-- A library without scripts. Without a manifest the one that the settings name is used. -/
def start (tree : FileTree) (config : Config) (manifest : Option Manifest)
    (limits : Limits := .standard) (schemas : SchemaChecker := .standard) :
    Except ManifestFileError (Library × List Notice) :=
  match manifest with
  | some m => .ok ({ config, manifest := m, limits }, [])
  | none =>
    (findManifest tree config limits schemas).map fun (m, notices) =>
      ({ config, manifest := m, limits }, notices)

/-- The write of a statement that the manifest does not allow. -/
def badWrite? (m : Manifest) : Statement → Option Defect
  | .assign name value =>
    match m.get? name, value with
    | none, _ => some (.undeclaredSet name)
    | some d, .literal v => if v.type = d.type then none else some (.wrongLiteral name d.type v)
    | some _, _ => none
  | _ => none

/-- Refuses a script that makes a write the manifest does not allow, naming the first one. -/
def checkWrites (lib : Library) (script : Script) : Except ParseError Unit :=
  match script.walk.findSome? (badWrite? lib.manifest) with
  | some defect => .error ⟨script.source, none, defect⟩
  | none => .ok ()

/-- The script that stands in for a broken one. -/
def fallback (lib : Library) (archetype : String) (error : ParseError) : Script :=
  ⟨archetype, [], error.source, some lib.config.fallbackLine⟩

/-- The library with an archetype disabled because of an error. -/
def disable (lib : Library) (archetype : String) (error : ParseError) : Library :=
  { lib with
    errors := lib.errors.insert archetype error
    scripts := lib.scripts.insert archetype (lib.fallback archetype error) }

/-- The library with a usable script. -/
def enable (lib : Library) (archetype : String) (script : Script) : Library :=
  { lib with
    errors := lib.errors.erase archetype
    scripts := lib.scripts.insert archetype script }

/-- The script of an archetype, if its text can be used. -/
def check (lib : Library) (text archetype source : String) : Except ParseError Script := do
  let script ← Script.parse text archetype source lib.limits
  lib.checkWrites script
  .ok script

/-- The library after an archetype was loaded, the script that it has now, and what was noted. A script
that exceeds a limit is not reported but is a fault. -/
def settle (lib : Library) (archetype : String) (loaded : Except ParseError Script) :
    Except LibraryFault (Library × Script × List Notice) :=
  match loaded with
  | .ok script => .ok (lib.enable archetype script, script, [])
  | .error e =>
    if e.defect.isLimit then .error (.limit e.defect)
    else
      .ok (lib.disable archetype e, lib.fallback archetype e, [.scriptDisabled archetype e])

/-- Loads the script of an archetype from a text. -/
def loadString (lib : Library) (text archetype : String) (source : String := "<string>") :
    Except LibraryFault (Library × Script × List Notice) :=
  lib.settle archetype (lib.check text archetype source)

/-- Loads a script file, whose stem names the archetype. -/
def loadFile (lib : Library) (tree : FileTree) (path : String) :
    Except LibraryFault (Library × Script × List Notice) :=
  let path := Path.normalize path
  let archetype := Path.stem path
  match tree.readScript path with
  | .error .nullCharacter => .error (.file .nullCharacter)
  | .error e => lib.settle archetype (.error ⟨path, none, .unreadable e.message⟩)
  | .ok s => lib.loadString (String.ofList s) archetype path

/-- Loads script files in order, up to the first fault. The answer counts those that are usable. -/
def loadFiles (lib : Library) (tree : FileTree) :
    List String → Except Interruption (Library × Nat × List Notice)
  | [] => .ok (lib, 0, [])
  | path :: rest => do
    let (next, script, notices) ← (lib.loadFile tree path).mapError fun fault => ⟨fault, lib, []⟩
    let (after, loaded, more) ← (loadFiles next tree rest).mapError fun stop =>
      { stop with notices := notices ++ stop.notices }
    .ok (after, if script.disabled then loaded else loaded + 1, notices ++ more)

/-- A name put into its place among names in increasing order. -/
def insertSorted (name : String) : List String → List String
  | [] => [name]
  | n :: rest => if n < name then n :: insertSorted name rest else name :: n :: rest

/-- Names in increasing order. -/
def sortNames (names : List String) : List String :=
  names.foldr insertSorted []

/-- The pattern of script files: any text and the configured extension. -/
def filePattern? (lib : Library) : Option Pattern :=
  Pattern.ofText? ("*" ++ lib.config.scriptExtension.shown)

/-- The script files below the configured directory, in order. -/
def scriptFiles (lib : Library) (tree : FileTree) : Except LibraryFault (List String) :=
  match lib.filePattern? with
  | none => .error .noPattern
  | some pattern => (pattern.paths tree lib.config.scriptDir).mapError .file

/-- Loads all script files of the configured directory. The answer counts those that are usable. -/
def loadAll (lib : Library) (tree : FileTree) :
    Except Interruption (Library × Nat × List Notice) := do
  let stop (fault : LibraryFault) : Interruption := ⟨fault, lib, []⟩
  if ← (tree.pathExists lib.config.scriptDir).mapError fun e => stop (.file e) then
    let paths ← (lib.scriptFiles tree).mapError stop
    let (lib, loaded, notices) ← lib.loadFiles tree paths
    .ok (lib, loaded, notices ++ [.scriptsLoaded loaded lib.errors.size])
  else .ok (lib, 0, [.directoryMissing lib.config.scriptDir])

/-- The file that the script of an archetype is looked for in. -/
def scriptPath (lib : Library) (archetype : String) : String :=
  Path.join lib.config.scriptDir (archetype ++ lib.config.scriptExtension.shown)

/-- The script of an archetype, which is loaded from its file when it is first asked for. -/
def get (lib : Library) (tree : FileTree) (archetype : String) :
    Except LibraryFault (Library × Option Script × List Notice) :=
  match lib.scripts.get? archetype with
  | some script => .ok (lib, some script, [])
  | none => do
    let path := lib.scriptPath archetype
    if ← (tree.pathExists path).mapError .file then
      let (lib, script, notices) ← lib.loadFile tree path
      .ok (lib, some script, notices)
    else .ok (lib, none, [.scriptMissing path])

/-- Whether the script of an archetype is broken. -/
def isDisabled (lib : Library) (archetype : String) : Bool :=
  lib.errors.contains archetype

/-- Whether an archetype was loaded. -/
def contains (lib : Library) (archetype : String) : Bool :=
  lib.scripts.contains archetype

/-- The archetypes that were loaded, in order. -/
def archetypes (lib : Library) : List String :=
  sortNames lib.scripts.keys

/-- The issues of the script of an archetype. -/
def lintArchetype (lib : Library) (known : List String) (archetype : String) : List Issue :=
  match lib.errors.get? archetype, lib.scripts.get? archetype with
  | some e, _ => [⟨archetype, .broken e⟩]
  | none, some script => Lint.script lib.manifest known script
  | none, none => []

/-- The issues of all scripts. -/
def lint (lib : Library) (known : List String) : List Issue :=
  lib.archetypes.flatMap (lib.lintArchetype known)

end Library

end Parley
