import Parley.Library.Basic
import Parley.Library.Options
import Parley.Talk.Lore

/-!
# Verification

The check of all scripts of a directory before a release: every script has to load, and lint must
find no error in any of them. Warnings are reported and do no harm.
-/

namespace Parley

/-- What ends a verification that does not expect it. -/
inductive VerifyFault
  /-- The manifest has an error that is not expected. -/
  | manifest (error : ManifestFileError)
  /-- The scripts cannot be looked for or exceed a limit. -/
  | library (fault : LibraryFault)
  /-- A token is left out. -/
  | noToken
  deriving Inhabited

/-- The wording of a fault. -/
def VerifyFault.message : VerifyFault → String
  | .manifest error => error.message
  | .library fault => fault.message
  | .noToken => "an option without its token"

/-- How a run of the verifier ended. -/
inductive VerifyEnd
  /-- It ended with an exit code. -/
  | exit (code : Nat)
  /-- It ended with a fault. -/
  | crash (fault : VerifyFault)
  deriving Inhabited

namespace VerifyOptions

/-- The settings of the library that is verified. -/
def config (o : VerifyOptions) : Config :=
  let scriptDir := Path.normalize o.scriptDir
  let manifest := o.manifest.getD ""
  { scriptDir
    manifestPath :=
      if manifest = "" then Path.join scriptDir "scopes.json" else Path.normalize manifest }

end VerifyOptions

/-- The notice of an issue. -/
def Issue.notice (i : Issue) : Notice :=
  .finding (match i.severity with | .error => .error | .warning => .warning) i.text

/-- What is to be reported of the scripts of a library: the exit code and the notices. -/
def reportScripts (lib : Library) (known : List String) : Nat × List Notice :=
  let issues := lib.lint known
  let findings := issues.map Issue.notice
  let count := lib.archetypes.length
  if Issue.anyError issues then
    (1, findings ++ [.verificationFailed issues.length count])
  else (0, findings ++ [.verified count])

/-- Verifies the scripts under a manifest. -/
def verifyScripts (tree : FileTree) (config : Config) (manifest : Manifest)
    (tokens : List (Option String)) (limits : Limits := .standard) :
    Except VerifyFault (Nat × List Notice) :=
  match ({ config, manifest, limits } : Library).loadAll tree with
  | .error stop => .error (.library stop.fault)
  | .ok (lib, _, notices) =>
    if tokens.contains none then .error .noToken
    else
      let (code, report) := reportScripts lib (LoreContext.knownTokens (tokens.filterMap id))
      .ok (code, notices ++ report)

/-- Runs the verifier. Nothing is reported of a verification that ends with a fault. -/
def verify (tree : FileTree) (o : VerifyOptions) (limits : Limits := .standard)
    (schemas : SchemaChecker := .standard) : VerifyEnd × List Notice :=
  match Manifest.load tree o.config.manifestPath limits schemas with
  | .error e =>
    if e.isExpected then (.exit 1, [.badManifest o.config.manifestPath e.message])
    else (.crash (.manifest e), [])
  | .ok m =>
    match verifyScripts tree o.config m o.tokens limits with
    | .error fault => (.crash fault, [])
    | .ok (code, notices) => (.exit code, .manifestLoaded m.size o.config.manifestPath :: notices)

/-- Runs the verifier with arguments. -/
def verifyMain (tree : FileTree) (args : List String) (limits : Limits := .standard)
    (schemas : SchemaChecker := .standard) : VerifyEnd × List Notice :=
  match Invocation.ofArguments args with
  | .help => (.exit 0, [])
  | .misuse => (.exit 2, [])
  | .verify options => verify tree options limits schemas

end Parley
