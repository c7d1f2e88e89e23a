import Parley.Library.Verify

/-!
# Command Line

Reads what a verification needs from the file system, verifies it, and prints the notices.
-/

namespace Parley

/-- The tree with the file or the directory, and the files in it, that a path of the file system
leads to. -/
def readInto (t : FileTree) (path : String) : IO FileTree := do
  let here := System.mkFilePath [path]
  if ← here.isDir then
    let mut t := t.place path .directory
    for entry in ← here.readDir do
      let node ← if ← entry.path.isDir then pure FileNode.directory
        else pure (FileNode.file (← IO.FS.readBinFile entry.path).toList)
      t := t.place (Path.join path entry.fileName) node
    return t
  else if ← here.pathExists then
    return t.place path (.file (← IO.FS.readBinFile here).toList)
  else return t

/-- What a verification reads. -/
def readTree (o : VerifyOptions) : IO FileTree := do
  let working := Path.components (toString (← IO.currentDir))
  let tree : FileTree := { root := "/", working }
  readInto (← readInto tree o.config.scriptDir) o.config.manifestPath

/-- Verifies the scripts that arguments name, prints the notices and gives the exit code. -/
def runVerifier (args : List String) : IO UInt32 := do
  let tree ← match Invocation.ofArguments args with
    | .verify options => readTree options
    | _ => do
      IO.println Invocation.usage
      pure {}
  let (result, notices) := verifyMain tree args
  for n in notices do
    IO.eprintln (n.level.name ++ ": " ++ n.text)
  match result with
  | .exit code => return code.toUInt32
  | .crash e => do
    IO.eprintln e.message
    return 1

end Parley

def main (args : List String) : IO UInt32 :=
  Parley.runVerifier args
