import Parley.Files.Path
import Parley.OrderedMap

/-!
# File Trees

The files and directories that scripts, manifests and saves are read from and written to. A tree is
known under the path of its root; relative paths start at its working directory, and any other path
leads elsewhere. The places above the root and the place where paths that lead elsewhere start are
directories of which nothing else is known. Every component but the last of a path has to be a
directory. A path with a component that is too long for a name leads nowhere, and it cannot even be
asked whether it does.
-/

namespace Parley

/-- What a path leads to. -/
inductive FileNode
  | file (bytes : List UInt8)
  | directory
  deriving DecidableEq, Inhabited

/-- Why a file cannot be read, written or removed. -/
inductive FileError
  | missing
  | isDirectory
  /-- A component on the way is a file. -/
  | notDirectory
  /-- Something is where a directory is to be made. -/
  | occupied
  | notText
  /-- A component is longer than the name of a file can be, or the path than a path can be. -/
  | nameTooLong
  /-- The path has a null character, which no name can have. -/
  | nullCharacter
  deriving DecidableEq, Inhabited

/-- The wording of a file error. -/
def FileError.message : FileError → String
  | .missing => "no such file or directory"
  | .isDirectory => "is a directory"
  | .notDirectory => "not a directory"
  | .occupied => "file exists"
  | .notText => "not a UTF-8 text"
  | .nameTooLong => "file name too long"
  | .nullCharacter => "null character in a path"

/-- Files and directories under a root. -/
structure FileTree where
  /-- The path that the root is known under. -/
  root : String := "."
  /-- The components of the working directory below the root. -/
  working : List String := []
  /-- What is there, by the path below the root. -/
  nodes : OrderedMap FileNode := .empty
  deriving Inhabited

namespace FileTree

/-- The components of a path as seen from the root. -/
def fromRoot (t : FileTree) (path : String) : List String :=
  let root := Path.components t.root
  let parts := Path.components path
  -- A path that starts with the path of the root leads into the tree wherever it is used.
  if Path.rootOf path = Path.rootOf t.root ∧ parts.take root.length = root then
    parts.drop root.length
  else if Path.rootOf path = "" then t.working ++ parts
  else Path.elsewhere ++ parts

/-- Whether components lead to the root, to a place above it or to the place where paths that lead
elsewhere start. -/
def isStart (parts : List String) : Bool :=
  parts == Path.elsewhere || parts.all (· == "..")

/-- What components lead to from the root. -/
def nodeAt? (t : FileTree) (parts : List String) : Option FileNode :=
  if isStart parts then some .directory else t.nodes.get? ("/".intercalate parts)

/-- The longest name of a file, in bytes. -/
def nameLimit : Nat := 255

/-- The longest path, in bytes. -/
def pathLimit : Nat := 4095

/-- Follows components from a directory, given by its own components. -/
def follow (t : FileTree) : List String → List String → Except FileError (List String)
  | here, [] => .ok here
  | here, part :: rest =>
    -- The directory is looked at before each step, so that what is missing on the way is noticed even
    -- where double dots leave it again.
    match t.nodeAt? here with
    | none => .error .missing
    | some (.file _) => .error .notDirectory
    | some .directory =>
      if part = ".." then follow t (Path.above here) rest
      else if nameLimit < part.utf8ByteSize then .error .nameTooLong
      else follow t (here ++ [part]) rest

/-- The components of the place that a path leads to. -/
def locate (t : FileTree) (path : String) : Except FileError (List String) :=
  if '\x00' ∈ path.toList then .error .nullCharacter
  else if pathLimit < path.utf8ByteSize then .error .nameTooLong
  else t.follow [] (t.fromRoot path)

/-- What a path leads to. -/
def find (t : FileTree) (path : String) : Except FileError FileNode :=
  match t.locate path with
  | .error e => .error e
  | .ok parts =>
    match t.nodeAt? parts with
    | some node => .ok node
    | none => .error .missing

/-- Whether a path leads to a file or directory. -/
def pathExists (t : FileTree) (path : String) : Except FileError Bool :=
  match t.find path with
  | .ok _ => .ok true
  -- A name that is too long is an error of its own; all others mean that nothing is there.
  | .error .nameTooLong => .error .nameTooLong
  | .error _ => .ok false

/-- Whether a path leads to a directory. -/
def isDirectory (t : FileTree) (path : String) : Except FileError Bool :=
  match t.find path with
  | .ok .directory => .ok true
  | .ok (.file _) => .ok false
  | .error .nameTooLong => .error .nameTooLong
  | .error _ => .ok false

/-- The bytes of the file that a path leads to. -/
def read (t : FileTree) (path : String) : Except FileError (List UInt8) :=
  match t.find path with
  | .error e => .error e
  | .ok .directory => .error .isDirectory
  | .ok (.file bytes) => .ok bytes

/-- The names of the files and directories in the directory that a path leads to. -/
def names (t : FileTree) (path : String) : List String :=
  match t.locate path with
  | .error _ => []
  | .ok parts =>
    t.nodes.keys.filterMap fun key =>
      let here := Path.components key
      if here.dropLast = parts then here.getLast? else none

/-- The directory that a path leads to and all directories below it, as paths. -/
def directories (t : FileTree) (path : String) : List String :=
  match t.locate path with
  | .error _ => []
  | .ok parts =>
    path :: t.nodes.entries.filterMap fun (key, node) =>
      let here := Path.components key
      if node = .directory ∧ here.take parts.length = parts ∧ here.length ≠ parts.length then
        some (Path.join path ("/".intercalate (here.drop parts.length)))
      else none

/-- The tree with something at the place that components name, whatever was there. -/
def insert (t : FileTree) (parts : List String) (node : FileNode) : FileTree :=
  { t with nodes := t.nodes.insert ("/".intercalate parts) node }

/-- What was inserted at a place is there. -/
theorem nodeAt?_insert (t : FileTree) {parts : List String} (node : FileNode)
    (h : isStart parts = false) : (t.insert parts node).nodeAt? parts = some node := by
  simp [insert, nodeAt?, h, OrderedMap.get?_insert]

/-- Follows components from a directory and makes the directories that are not there, also those that
double dots leave again. A file on the way ends it: something else is expected in its place if it is
the last component or a directory was made before it (`made`), and a directory if not. What was made
stays, whether or not the way comes to its end. -/
def makeWay (t : FileTree) (here : List String) (made : Bool) :
    List String → Except FileError (List String) × FileTree
  | [] => (.ok here, t)
  | part :: rest =>
    if part = ".." then t.makeWay (Path.above here) made rest
    else if nameLimit < part.utf8ByteSize then (.error .nameTooLong, t)
    else
      -- What was made stays, whether or not the rest of the way can be made.
      let next := here ++ [part]
      match t.nodeAt? next with
      | some .directory => t.makeWay next made rest
      | some (.file _) => (.error (if made || rest.isEmpty then .occupied else .notDirectory), t)
      | none => (t.insert next .directory).makeWay next true rest

/-- The tree with something put where components lead to, and the directories on the way. -/
def put (t : FileTree) (parts : List String) (node : FileNode) : FileTree :=
  (t.makeWay [] false parts.dropLast).2.insert (Path.resolve parts) node

/-- What was put somewhere is there, the double dots on the way taken back. -/
theorem nodeAt?_put (t : FileTree) {parts : List String} (node : FileNode)
    (h : isStart (Path.resolve parts) = false) :
    (t.put parts node).nodeAt? (Path.resolve parts) = some node :=
  nodeAt?_insert _ _ h

/-- Makes a file or a directory under a name in a directory. A file may be there already and is
replaced. -/
def makeIn (t : FileTree) (here : List String) (name : String) (node : FileNode) :
    Except FileError Unit × FileTree :=
  let place := if name = ".." then Path.above here else here ++ [name]
  match t.nodeAt? place, node with
  | some .directory, .file _ => (.error .isDirectory, t)
  | some _, .directory => (.error .occupied, t)
  | _, node =>
    if '\x00' ∈ name.toList then (.error .nullCharacter, t)
    else if nameLimit < name.utf8ByteSize then (.error .nameTooLong, t)
    else (.ok (), t.insert place node)

/-- Makes a file or a directory at a path below the root, and the directories on the way. -/
def make (t : FileTree) (path : String) (node : FileNode) : Except FileError Unit × FileTree :=
  match (Path.components path).reverse with
  | [] => (.error (if node = .directory then .occupied else .isDirectory), t)
  | name :: way =>
    if way.any fun part => '\x00' ∈ part.toList then (.error .nullCharacter, t)
    else
      match t.makeWay [] false way.reverse with
      | (.error e, t) => (.error e, t)
      | (.ok here, t) => t.makeIn here name node

/-- The tree with something put where a path leads to. -/
def place (t : FileTree) (path : String) (node : FileNode) : FileTree :=
  t.put (t.fromRoot path) node

/-- The tree after a file is written, in a directory that is there. -/
def write (t : FileTree) (path : String) (bytes : List UInt8) : Except FileError FileTree :=
  match t.locate path with
  | .error e => .error e
  | .ok parts =>
    match t.nodeAt? parts, t.nodeAt? parts.dropLast with
    | some .directory, _ => .error .isDirectory
    | some (.file _), _ =>
      .ok (t.insert parts (.file bytes))
    -- A new file needs its directory, which is never made along with it.
    | none, some .directory =>
      .ok (t.insert parts (.file bytes))
    | none, some (.file _) => .error .notDirectory
    | none, none => .error .missing

/-- The tree after a file is removed; a path that leads to nothing is left alone. -/
def remove (t : FileTree) (path : String) : Except FileError FileTree :=
  match t.locate path with
  -- Removing what is not there is no error.
  | .error .missing => .ok t
  | .error e => .error e
  | .ok parts =>
    match t.nodeAt? parts with
    | none => .ok t
    | some .directory => .error .isDirectory
    | some (.file _) => .ok { t with nodes := t.nodes.erase ("/".intercalate parts) }

end FileTree

end Parley
