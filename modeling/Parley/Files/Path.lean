/-!
# Paths

Paths as texts of components between slashes. The normal form of a path drops empty components and
single dots, and is a single dot if nothing is left. Exactly two leading slashes are kept; any other
number of leading slashes counts as one. Double dots stay as they are.
-/

namespace Parley.Path

/-- The components of a path. -/
def components (path : String) : List String :=
  ((path.toList.splitOn '/').map String.ofList).filter fun c => c != "" && c != "."

/-- The components with which a path starts that leads elsewhere. -/
def elsewhere : List String :=
  ["/"]

/-- The place above a place. Above the place where a path starts come those that double dots on their
own lead to; nothing is above the start of a path that leads elsewhere. -/
def above (here : List String) : List String :=
  if here = elsewhere then here
  else if here.getLast?.all (· == "..") then here ++ [".."]
  else here.dropLast

/-- What is left of components when every double dot takes back the one before it. -/
def resolve (parts : List String) : List String :=
  parts.foldl (fun here part => if part = ".." then above here else here ++ [part]) []

/-- A component comes behind what is left of those before it. -/
theorem resolve_step (parts : List String) {part : String} (h : part ≠ "..") :
    resolve (parts ++ [part]) = resolve parts ++ [part] := by
  simp [resolve, List.foldl_append, h]

/-- A double dot takes back the component before it. -/
theorem resolve_back (parts : List String) {part : String} (h : part ≠ "..") (start : part ≠ "/") :
    resolve (parts ++ [part, ".."]) = resolve parts := by
  have here : resolve parts ++ [part] ≠ elsewhere := by
    cases hr : resolve parts <;> simp [elsewhere, start]
  have : resolve (parts ++ [part, ".."]) = above (resolve (parts ++ [part])) := by
    simp [resolve, List.foldl_append]
  rw [this, resolve_step parts h]
  simp [above, here, h]

/-- The leading slashes that a path keeps. -/
def rootOf (path : String) : String :=
  match path.toList with
  | '/' :: '/' :: '/' :: _ => "/"
  | '/' :: '/' :: _ => "//"
  | '/' :: _ => "/"
  | _ => ""

/-- A path made of leading slashes and components. -/
def build (root : String) (parts : List String) : String :=
  if root = "" ∧ parts = [] then "." else root ++ "/".intercalate parts

/-- The normal form of a path. -/
def normalize (path : String) : String :=
  build (rootOf path) (components path)

/-- A path inside another one; a path with a leading slash stands for itself. -/
def join (base path : String) : String :=
  if rootOf path = "" then build (rootOf base) (components base ++ components path)
  else normalize path

/-- The last component of a path, empty if there is none. -/
def name (path : String) : String :=
  (components path).getLastD ""

/-- The last component without its last extension. A leading or trailing dot starts none. -/
def stem (path : String) : String :=
  let chars := (name path).toList
  let reversed := chars.reverse
  match reversed.dropWhile (· != '.') with
  | '.' :: before =>
    if before.isEmpty || reversed.head? == some '.' then String.ofList chars
    else String.ofList before.reverse
  | _ => String.ofList chars

end Parley.Path
