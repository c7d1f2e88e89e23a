import Parley.Files.Tree

/-!
# File Patterns

Patterns of paths below a directory. In a component of a pattern `*` stands for any text, `?` for a
character, and characters in brackets for one of them, or for one of the others if an exclamation
mark comes first. A component without such marks stands for itself. Two stars on their own stand for
the directory and all directories below it; two stars in a row mean nothing anywhere else. A pattern
that ends in a slash stands for directories only.

Main definitions: `Pattern.ofText?` reads a pattern, `Pattern.matchesName` compares a component with
a name, and `Pattern.paths` lists what a pattern stands for.
-/

namespace Parley

namespace Pattern

/-- A member of what stands between brackets. -/
inductive Member
  | single (c : Char)
  | range (lo hi : Char)
  deriving DecidableEq, Inhabited

namespace Member

/-- Whether a member admits a character. -/
def admits (m : Member) (c : Char) : Bool :=
  match m with
  | .single d => c == d
  | .range lo hi => lo ≤ c && c ≤ hi

/-- Whether a member admits any character. -/
def isInhabited : Member → Bool
  | .single _ => true
  | .range lo hi => lo ≤ hi

/-- A range of characters admits its first one, unless it admits none. -/
theorem admits_first {lo hi : Char} (h : (Member.range lo hi).isInhabited = true) :
    (Member.range lo hi).admits lo = true := by
  simpa [admits, isInhabited] using h

end Member

/-- A piece of a component. -/
inductive Piece
  | char (c : Char)
  | one
  | many
  /-- A character that one of the members admits, or that none of them admits. -/
  | oneOf (negated : Bool) (members : List Member)
  deriving DecidableEq, Inhabited

/-- The members between brackets. A dash makes a range of the characters beside it, and stands for
itself where it has no character on both sides. -/
def membersOf : List Char → List Member
  -- A dash that comes first is the low end of a range or stands for itself.
  | lo :: '-' :: hi :: rest => .range lo hi :: membersOf rest
  | c :: rest => .single c :: membersOf rest
  | [] => []

/-- The piece for the characters between brackets. Without a mark in front, a mark that is left first
when ranges without characters are dropped counts as one in front; where it starts a range, the dash
and the end of the range are left of that. -/
def bracket (negated : Bool) (body : List Char) : Piece :=
  match negated, (membersOf body).filter Member.isInhabited with
  | false, .single '!' :: rest => .oneOf true rest
  | false, .range '!' hi :: rest => .oneOf true (.single '-' :: .single hi :: rest)
  | _, members => .oneOf negated members

/-- What comes before the bracket that closes, and what comes after it. A bracket in the first place
does not close. -/
def cutBracket? (s : List Char) : Option (List Char × List Char) :=
  -- A closing bracket in the first place is a member.
  let first := if s.head? = some ']' then [']'] else []
  match (s.drop first.length).dropWhile (· != ']') with
  | ']' :: rest => some (first ++ (s.drop first.length).takeWhile (· != ']'), rest)
  | _ => none

/-- Reads the pieces of a component, on fuel that its length bounds. A bracket that is never closed
stands for itself. -/
def piecesWithin : Nat → List Char → List Piece
  | 0, _ => []
  | _, [] => []
  | fuel + 1, '*' :: rest => .many :: piecesWithin fuel rest
  | fuel + 1, '?' :: rest => .one :: piecesWithin fuel rest
  | fuel + 1, '[' :: rest =>
    let negated := rest.head? == some '!'
    match cutBracket? (if negated then rest.tail else rest) with
    | some (body, after) => bracket negated body :: piecesWithin fuel after
    -- Without a closing bracket the rest is read as if nothing had been opened.
    | none => .char '[' :: piecesWithin fuel rest
  | fuel + 1, c :: rest => .char c :: piecesWithin fuel rest

/-- The pieces of a component. -/
def pieces (component : List Char) : List Piece :=
  piecesWithin component.length component

/-- Whether a piece other than `many` admits a character. -/
def Piece.admits (p : Piece) (c : Char) : Bool :=
  match p with
  | .char d => c == d
  | .one => true
  | .many => false
  | .oneOf negated members => (members.any fun m => m.admits c) != negated

/-- For each place of a list, whether one of the values from there on holds. -/
def anyFrom : List Bool → List Bool
  | [] => []
  | b :: rest =>
    -- What comes later has been computed already, and is not looked at again.
    let later := anyFrom rest
    (b || later.headD false) :: later

@[simp]
theorem anyFrom_eq_nil_iff {values : List Bool} : anyFrom values = [] ↔ values = [] := by
  cases values <;> simp [anyFrom]

/-- For each place of a name, whether pieces stand for what is left of the name there; the last place
is the end. A row for one piece less answers for a piece, so that no part of a name is compared with
the same pieces twice. -/
def row (name : List Char) : List Piece → List Bool
  | [] => name.map (fun _ => false) ++ [true]
  | .many :: ps => anyFrom (row name ps)
  | p :: ps => name.zipWith (fun c b => p.admits c && b) (row name ps).tail ++ [false]

/-- Whether pieces stand for a name. -/
def matchesPieces (pieces : List Piece) (name : List Char) : Bool :=
  (row name pieces).headD false

/-- A row has at least one place. -/
theorem row_ne_nil (name : List Char) (ps : List Piece) : row name ps ≠ [] := by
  induction ps with
  | nil => simp [row]
  | cons p ps ih => cases p <;> simp_all [row]

/-- What is left of a name behind its first character has the row that is left. -/
theorem row_cons (c : Char) (name : List Char) (ps : List Piece) :
    ∃ b, row (c :: name) ps = b :: row name ps := by
  induction ps with
  | nil => exact ⟨false, rfl⟩
  | cons p ps ih =>
    obtain ⟨b, hb⟩ := ih
    obtain ⟨b', rest, hr⟩ := List.exists_cons_of_ne_nil (row_ne_nil name ps)
    cases p <;> simp [row, hb, hr, anyFrom]

/-- No pieces stand for the empty name only. -/
theorem matchesPieces_nil (name : List Char) : matchesPieces [] name = name.isEmpty := by
  cases name <;> rfl

/-- A star stands for the empty name if what is behind it does. -/
theorem matchesPieces_many_nil (ps : List Piece) :
    matchesPieces (.many :: ps) [] = matchesPieces ps [] := by
  have single : (row [] ps).tail = [] := by
    induction ps with
    | nil => rfl
    | cons p ps ih => cases p <;> cases h : row [] ps <;> simp_all [row, anyFrom]
  cases h : row [] ps <;> simp_all [matchesPieces, row, anyFrom]

/-- A star stands for nothing or for one more character. -/
theorem matchesPieces_many_cons (ps : List Piece) (c : Char) (name : List Char) :
    matchesPieces (.many :: ps) (c :: name) =
      (matchesPieces ps (c :: name) || matchesPieces (.many :: ps) name) := by
  obtain ⟨b, hb⟩ := row_cons c name ps
  simp [matchesPieces, row, hb, anyFrom]

/-- A piece other than a star stands for a character that it admits. -/
theorem matchesPieces_cons {p : Piece} (h : p ≠ .many) (ps : List Piece) (c : Char)
    (name : List Char) :
    matchesPieces (p :: ps) (c :: name) = (p.admits c && matchesPieces ps name) := by
  obtain ⟨b, hb⟩ := row_cons c name ps
  obtain ⟨b', rest, hr⟩ := List.exists_cons_of_ne_nil (row_ne_nil name ps)
  cases p <;> simp_all [matchesPieces, row]

/-- What stands for a name stands behind `*` for everything that ends in the name. -/
theorem matchesPieces_many {ps : List Piece} {name : List Char} (h : matchesPieces ps name = true)
    (start : List Char) : matchesPieces (.many :: ps) (start ++ name) = true := by
  induction start with
  | nil =>
    cases name with
    | nil => simpa [matchesPieces_many_nil] using h
    | cons c name => simp [matchesPieces_many_cons, h]
  | cons c start ih => simp [matchesPieces_many_cons, ih]

/-- Whether a component stands for a name. -/
def matchesName (component name : String) : Bool :=
  matchesPieces (pieces component.toList) name.toList

/-- A component of a pattern. -/
inductive Component
  /-- A directory and all directories below it. -/
  | anywhere
  | exact (name : String)
  /-- All names that pieces stand for. -/
  | wild (pieces : List Piece)
  deriving DecidableEq, Inhabited

/-- Whether two stars stand in a row. -/
def hasDoubleStar : List Char → Bool
  | '*' :: '*' :: _ => true
  | _ :: rest => hasDoubleStar rest
  | [] => false

/-- The component of a text, if it means something. -/
def Component.ofText? (text : String) : Option Component :=
  if text = "**" then some .anywhere
  else if hasDoubleStar text.toList then none
  else if text.toList.any fun c => c == '*' || c == '?' || c == '[' then
    some (.wild (pieces text.toList))
  else some (.exact text)

end Pattern

/-- A pattern of paths. -/
structure Pattern where
  components : List Pattern.Component
  directoriesOnly : Bool
  deriving DecidableEq, Inhabited

namespace Pattern

/-- The pattern of a text, if all its components mean something. -/
def ofText? (text : String) : Option Pattern :=
  ((Path.components text).mapM Component.ofText?).map fun components =>
    ⟨components, text.toList.getLast? == some '/'⟩

/-- The paths that a component stands for in a directory: only directories if more components or a
slash come after it. -/
def Component.paths (component : Component) (t : FileTree) (onlyDirectories : Bool)
    (here : String) : Except FileError (List String) :=
  match component with
  | .anywhere => .ok (t.directories here)
  | .exact name => do
    let path := Path.join here name
    let isThere ← if onlyDirectories then t.isDirectory path else t.pathExists path
    .ok (if isThere then [path] else [])
  | .wild pieces =>
    let found := ((t.names here).filter fun name => matchesPieces pieces name.toList).map
      (Path.join here)
    if onlyDirectories then found.filterM t.isDirectory else .ok found

/-- The paths that components stand for below directories. Only a component for any depth can lead to
one path in several ways. -/
def pathsBelow (t : FileTree) (directoriesOnly : Bool) :
    List Component → List String → Except FileError (List String)
  | [], found => .ok found
  | component :: rest, found => do
    let next ← found.mapM (component.paths t (directoriesOnly || !rest.isEmpty))
    -- Two stars in a row lead to one directory over several others.
    let next := if component = .anywhere then next.flatten.eraseDups else next.flatten
    pathsBelow t directoriesOnly rest next

/-- A path put into its place among paths in the order of their components. -/
def insertPath (path : String) : List String → List String
  | [] => [path]
  | p :: rest =>
    if Path.components p < Path.components path then p :: insertPath path rest else path :: p :: rest

/-- The paths that a pattern stands for below a directory, in the order of their components; none if
there is no such directory. -/
def paths (pattern : Pattern) (t : FileTree) (directory : String) :
    Except FileError (List String) := do
  if ← t.isDirectory directory then
    let found ← pathsBelow t pattern.directoriesOnly pattern.components [directory]
    .ok (found.foldr insertPath [])
  else .ok []

end Pattern

end Parley
