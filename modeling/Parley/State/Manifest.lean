import Parley.Json.Schema
import Parley.OrderedMap
import Parley.Value

/-!
# Scope Manifests

Which scope owns a variable is never guessed from its name: a manifest declares scope, type and
initial value of every variable that scripts may write.

A manifest document is an object with a field `variables`, an object from names to declarations.
A declaration has a `scope` (`global` or `speaker`), a `type` (`bool`, `int` or `str`) and at most
a `default` and a `description` beside them. A schema says so (`Manifest.schema`), and a checker holds the
document against it before anything is taken from it.
-/

namespace Parley

/-- Who owns a variable. -/
inductive Scope
  /-- One value for the whole game. -/
  | global
  /-- A value for each speaker. -/
  | speaker
  deriving DecidableEq, Inhabited

namespace Scope

/-- The word for a scope in manifests. -/
def name : Scope → String
  | .global => "global"
  | .speaker => "speaker"

/-- The scope named by a word. -/
def ofName? : String → Option Scope
  | "global" => some .global
  | "speaker" => some .speaker
  | _ => none

@[simp]
theorem ofName?_name (scope : Scope) : ofName? scope.name = some scope := by
  cases scope <;> rfl

end Scope

/-- The declaration of a variable. -/
structure Declaration where
  name : String
  /-- Who owns it. -/
  scope : Scope
  /-- The type of the values that may be written to it. -/
  type : ValueType
  /-- What it holds before it is written. -/
  initial : Stored
  deriving Inhabited

/-- A declaration made by hand. Without an initial value the one of the type is taken; a given one
is not checked. -/
def Declaration.make (name : String) (scope : Scope) (type : ValueType)
    (initial : Option Stored := none) : Declaration :=
  ⟨name, scope, type, initial.getD (.value type.initial)⟩

/-- The declarations of the variables that scripts may write. -/
structure Manifest where
  declarations : OrderedMap Declaration
  deriving Inhabited

/-- Why a document is no manifest. -/
inductive ManifestError
  /-- It does not have the shape of a manifest. -/
  | malformed
  /-- A default is a whole number that is not written as an integer. -/
  | notValue (document : Json)
  /-- A default is not of the declared type. -/
  | wrongDefault (name : String) (type : ValueType)
  deriving Inhabited

/-- The wording of a manifest error. -/
def ManifestError.message : ManifestError → String
  | .malformed => "malformed manifest"
  | .notValue document => "not a script value: " ++ document.display
  | .wrongDefault name type => "default for " ++ name ++ " is not of type " ++ type.name

namespace Manifest

/-- The manifest that declares nothing. -/
def empty : Manifest :=
  ⟨.empty⟩

/-- The declaration of a variable. -/
def get? (m : Manifest) (name : String) : Option Declaration :=
  m.declarations.get? name

/-- The scope of a declared variable. -/
def scopeOf? (m : Manifest) (name : String) : Option Scope :=
  (m.get? name).map Declaration.scope

/-- Whether a variable is declared. -/
def contains (m : Manifest) (name : String) : Bool :=
  m.declarations.contains name

/-- The count of declarations. -/
def size (m : Manifest) : Nat :=
  m.declarations.size

/-- The declared names. -/
def names (m : Manifest) : List String :=
  m.declarations.keys

/-- The manifest with a declaration added or replaced. -/
def declare (m : Manifest) (d : Declaration) : Manifest :=
  ⟨m.declarations.insert d.name d⟩

/-- What the fields of a declaration look like. A default is only roughly right yet: it may be of another
type than the declared one. -/
def declarationProperties : List (String × Schema) :=
  [("scope", .word ([Scope.global, .speaker].map Scope.name)),
    ("type", .word ([ValueType.bool, .int, .str].map ValueType.name)),
    ("default", .ofType [.boolean, .integer, .string]),
    ("description", .ofType [.string])]

/-- What a declaration looks like. -/
def declarationSchema : Schema :=
  .object ["scope", "type"] declarationProperties (.any false)

/-- What a manifest looks like. -/
def schema : Schema :=
  .object ["variables"] [("variables", .object [] [] declarationSchema)] (.any true)

/-- The declaration written by a document of its shape. -/
def declaration (name : String) (entry : Json) : Except ManifestError Declaration :=
  match ((entry.field? "scope").bind Json.str?).bind Scope.ofName?,
    ((entry.field? "type").bind Json.str?).bind ValueType.ofName? with
  | some scope, some type =>
    match entry.field? "default" with
    | none => .ok ⟨name, scope, type, .value type.initial⟩
    | some document =>
      match Value.ofJson? document with
      | none => .error (.notValue document)
      | some v =>
        if v.type = type then .ok ⟨name, scope, type, .value v⟩ else .error (.wrongDefault name type)
  | _, _ => .error .malformed

/-- The manifest with the declarations of entries added. -/
def declareAll : Manifest → List (String × Json) → Except ManifestError Manifest
  | m, [] => .ok m
  | m, (name, entry) :: rest => do
    let d ← declaration name entry
    declareAll (m.declare d) rest

/-- The manifest written by a document. The shape of the whole document is checked before the
defaults are looked at. -/
def ofJson (document : Json) (schemas : SchemaChecker := .standard) :
    Except ManifestError Manifest :=
  if schemas.accepts schema document then
    match (document.field? "variables").bind Json.fields? with
    | some entries => declareAll empty entries
    | none => .error .malformed
  else .error .malformed

end Manifest

end Parley
