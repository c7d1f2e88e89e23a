import Parley.Json.Writer

/-!
# Script Values

The values that scripts compute with, their three types, and the values that quest state may hold.
State restored from outside is not checked, so beside script values it may hold any other document;
such a foreign value can be looked up, but neither compared nor written again.
-/

namespace Parley

/-- A value that a script can write down, compare and store. -/
inductive Value
  | bool (b : Bool)
  | int (n : Int)
  | str (s : String)
  deriving DecidableEq, Inhabited

/-- The types of script values. -/
inductive ValueType
  | bool
  | int
  | str
  deriving DecidableEq, Inhabited

/-- A value held by quest state. -/
inductive Stored
  | value (v : Value)
  /-- A document that is no script value. -/
  | foreign (document : Json)
  deriving Inhabited

namespace ValueType

/-- The word for a type in manifests and messages. -/
def name : ValueType → String
  | .bool => "bool"
  | .int => "int"
  | .str => "str"

/-- The type named by a word. -/
def ofName? : String → Option ValueType
  | "bool" => some .bool
  | "int" => some .int
  | "str" => some .str
  | _ => none

/-- The value of a variable of the type that was never written. -/
def initial : ValueType → Value
  | .bool => .bool false
  | .int => .int 0
  | .str => .str ""

@[simp]
theorem ofName?_name (t : ValueType) : ofName? t.name = some t := by
  cases t <;> rfl

end ValueType

namespace Value

/-- The type of a value. -/
def type : Value → ValueType
  | .bool _ => .bool
  | .int _ => .int
  | .str _ => .str

@[simp]
theorem type_initial (t : ValueType) : t.initial.type = t := by
  cases t <;> rfl

/-- Whether a value counts as true in a test: false, zero and the empty text do not. -/
def isTruthy : Value → Bool
  | .bool b => b
  | .int n => n != 0
  | .str s => s != ""

/-- The document for a value. -/
def toJson : Value → Json
  | .bool b => .bool b
  | .int n => .int n
  | .str s => .str s

/-- The script value written as a document, if it is one. -/
def ofJson? : Json → Option Value
  | .bool b => some (.bool b)
  | .int n => some (.int n)
  | .str s => some (.str s)
  | _ => none

@[simp]
theorem ofJson?_toJson (v : Value) : ofJson? v.toJson = some v := by
  cases v <;> rfl

/-- The text of a value used inside messages. -/
def display (v : Value) : String :=
  v.toJson.display

end Value

namespace Stored

/-- The stored form of a document. -/
def ofJson (document : Json) : Stored :=
  match Value.ofJson? document with
  | some v => .value v
  | none => .foreign document

/-- The document for a stored value. -/
def toJson : Stored → Json
  | .value v => v.toJson
  | .foreign document => document

/-- The script value that is stored, if it is one. -/
def value? : Stored → Option Value
  | .value v => some v
  | .foreign _ => none

/-- Whether a stored value counts as true in a test. -/
def isTruthy : Stored → Bool
  | .value v => v.isTruthy
  | .foreign document => document.isTruthy

/-- The text of a stored value used inside messages. -/
def display (x : Stored) : String :=
  x.toJson.display

@[simp]
theorem ofJson_toJson (v : Value) : ofJson v.toJson = .value v := by
  simp [ofJson]

@[simp]
theorem toJson_ofJson (document : Json) : (ofJson document).toJson = document := by
  cases document <;> rfl

end Stored

end Parley
