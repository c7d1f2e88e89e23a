import Parley.Json.Binary64
import Parley.Text.Integer

/-!
# JSON Documents

Documents whose objects keep the order of their fields and whose numbers keep their kind: a number
written without fraction and exponent is an integer of any size, every other one a binary64
number. Objects that were read have distinct field names.

Two measures of a document decide whether it can be read and written: the depth of its objects and
lists, and whether some integer in it has too many digits to be converted.
-/

namespace Parley

/-- A JSON document. -/
inductive Json
  | null
  | bool (b : Bool)
  | int (n : Int)
  | float (x : Json.Binary64)
  | str (s : String)
  | list (items : List Json)
  | object (fields : List (String × Json))
  deriving Inhabited

namespace Json

/-- The fields of a document that is an object. -/
def fields? : Json → Option (List (String × Json))
  | .object fields => some fields
  | _ => none

/-- The items of a document that is a list. -/
def items? : Json → Option (List Json)
  | .list items => some items
  | _ => none

/-- The text of a document that is a string. -/
def str? : Json → Option String
  | .str s => some s
  | _ => none

/-- The number of a document that is an integer. -/
def int? : Json → Option Int
  | .int n => some n
  | _ => none

/-- The truth value of a document that is one. -/
def bool? : Json → Option Bool
  | .bool b => some b
  | _ => none

/-- Whether a document is a text. -/
def isText (document : Json) : Bool :=
  document.str?.isSome

/-- Whether a document can be looked up by: lists and objects cannot. -/
def isKey : Json → Bool
  | .list _ => false
  | .object _ => false
  | _ => true

/-- The field of that name, if the document is an object that has it. -/
def field? (name : String) : Json → Option Json
  | .object fields => fields.lookup name
  | _ => none

/-- Whether a document counts as true where a condition is asked for: null, false, zero and
everything empty do not. -/
def isTruthy : Json → Bool
  | .null => false
  | .bool b => b
  | .int n => n != 0
  | .float x => !x.isZero
  | .str s => !s.isEmpty
  | .list items => !items.isEmpty
  | .object fields => !fields.isEmpty

@[simp]
theorem isTruthy_str (s : String) : (Json.str s).isTruthy = !s.isEmpty := rfl

mutual

/-- Structural equality of documents, in which the order of fields counts. -/
def beq : Json → Json → Bool
  | .null, .null => true
  | .bool a, .bool b => a == b
  | .int a, .int b => a == b
  | .float a, .float b => decide (a = b)
  | .str a, .str b => a == b
  | .list a, .list b => beqItems a b
  | .object a, .object b => beqFields a b
  | _, _ => false

/-- Structural equality of lists of documents. -/
def beqItems : List Json → List Json → Bool
  | [], [] => true
  | a :: as, b :: bs => beq a b && beqItems as bs
  | _, _ => false

/-- Structural equality of lists of fields. -/
def beqFields : List (String × Json) → List (String × Json) → Bool
  | [], [] => true
  | (n, a) :: as, (m, b) :: bs => n == m && beq a b && beqFields as bs
  | _, _ => false

end

instance : BEq Json := ⟨beq⟩

mutual

/-- Documents that compare as equal are equal. -/
theorem eq_of_beq : ∀ {a b : Json}, beq a b = true → a = b
  | a, b, h => by
    cases a <;> cases b <;> simp_all [beq]
    · exact eq_of_beqItems h
    · exact eq_of_beqFields h

theorem eq_of_beqItems : ∀ {a b : List Json}, beqItems a b = true → a = b
  | [], [], _ => rfl
  | [], _ :: _, h => by simp [beqItems] at h
  | _ :: _, [], h => by simp [beqItems] at h
  | a :: as, b :: bs, h => by
    simp only [beqItems, Bool.and_eq_true] at h
    rw [eq_of_beq h.1, eq_of_beqItems h.2]

theorem eq_of_beqFields : ∀ {a b : List (String × Json)}, beqFields a b = true → a = b
  | [], [], _ => rfl
  | [], _ :: _, h => by simp [beqFields] at h
  | _ :: _, [], h => by simp [beqFields] at h
  | (n, a) :: as, (m, b) :: bs, h => by
    simp only [beqFields, Bool.and_eq_true, beq_iff_eq] at h
    rw [h.1.1, eq_of_beq h.1.2, eq_of_beqFields h.2]

end

mutual

/-- A document compares as equal with itself. -/
theorem beq_self : ∀ a : Json, beq a a = true
  | .null => rfl
  | .bool b => by simp [beq]
  | .int b => by simp [beq]
  | .float b => by simp [beq]
  | .str b => by simp [beq]
  | .list items => by simpa [beq] using beqItems_self items
  | .object fields => by simpa [beq] using beqFields_self fields

theorem beqItems_self : ∀ a : List Json, beqItems a a = true
  | [] => rfl
  | a :: as => by simp [beqItems, beq_self a, beqItems_self as]

theorem beqFields_self : ∀ a : List (String × Json), beqFields a a = true
  | [] => rfl
  | (n, a) :: as => by simp [beqFields, beq_self a, beqFields_self as]

end

instance : LawfulBEq Json where
  eq_of_beq := eq_of_beq
  rfl := beq_self _

instance : DecidableEq Json := fun a b =>
  decidable_of_iff (beq a b = true) ⟨eq_of_beq, fun h => h ▸ beq_self a⟩

mutual

/-- Whether all integers of a document can be converted to and from text. -/
def isShort : Json → Bool
  | .int n => !Text.isOverlong (Text.ofInt n)
  | .list items => itemsShort items
  | .object fields => fieldsShort fields
  | _ => true

/-- Whether all integers of documents can be converted. -/
def itemsShort : List Json → Bool
  | [] => true
  | v :: rest => isShort v && itemsShort rest

/-- Whether all integers of the documents of fields can be converted. -/
def fieldsShort : List (String × Json) → Bool
  | [] => true
  | (_, v) :: rest => isShort v && fieldsShort rest

end

mutual

/-- The most objects and lists of a document that lie one within the other. -/
def depth : Json → Nat
  | .list items => itemsDepth items + 1
  | .object fields => fieldsDepth fields + 1
  | _ => 0

/-- The depth of the deepest one of documents. -/
def itemsDepth : List Json → Nat
  | [] => 0
  | v :: rest => max (depth v) (itemsDepth rest)

/-- The depth of the deepest document of fields. -/
def fieldsDepth : List (String × Json) → Nat
  | [] => 0
  | (_, v) :: rest => max (depth v) (fieldsDepth rest)

end

end Json

end Parley
