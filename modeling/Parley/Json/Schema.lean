import Parley.Json.Basic

/-!
# Document Schemas

What a document has to look like, as far as scope manifests need schemas to say it. A document is held
against a schema by a checker, which is a library of its own: what is known of a checker is what the
standard says of the schemas (`SchemaChecker`). One checker that is as the standard says is
`SchemaChecker.standard`.
-/

namespace Parley

/-- A kind of documents that a schema can name. -/
inductive SchemaType
  | boolean
  | integer
  | string
  deriving DecidableEq, Inhabited

/-- Whether a document is of a kind. A number without fraction is an integer however it is written,
and a truth value is none. -/
def SchemaType.admits : SchemaType → Json → Bool
  | .boolean, .bool _ => true
  | .integer, .int _ => true
  | .integer, .float x => x.isWhole
  | .string, .str _ => true
  | _, _ => false

/-- What a document is asked for. -/
inductive Schema
  /-- Anything is taken, or nothing is. -/
  | any (taken : Bool)
  /-- A document of one of the kinds. -/
  | ofType (types : List SchemaType)
  /-- One of the words. -/
  | word (words : List String)
  /-- An object with the required fields. Fields with a property have to be as it says, and all the
  others as the last schema says. -/
  | object (required : List String) (properties : List (String × Schema)) (others : Schema)
  deriving Inhabited

/-- A checker of documents, of which no more is known than what the standard says. -/
structure SchemaChecker where
  accepts : Schema → Json → Bool
  /-- The two schemas that do not look at the document. -/
  accepts_any (taken : Bool) (document : Json) : accepts (.any taken) document = taken
  /-- A kind is asked for. -/
  accepts_ofType (types : List SchemaType) (document : Json) :
    accepts (.ofType types) document = true ↔ ∃ type ∈ types, type.admits document = true
  /-- A word is asked for. -/
  accepts_word (words : List String) (document : Json) :
    accepts (.word words) document = true ↔ ∃ word ∈ words, document = .str word
  /-- An object is asked for, and something of each of its fields. -/
  accepts_object (required : List String) (properties : List (String × Schema)) (others : Schema)
    (document : Json) : accepts (.object required properties others) document = true ↔
      ∃ fields, document = .object fields ∧
        (∀ name ∈ required, (fields.lookup name).isSome = true) ∧
        ∀ f ∈ fields, accepts ((properties.lookup f.1).getD others) f.2 = true

namespace Schema

mutual

/-- Whether a document is as a schema says. -/
def admits : Schema → Json → Bool
  | .any taken, _ => taken
  | .ofType types, document => types.any fun type => type.admits document
  | .word words, document => words.any fun word => document == .str word
  | .object required properties others, document =>
    match document with
    | .object fields =>
      required.all (fun name => (fields.lookup name).isSome) &&
        fields.all fun f => (((tests properties).lookup f.1).getD (admits others)) f.2
    | _ => false

/-- The tests for the fields that have a property. -/
def tests : List (String × Schema) → List (String × (Json → Bool))
  | [] => []
  | (name, schema) :: rest => (name, admits schema) :: tests rest

end

theorem lookup_tests (properties : List (String × Schema)) (name : String) :
    (tests properties).lookup name = (properties.lookup name).map admits := by
  induction properties with
  | nil => rw [tests]; rfl
  | cons p rest ih =>
    rw [tests, List.lookup_cons, List.lookup_cons]
    split
    · rfl
    · exact ih

/-- The test for a field is that of its property, or that for all others. -/
theorem getD_lookup_tests (properties : List (String × Schema)) (others : Schema) (name : String) :
    ((tests properties).lookup name).getD (admits others) =
      admits ((properties.lookup name).getD others) := by
  rw [lookup_tests]
  cases properties.lookup name <;> rfl

end Schema

/-- The checker that goes by the standard and by nothing else. -/
def SchemaChecker.standard : SchemaChecker where
  accepts := Schema.admits
  accepts_any _ _ := by rw [Schema.admits]
  accepts_ofType _ _ := by rw [Schema.admits, List.any_eq_true]
  accepts_word words document := by simp [Schema.admits]
  accepts_object required properties others document := by
    rw [Schema.admits.eq_def]
    cases document with
    | object fields =>
      simp only [Bool.and_eq_true, List.all_eq_true, Schema.getD_lookup_tests, Json.object.injEq,
        exists_eq_left']
    | _ => simp

instance : Inhabited SchemaChecker :=
  ⟨.standard⟩

end Parley
