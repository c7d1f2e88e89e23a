import Parley.Json.Writer
import Parley.OrderedMap

/-!
# Validated Records

Records with named fields of declared types, checked when a record is built, so that a slip in a data
file shows up when it is loaded. A record that can be filled with defaults is built again, and what it
says is then checked again.

The checks are made by a validator, which is a library of its own: what is known of a validator is what
its manual says (`Validator`). Nothing is converted: a document of the declared type stays what it is.
One validator that does as the manual says is `Validator.standard`.
-/

namespace Parley

/-- The type that a field declares. -/
inductive FieldType
  | bool
  | int
  | text
  /-- A value of one of the types. -/
  | oneOf (types : List FieldType)
  /-- Values of one type under names. -/
  | mapOf (values : FieldType)
  deriving Inhabited

/-- A field of a kind of record. -/
structure FieldRule where
  name : String
  type : FieldType
  /-- The value of the field when none is given; a field without one has to be given. -/
  initial : Option Json
  deriving Inhabited

/-- A kind of record. -/
structure RecordRule where
  fields : List FieldRule
  /-- Whether fields that are not listed are refused, and not ignored. -/
  closed : Bool
  /-- The names of what all records of the kind share or derive. -/
  shared : List String := []
  /-- The names of the operations of the kind beside those that all records have. -/
  operations : List String := []
  deriving Inhabited

/-- Why a change of a record is refused. -/
inductive RecordError
  /-- The named fields are at fault. -/
  | invalid (fields : List String)
  /-- A record of this kind has no such attribute. -/
  | noAttribute
  /-- A record of this kind has no such field. -/
  | noField
  /-- Something is not of the kind that is needed: a name that is no text, a value that cannot be
  counted or looked up by, or defaults without names. -/
  | wrongKind
  deriving DecidableEq, Inhabited

/-- A validator of records, of which no more is known than what its manual says. -/
structure Validator where
  /-- The value that a document stands for where a type is declared, if it is one of that type. -/
  check : FieldType → Json → Option Json
  /-- The fields of the record that a document writes. -/
  build : RecordRule → Json → Except RecordError (List (String × Json))
  /-- Whether what a record with these fields has under a name is filled, if it has anything there. A
  record has more than its fields: its operations, and what the validator keeps about it. -/
  isFilled? : RecordRule → List (String × Json) → String → Option Bool
  /-- A truth value is one and stays as it is. Nothing else is taken for one. -/
  check_bool (document : Json) : check .bool document = document.bool?.map .bool
  /-- So with integers, of which truth values are none, nor numbers with a fraction. -/
  check_int (document : Json) : check .int document = document.int?.map .int
  /-- So with texts. -/
  check_text (document : Json) : check .text document = document.str?.map .str
  /-- What is made of a document where one of several types is declared, one of them makes of it. -/
  check_oneOf (types : List FieldType) (document value : Json) :
    check (.oneOf types) document = some value → ∃ type ∈ types, check type document = some value
  /-- A document of one of several types is not refused. -/
  isSome_check_oneOf (types : List FieldType) (document : Json) :
    (∃ type ∈ types, (check type document).isSome = true) →
      (check (.oneOf types) document).isSome = true
  /-- An object is a map if all its fields are of the type of the values; names and order stay. Nothing
  else is one. -/
  check_mapOf (values : FieldType) (document : Json) : check (.mapOf values) document =
    document.fields?.bind fun given =>
      (given.mapM fun g => (check values g.2).map (g.1, ·)).map .object
  /-- An object writes a record if each listed field is of its type, or is not given and has an initial
  value, which is not checked. A closed record has no other fields. Nothing else writes one. -/
  build_eq_ok_iff (rule : RecordRule) (document : Json) (fields : List (String × Json)) :
    build rule document = .ok fields ↔ ∃ given, document.fields? = some given ∧
      (rule.closed = true → ∀ g ∈ given, ∃ f ∈ rule.fields, f.name = g.1) ∧
      (rule.fields.mapM fun f =>
        ((given.lookup f.name).elim f.initial (check f.type)).map (f.name, ·)) = some fields
  /-- A field is filled unless its value counts as false. -/
  isFilled?_of_field (rule : RecordRule) (fields : List (String × Json)) (name : String)
    (value : Json) : fields.lookup name = some value → isFilled? rule fields name = some value.isTruthy

namespace RecordRule

variable (v : Validator) (r : RecordRule)

/-- The given defaults for what is not filled. -/
def missing (record : List (String × Json)) :
    List (String × Json) → Except RecordError (List (String × Json))
  | [] => .ok []
  | (name, value) :: rest =>
    match v.isFilled? r record name with
    | none => .error .noAttribute
    | some filled => do
      let more ← missing record rest
      .ok (if filled then more else (name, value) :: more)

/-- The record with defaults for what is not filled; nothing if there is nothing to fill. Only closed
records can be filled, and only with fields; what the result says is checked. -/
def withDefaults (record : List (String × Json)) (defaults : Json) :
    Except RecordError (Option (List (String × Json))) := do
  if !r.closed then throw .noAttribute
  match defaults with
  | .object defaults =>
    if (defaults.lookup "self").isSome then throw .wrongKind
    match ← r.missing v record defaults with
    | [] => .ok none
    | filled =>
      (v.build r (.object (filled.foldl (fun fs e => insertEntry e.1 e.2 fs) record))).map some
  | _ => throw .wrongKind

end RecordRule

/-! ## The standard validator -/

namespace FieldType

mutual

/-- The value that a document stands for where a type is declared. -/
def check : FieldType → Json → Option Json
  | .bool, document => document.bool?.map .bool
  | .int, document => document.int?.map .int
  | .text, document => document.str?.map .str
  | .oneOf types, document => checkAny types document
  | .mapOf values, document => document.fields?.bind fun given =>
    (given.mapM fun g => (check values g.2).map (g.1, ·)).map .object

/-- The value that a document stands for where one of several types is declared: the first of them
that makes something of it decides. -/
def checkAny : List FieldType → Json → Option Json
  | [], _ => none
  | type :: rest, document => (check type document).or (checkAny rest document)

end

theorem checkAny_eq_some {types : List FieldType} {document value : Json}
    (h : checkAny types document = some value) : ∃ type ∈ types, check type document = some value := by
  induction types with
  | nil => rw [checkAny] at h; cases h
  | cons type rest ih =>
    rw [checkAny, Option.or_eq_some_iff] at h
    rcases h with h | ⟨-, h⟩
    · exact ⟨type, List.mem_cons_self, h⟩
    · obtain ⟨other, hmem, hother⟩ := ih h
      exact ⟨other, List.mem_cons_of_mem _ hmem, hother⟩

theorem isSome_checkAny {types : List FieldType} {document : Json}
    (h : ∃ type ∈ types, (check type document).isSome = true) :
    (checkAny types document).isSome = true := by
  induction types with
  | nil => obtain ⟨type, hmem, -⟩ := h; cases hmem
  | cons type rest ih =>
    rw [checkAny, Option.isSome_or, Bool.or_eq_true]
    obtain ⟨other, hmem, hother⟩ := h
    rcases List.mem_cons.1 hmem with rfl | hmem
    · exact .inl hother
    · exact .inr (ih ⟨other, hmem, hother⟩)

end FieldType

namespace RecordRule

/-- A name put in front of names in increasing order, each once. -/
def insertName (name : String) : List String → List String
  | [] => [name]
  | n :: rest =>
    if n = name then n :: rest else if n < name then n :: insertName name rest
    else name :: n :: rest

variable (r : RecordRule)

/-- Whether a given field is at fault. -/
def refuses (entry : String × Json) : Bool :=
  match r.fields.find? fun f => f.name == entry.1 with
  | some f => (f.type.check entry.2).isNone
  | none => r.closed

/-- The names of the fields at fault, in increasing order: those given with a value that is not of
their type, those unknown, and those that are missing. -/
def faults (given : List (String × Json)) : List String :=
  let refused := (given.filter r.refuses).map Prod.fst
  let missing := (r.fields.filter fun f => f.initial.isNone && (given.lookup f.name).isNone).map
    FieldRule.name
  (refused ++ missing).foldr insertName []

/-- The field of a record, unless it is at fault. -/
def field? (given : List (String × Json)) (f : FieldRule) : Option (String × Json) :=
  ((given.lookup f.name).elim f.initial f.type.check).map (f.name, ·)

/-- Whether a closed record has fields that are not listed. -/
def hasUnknown (given : List (String × Json)) : Bool :=
  r.closed && given.any fun g => !r.fields.any fun f => f.name == g.1

/-- The record written by a document. -/
def build (document : Json) : Except RecordError (List (String × Json)) :=
  match document.fields? with
  | none => .error (.invalid [])
  | some given =>
    match if r.hasUnknown given then none else r.fields.mapM (field? given) with
    | some fields => .ok fields
    | none => .error (.invalid (r.faults given))

/-- Whether what a record has under a name is filled: fields are unless they count as false, and what
all records of the kind have is. -/
def isFilled? (record : List (String × Json)) (name : String) : Option Bool :=
  match record.lookup name with
  | some value => some value.isTruthy
  | none => if (r.shared ++ r.operations).contains name then some true else none

end RecordRule

/-- The validator that does as the manual says and knows nothing else of records. -/
def Validator.standard : Validator where
  check := FieldType.check
  build := RecordRule.build
  isFilled? := RecordRule.isFilled?
  check_bool _ := by rw [FieldType.check]
  check_int _ := by rw [FieldType.check]
  check_text _ := by rw [FieldType.check]
  check_oneOf types document value h := by
    rw [FieldType.check] at h
    exact FieldType.checkAny_eq_some h
  isSome_check_oneOf types document h := by
    rw [FieldType.check]
    exact FieldType.isSome_checkAny h
  check_mapOf values document := by rw [FieldType.check]
  build_eq_ok_iff rule document fields := by
    have hclosed : ∀ given, rule.hasUnknown given = false ↔
        (rule.closed = true → ∀ g ∈ given, ∃ f ∈ rule.fields, f.name = g.1) := by
      simp [RecordRule.hasUnknown]
    rw [RecordRule.build]
    cases document.fields? with
    | none => simp
    | some given =>
      simp only [Option.some.injEq, exists_eq_left', ← hclosed]
      cases rule.hasUnknown given with
      | true => simp
      | false =>
        -- The fields are made one by one, as the manual says.
        simp only [Bool.false_eq_true, if_false, true_and]
        show _ ↔ rule.fields.mapM (RecordRule.field? given) = some fields
        cases rule.fields.mapM (RecordRule.field? given) with
        | none => simp
        | some made => simp
  isFilled?_of_field rule fields name value h := by
    rw [RecordRule.isFilled?, h]

instance : Inhabited Validator :=
  ⟨.standard⟩

/-- A field that holds a text, empty unless given. -/
def FieldRule.ofText (name : String) : FieldRule :=
  ⟨name, .text, some (.str "")⟩

end Parley
