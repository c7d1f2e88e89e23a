import Parley.Record

/-!
# Records That Are Kept

A library of records may keep more than their fields, and what it has under other names is its own affair.
This is one such library, which takes the part of the validator wherever a record is filled with
defaults. Beside the fields a record has the operations of its kind, what all records of its kind
share, and notes, which are values attached to the record under names that start with an underscore.
None of them are part of what the record says, and no lemma is about them.
-/

namespace Parley

/-- A record as its library keeps it. -/
structure Kept where
  fields : List (String × Json)
  /-- Values attached under names that start with an underscore. -/
  notes : List (String × Json) := []
  /-- Whether a field was ever given. -/
  isStarted : Bool := true

namespace Kept

/-- A new record, written by a document. -/
def create (r : RecordRule) (document : Json) : Except RecordError Kept :=
  (r.build document).map fun fields => { fields, isStarted := document != .object [] }

/-- The names under which a record tells what goes beyond its fields, which cannot be set. -/
def derivedNames : List String :=
  ["model_extra", "model_fields_set"]

/-- A record with an attribute set. A note may be anything. A closed record checks the value of a
field; an open one only asks whether there is such a field. -/
def set (record : Kept) (r : RecordRule) (name : String) (value : Json) : Except RecordError Kept :=
  if name.toList.head? == some '_' then
    .ok { record with notes := insertEntry name value record.notes }
  else if (r.shared ++ derivedNames).contains name then .error .noAttribute
  else if r.closed && r.refuses (name, value) then .error (.invalid [name])
  else if !r.closed && (r.fields.find? fun f => f.name == name).isNone then .error .noField
  else .ok { record with fields := insertEntry name value record.fields, isStarted := true }

/-- The operations that all closed records have, and what they know of their kind. -/
def commonOperations : List String :=
  ["with_defaults", "construct", "copy", "dict", "from_orm", "json", "parse_file", "parse_obj",
    "parse_raw", "schema", "schema_json", "update_forward_refs", "validate"] ++
  ["config", "construct", "copy", "dump", "dump_json", "fields", "json_schema",
    "parametrized_name", "post_init", "rebuild", "validate", "validate_json",
    "validate_strings"].map ("model_" ++ ·)

/-- The name that stands between pairs of underscores. -/
def innerName (word : String) : String :=
  "__" ++ word ++ "__"

/-- The inner names under which all closed records have something. -/
def filledInnerNames : List String :=
  ["annotations", "class", "class_getitem", "class_vars", "copy", "deepcopy", "delattr", "dict", "dir",
    "doc", "eq", "format", "ge", "getattr", "getattribute", "getstate", "gt", "init", "init_subclass",
    "iter", "le", "lt", "module", "ne", "new", "pretty", "reduce", "reduce_ex", "replace", "repr",
    "repr_args", "repr_name", "repr_recursion", "repr_str", "rich_repr", "setattr", "setstate",
    "sizeof", "slots", "str", "subclasshook"].map innerName

/-- The names under which all closed records could have something, but have nothing. -/
def emptyNames : List String :=
  ["model_extra", "model_computed_fields"] ++
    ["abstractmethods", "hash", "private_attributes", "weakref"].map innerName

/-- The names under which a record tells which fields were given. -/
def givenNames : List String :=
  ["model_fields_set", innerName "fields_set"]

/-- The standard validator with what its records have beside their fields. -/
def validator (record : Kept) : Validator :=
  { Validator.standard with
    isFilled? := fun r fields name =>
      match (fields.lookup name).or (record.notes.lookup name) with
      | some value => some value.isTruthy
      | none =>
        if givenNames.contains name then some record.isStarted
        else if emptyNames.contains name then some false
        else if (r.shared ++ r.operations ++ commonOperations ++ filledInnerNames).contains name then
          some true
        else none
    isFilled?_of_field := fun _ _ _ _ h => by simp [h] }

end Kept

end Parley
