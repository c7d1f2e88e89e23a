import Parley.Json.Basic
import Parley.Text.Integer
import Parley.Text.Quoted

/-!
# Writing JSON

Three forms of a document. The canonical form has no blanks and its fields in the order of their
names by code point; the indented form has a line per item, two blanks per level, and keeps the
order of the fields. Both use ASCII characters only. The displayed form is the one used inside
messages.

Integers with too many digits are refused. The canonical form is made as a whole, so that nothing comes
of it then; the indented form is written piece by piece, and what is before the integer stays.
-/

namespace Parley.Json

/-- The escape of a UTF-16 unit. -/
def escapeUnit (n : Nat) : List Char :=
  '\\' :: 'u' :: Text.hex 4 n

/-- A character as it is written inside a JSON string. -/
def escapeChar (c : Char) : List Char :=
  if c = '"' ∨ c = '\\' then ['\\', c]
  else if c = '\n' then ['\\', 'n']
  else if c = '\r' then ['\\', 'r']
  else if c = '\t' then ['\\', 't']
  else if c = '\x08' then ['\\', 'b']
  else if c = '\x0C' then ['\\', 'f']
  else if 0x20 ≤ c.toNat ∧ c.toNat < 0x7F then [c]
  else if c.toNat < 0x10000 then escapeUnit c.toNat
  else
    -- Beyond the first plane a character takes two UTF-16 units.
    escapeUnit (0xD800 + (c.toNat - 0x10000) / 0x400) ++
      escapeUnit (0xDC00 + (c.toNat - 0x10000) % 0x400)

/-- A JSON string. -/
def writeString (s : String) : List Char :=
  '"' :: s.toList.flatMap escapeChar ++ ['"']

/-- A JSON number of binary64 kind. -/
def writeFloat (x : Binary64) : List Char :=
  x.text "Infinity" "NaN"

/-- A field put into its place among fields ordered by name. -/
def insertByName {α : Type} (field : String × α) : List (String × α) → List (String × α)
  | [] => [field]
  | f :: rest => if f.1 < field.1 then f :: insertByName field rest else field :: f :: rest

/-- Fields in the order of their names. -/
def sortByName {α : Type} (fields : List (String × α)) : List (String × α) :=
  fields.foldr insertByName []

/-- Parts with a separator between each two. -/
def separate (separator : List Char) : List (List Char) → List Char
  | [] => []
  | [part] => part
  | part :: rest => part ++ separator ++ separate separator rest

mutual

/-- The canonical form of a document. -/
def canonical : Json → List Char
  | .null => "null".toList
  | .bool true => "true".toList
  | .bool false => "false".toList
  | .int n => Text.ofInt n
  | .float x => writeFloat x
  | .str s => writeString s
  | .list items => '[' :: separate [','] (canonicalItems items) ++ [']']
  | .object fields =>
    -- The values are written before the names are sorted, and do not depend on the order.
    '{' :: separate [','] ((sortByName (canonicalFields fields)).map fun f =>
      writeString f.1 ++ ':' :: f.2) ++ ['}']

/-- The canonical forms of documents. -/
def canonicalItems : List Json → List (List Char)
  | [] => []
  | v :: rest => canonical v :: canonicalItems rest

/-- Fields with their values in canonical form. -/
def canonicalFields : List (String × Json) → List (String × List Char)
  | [] => []
  | (n, v) :: rest => (n, canonical v) :: canonicalFields rest

end

/-- The line end and indentation in front of an item at a level. -/
def newLine (level : Nat) : List Char :=
  '\n' :: List.replicate (2 * level) ' '

mutual

/-- The indented form of a document that stands at a level. -/
def indented (level : Nat) : Json → List Char
  | .list [] => ['[', ']']
  | .list (v :: rest) =>
    '[' :: newLine (level + 1) ++ indented (level + 1) v ++ indentedItems (level + 1) rest ++
      newLine level ++ [']']
  | .object [] => ['{', '}']
  | .object ((n, v) :: rest) =>
    '{' :: newLine (level + 1) ++ writeString n ++ [':', ' '] ++ indented (level + 1) v ++
      indentedFields (level + 1) rest ++ newLine level ++ ['}']
  | .null => "null".toList
  | .bool true => "true".toList
  | .bool false => "false".toList
  | .int n => Text.ofInt n
  | .float x => writeFloat x
  | .str s => writeString s

/-- The items after the first one of a list. -/
def indentedItems (level : Nat) : List Json → List Char
  | [] => []
  | v :: rest => ',' :: newLine level ++ indented level v ++ indentedItems level rest

/-- The fields after the first one of an object. -/
def indentedFields (level : Nat) : List (String × Json) → List Char
  | [] => []
  | (n, v) :: rest =>
    ',' :: newLine level ++ writeString n ++ [':', ' '] ++ indented level v ++
      indentedFields level rest

end

mutual

/-- What is written of the indented form of a document when an integer in it has too many digits: all that
comes before. -/
def indentedPart (level : Nat) : Json → List Char
  | .list items => indentedItemsPart (level + 1) ('[' :: newLine (level + 1)) items
  | .object fields => '{' :: indentedFieldsPart (level + 1) (newLine (level + 1)) fields
  | _ => []

/-- What is written of items, the separator before the first one given. An integer is written together
with the separator before it. -/
def indentedItemsPart (level : Nat) (separator : List Char) : List Json → List Char
  | [] => []
  | v :: rest =>
    if v.isShort then
      separator ++ indented level v ++ indentedItemsPart level (',' :: newLine level) rest
    else if v.int?.isSome then []
    else separator ++ indentedPart level v

/-- What is written of fields, the separator before the first one given. -/
def indentedFieldsPart (level : Nat) (separator : List Char) : List (String × Json) → List Char
  | [] => []
  | (n, v) :: rest =>
    separator ++ writeString n ++ [':', ' '] ++
      if v.isShort then
        indented level v ++ indentedFieldsPart level (',' :: newLine level) rest
      else indentedPart level v

end

/-- What is written of a document, which is its indented form unless an integer has too many digits. -/
def written (v : Json) : List Char :=
  if v.isShort then indented 0 v else indentedPart 0 v

mutual

/-- The form of a document used inside messages. -/
def displayed : Json → List Char
  | .null => "None".toList
  | .bool true => "True".toList
  | .bool false => "False".toList
  | .int n => Text.ofInt n
  | .float x => x.text "inf" "nan"
  | .str s => (Text.quoted s).toList
  | .list items => '[' :: separate [',', ' '] (displayedItems items) ++ [']']
  | .object fields => '{' :: separate [',', ' '] (displayedFields fields) ++ ['}']

/-- The displayed forms of documents. -/
def displayedItems : List Json → List (List Char)
  | [] => []
  | v :: rest => displayed v :: displayedItems rest

/-- The displayed forms of fields. -/
def displayedFields : List (String × Json) → List (List Char)
  | [] => []
  | (n, v) :: rest => ((Text.quoted n).toList ++ ':' :: ' ' :: displayed v) :: displayedFields rest

end

/-- The text of a document used inside messages. -/
def display (v : Json) : String :=
  String.ofList v.displayed

/-- The text of a document that is put into a text: a string stands for itself. -/
def shown : Json → String
  | .str s => s
  | v => v.display

@[simp]
theorem shown_str (s : String) : (Json.str s).shown = s := rfl

end Parley.Json
