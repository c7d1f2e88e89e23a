import Parley.Json.Token
import Parley.Limits
import Parley.OrderedMap

/-!
# Reading JSON

The document written by a list of tokens, found in one pass with a stack of open lists and
objects. A field name that occurs twice keeps its first place and takes its last value. Trailing
separators, missing separators and anything after the document are refused.

Beside these two limits end a reading: the digits of an integer, and the objects and lists that are
open at once. Of several reasons to refuse a text the one that comes first in it counts.
-/

namespace Parley.Json

/-- A list or object whose closing bracket has not been reached. -/
inductive Frame
  /-- A list with its items so far, last first. -/
  | list (items : List Json)
  /-- An object with its fields so far and the name of the field being read. -/
  | object (fields : List (String × Json)) (name : String)

/-- What may come next. -/
inductive Expecting
  /-- A document. -/
  | value
  /-- The first item of a list, or its end. -/
  | firstItem
  /-- The first field name of an object, or its end. -/
  | firstName
  /-- A field name of an object with these fields. -/
  | name (fields : List (String × Json))
  | colon (fields : List (String × Json)) (name : String)
  /-- A separator, a closing bracket or the end, after this document. -/
  | after (value : Json)

/-- Why a text is refused. -/
inductive ReadError
  /-- It is no document. -/
  | notJson
  /-- An integer has more digits than a conversion takes. -/
  | tooManyDigits
  /-- More objects and lists are open at once than the reader can hold. -/
  | tooDeep
  deriving DecidableEq, Inhabited

/-- The wording of a refusal. -/
def ReadError.message : ReadError → String
  | .notJson => "not a JSON document"
  | .tooManyDigits => Text.TooManyDigits.message {}
  | .tooDeep => "too many nested objects and lists"

/-- The document written by the tokens, given the open lists and objects, innermost first, of which
there is room for so many. -/
def ofTokens (room : Nat) : List Token → List Frame → Expecting → Except ReadError Json
  | [], [], .after value => .ok value
  | .scalar value :: rest, frames, .value => ofTokens room rest frames (.after value)
  | .overlong :: _, _, .value => .error .tooManyDigits
  | .openList :: rest, frames, .value =>
    if frames.length < room then ofTokens room rest frames .firstItem else .error .tooDeep
  | .openObject :: rest, frames, .value =>
    if frames.length < room then ofTokens room rest frames .firstName else .error .tooDeep
  | .closeList :: rest, frames, .firstItem => ofTokens room rest frames (.after (.list []))
  | .scalar value :: rest, frames, .firstItem =>
    ofTokens room rest (.list [] :: frames) (.after value)
  | .overlong :: _, _, .firstItem => .error .tooManyDigits
  -- The list of a first item is open too.
  | .openList :: rest, frames, .firstItem =>
    if frames.length + 1 < room then ofTokens room rest (.list [] :: frames) .firstItem
    else .error .tooDeep
  | .openObject :: rest, frames, .firstItem =>
    if frames.length + 1 < room then ofTokens room rest (.list [] :: frames) .firstName
    else .error .tooDeep
  | .closeObject :: rest, frames, .firstName => ofTokens room rest frames (.after (.object []))
  | .scalar (.str name) :: rest, frames, .firstName => ofTokens room rest frames (.colon [] name)
  | .scalar (.str name) :: rest, frames, .name fields =>
    ofTokens room rest frames (.colon fields name)
  | .colon :: rest, frames, .colon fields name =>
    ofTokens room rest (.object fields name :: frames) .value
  -- After a comma there has to be an item, so that a list cannot end with one.
  | .comma :: rest, .list items :: frames, .after value =>
    ofTokens room rest (.list (value :: items) :: frames) .value
  | .closeList :: rest, .list items :: frames, .after value =>
    ofTokens room rest frames (.after (.list (value :: items).reverse))
  | .comma :: rest, .object fields name :: frames, .after value =>
    -- A repeated name keeps its place and takes the new value.
    ofTokens room rest frames (.name (insertEntry name value fields))
  | .closeObject :: rest, .object fields name :: frames, .after value =>
    ofTokens room rest frames (.after (.object (insertEntry name value fields)))
  | _, _, _ => .error .notJson

/-- The document written by a text. -/
def ofText (s : List Char) (limits : Limits := .standard) : Except ReadError Json :=
  ofTokens limits.documents (Token.ofText s) [] .value

end Parley.Json
