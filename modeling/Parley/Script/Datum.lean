import Parley.Script.Defect
import Parley.Text.Blank
import Parley.Text.Integer

/-!
# Script Data

The raw structure of a script before any form is recognised: symbols, integers, strings and
parenthesised lists, each with the position at which it starts.
-/

namespace Parley

/-- A piece of raw script structure. -/
inductive Datum
  | symbol (name : String) (position : Position)
  | int (n : Int) (position : Position)
  | str (s : String) (position : Position)
  | list (items : List Datum) (position : Position)
  deriving Inhabited

namespace Datum

/-- Where a datum starts. -/
def position : Datum → Position
  | .symbol _ p => p
  | .int _ p => p
  | .str _ p => p
  | .list _ p => p

/-- The datum for a bare word: an integer if the word is the writing of one, else a symbol. -/
def ofWord (word : List Char) (position : Position) : Datum :=
  match Text.integer? word with
  | some n => .int n position
  | none => .symbol (String.ofList word) position

/-- The datum read from a bare word, unless this writes an integer that has too many digits. -/
def readWord (word : List Char) (position : Position) : Except Flaw Datum :=
  match Text.readInt word with
  | .ok (some n) => .ok (.int n position)
  | .ok none => .ok (.symbol (String.ofList word) position)
  | .error _ => .error ⟨position, .tooManyDigits⟩

/-- A word is read as what it writes or refused for its digits. -/
theorem readWord_cases (word : List Char) (p : Position) :
    readWord word p = .ok (ofWord word p) ∨ readWord word p = .error ⟨p, .tooManyDigits⟩ := by
  unfold readWord ofWord Text.readInt
  cases Text.integer? word with
  | none => exact .inl rfl
  | some n =>
    cases Text.isOverlong word with
    | false => exact .inl rfl
    | true => exact .inr rfl

@[simp]
theorem position_ofWord (word : List Char) (p : Position) : (ofWord word p).position = p := by
  unfold ofWord
  split <;> rfl

end Datum

end Parley
