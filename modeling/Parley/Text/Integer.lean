/-!
# Integer Texts

The decimal writing of integers shared by the script reader and the comparison rules: an
optional sign followed by at least one ASCII digit. Leading zeros are allowed.

A conversion between an integer and its writing has a cost that grows faster than the count of
digits, so it is refused beyond a limit. Zeros in front count towards the limit, the sign does not.
-/

namespace Parley.Text

/-- Whether a text is a non-empty run of ASCII digits. -/
def isDigits (s : List Char) : Bool :=
  !s.isEmpty && s.all Char.isDigit

/-- The number denoted by a run of decimal digits, most significant first. -/
def digitsValue (s : List Char) : Nat :=
  s.foldl (fun n c => 10 * n + (c.toNat - '0'.toNat)) 0

/-- The integer denoted by an optionally signed run of digits, if the text is one. -/
def integer? : List Char → Option Int
  | '-' :: s => if isDigits s then some (-(digitsValue s : Int)) else none
  | '+' :: s => if isDigits s then some (digitsValue s) else none
  | s => if isDigits s then some (digitsValue s) else none

@[simp]
theorem integer?_nil : integer? [] = none := rfl

/-- The decimal writing of an integer, with a minus sign if it is negative. -/
def ofInt (n : Int) : List Char :=
  if n < 0 then '-' :: Nat.toDigits 10 n.natAbs else Nat.toDigits 10 n.natAbs

/-! ## Conversions -/

/-- The most digits that a conversion takes. -/
def digitLimit : Nat := 4300

/-- A conversion is refused, for there are more digits than it takes. -/
structure TooManyDigits where
  deriving DecidableEq, Inhabited

/-- The wording of the refusal. -/
def TooManyDigits.message (_ : TooManyDigits) : String :=
  "too many digits"

/-- Whether a text has more digits than a conversion takes. -/
def isOverlong (s : List Char) : Bool :=
  digitLimit < s.countP Char.isDigit

/-- Reads the integer that a text writes, if it writes one. -/
def readInt (s : List Char) : Except TooManyDigits (Option Int) :=
  match integer? s with
  | some n => if isOverlong s then .error {} else .ok (some n)
  | none => .ok none

/-- Writes an integer. -/
def writeInt (n : Int) : Except TooManyDigits (List Char) :=
  if isOverlong (ofInt n) then .error {} else .ok (ofInt n)

end Parley.Text
