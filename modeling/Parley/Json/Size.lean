import Parley.Json.Basic

/-!
# Sizes of Numbers

The exact size of a number, so that integers and binary64 numbers can be compared without rounding.
A truth value counts as 0 or 1. The infinite numbers are the least and the greatest size, and what is
not a number although it has the form of one is neither less nor greater than anything. Documents of
any other form have no size.

Main definitions: `Json.size?` with the order `Size.isBelow`, and `Json.isBelow?` for the comparison
with an integer, which for integers is their order (`isBelow?_int`).
-/

namespace Parley.Json

/-- The size of a number. -/
inductive Size
  /-- Less than every other number. -/
  | least
  | finite (value : Rat)
  /-- Greater than every other number. -/
  | greatest
  /-- Not comparable with any number. -/
  | undefined
  deriving DecidableEq, Inhabited

namespace Size

/-- Whether a size is less than another one. -/
def isBelow : Size → Size → Bool
  | .finite a, .finite b => decide (a < b)
  | .least, .finite _ => true
  | .least, .greatest => true
  | .finite _, .greatest => true
  | _, _ => false

@[simp]
theorem isBelow_finite (a b : Rat) : (Size.finite a).isBelow (.finite b) = decide (a < b) := rfl

@[simp]
theorem isBelow_self (a : Size) : a.isBelow a = false := by
  cases a <;> simp [isBelow]

theorem isBelow_trans {a b c : Size} (hab : a.isBelow b = true) (hbc : b.isBelow c = true) :
    a.isBelow c = true := by
  cases a <;> cases b <;> cases c <;> simp_all [isBelow]
  grind

end Size

/-- The size of a binary64 number. -/
def Binary64.size : Binary64 → Size
  | .finite negative mantissa exponent =>
    let size : Rat := mantissa * 2 ^ exponent
    .finite (if negative then -size else size)
  | .infinite negative => if negative then .least else .greatest
  | .nan => .undefined

/-- The size of a document that is a number. -/
def size? : Json → Option Size
  | .bool b => some (.finite (if b then 1 else 0))
  | .int n => some (.finite n)
  | .float x => some x.size
  | _ => none

/-- Whether a number is less than an integer. -/
def isBelow? (document : Json) (n : Int) : Option Bool :=
  document.size?.map fun size => size.isBelow (.finite n)

@[simp]
theorem isBelow?_int (m n : Int) : (Json.int m).isBelow? n = some (decide (m < n)) := by
  simp only [isBelow?, size?, Option.map_some, Size.isBelow_finite, Rat.intCast_lt_intCast]

end Parley.Json
