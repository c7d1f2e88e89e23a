/-!
# Binary64 Numbers

Floating point numbers as exact values: a sign, a mantissa below 2^53 and a power of two. A decimal
writing is read as the nearest such number, a tie going to the even mantissa. A number is written
with the fewest digits that read back as the same number and, of those writings, the nearest one.
-/

namespace Parley.Json

/-- A binary64 number. A finite number is `± mantissa * 2 ^ exponent`, where the mantissa is below
2^53, and at least 2^52 unless the exponent is the least one, -1074. -/
inductive Binary64
  | finite (negative : Bool) (mantissa : Nat) (exponent : Int)
  | infinite (negative : Bool)
  | nan
  deriving DecidableEq, Inhabited

namespace Binary64

/-- The least exponent of a finite number. -/
def minExponent : Int := -1074

/-- The greatest exponent of a finite number. -/
def maxExponent : Int := 971

/-- Whether the number is a zero of either sign. -/
def isZero : Binary64 → Bool
  | .finite _ m _ => m == 0
  | _ => false

/-- Whether the number has no fraction. -/
def isWhole : Binary64 → Bool
  | .finite _ m e => 0 ≤ e || m % Nat.pow 2 e.natAbs == 0
  | _ => false

/-- `n / d` rounded to the nearest integer, a tie going to the even one. -/
def roundDiv (n d : Nat) : Nat :=
  let q := n / d
  let r := 2 * (n % d)
  if r < d then q else if d < r then q + 1 else q + q % 2

/-- `n * 2 ^ e` as a numerator and a denominator. -/
def scale (n d : Nat) (e : Int) : Nat × Nat :=
  if e < 0 then (n, d * Nat.pow 2 e.natAbs) else (n * Nat.pow 2 e.natAbs, d)

/-- The number nearest to the positive rational `n / d`. -/
def ofRatio (negative : Bool) (n d : Nat) : Binary64 :=
  if n = 0 then .finite negative 0 minExponent
  else
    let guess : Int := (Nat.log2 n : Int) - Nat.log2 d - 53
    let (a, b) := scale n d (-guess)
    let e := max minExponent (if a / b < Nat.pow 2 53 then guess else guess + 1)
    let (a, b) := scale n d (-e)
    let m := roundDiv a b
    let (m, e) := if m < Nat.pow 2 53 then (m, e) else (m / 2, e + 1)
    if maxExponent < e then .infinite negative else .finite negative m e

/-- The number nearest to `± digits * 10 ^ power`. Powers far outside the range of the format are
settled by the count of digits alone. -/
def ofDecimal (negative : Bool) (digits : Nat) (power : Int) : Binary64 :=
  let size : Int := (Nat.toDigits 10 digits).length
  if digits = 0 then .finite negative 0 minExponent
  else if 400 < size + power then .infinite negative
  else if size + power < -400 then .finite negative 0 minExponent
  else if power < 0 then ofRatio negative digits (Nat.pow 10 power.natAbs)
  else ofRatio negative (digits * Nat.pow 10 power.natAbs) 1

/-- A decimal writing `digits * 10 ^ power`. -/
structure Decimal where
  /-- The digits, read as one number. -/
  digits : Nat
  /-- The power of ten of the last digit. -/
  power : Int
  deriving DecidableEq

/-- The point of the grid of multiples of `10 ^ power` that stands for `m * 2 ^ e`: the nearest of
the two neighbours that read back as the same number, if there is one. All is measured in halves
of the distance to the next greater number, so that the interval of the reals that read back runs
from `2 * m - below` to `2 * m + 1`, with the ends if `m` is even. -/
def gridPoint? (m : Nat) (e : Int) (power : Int) : Option Nat :=
  let closed := m % 2 == 0
  let halfBelow := if m = Nat.pow 2 52 ∧ minExponent < e then 1 else 2
  -- in units of a quarter of the distance: the value, its lower and its upper end
  let (num, den) := scale 1 4 e
  let value := 4 * m * num
  let low := (4 * m - halfBelow) * num
  let high := (4 * m + 2) * num
  -- compare `k * 10 ^ power` with `x / den`
  let (ten, unit) := if power < 0 then (1, Nat.pow 10 power.natAbs) else (Nat.pow 10 power.natAbs, 1)
  let inside (k : Nat) : Bool :=
    let x := k * ten * den
    if closed then low * unit ≤ x && x ≤ high * unit else low * unit < x && x < high * unit
  let k := value * unit / (den * ten)
  let belowDistance := value * unit - k * ten * den
  let aboveDistance := (k + 1) * ten * den - value * unit
  match inside k && k != 0, inside (k + 1) with
  | true, true =>
    if belowDistance < aboveDistance then some k
    else if aboveDistance < belowDistance then some (k + 1)
    else some (k + k % 2)
  | true, false => some k
  | false, true => some (k + 1)
  | false, false => none

/-- The power of ten of the first digit of `m * 2 ^ e`, for a positive mantissa. -/
def leadingPower (m : Nat) (e : Int) : Int :=
  let (n, d) := scale m 1 e
  if d ≤ n then (Nat.toDigits 10 (n / d)).length - 1
  else -((Nat.toDigits 10 ((d - 1) / n)).length : Int)

/-- The coarsest grid, of `tries` ever finer ones, that has a point for `m * 2 ^ e`. -/
def shortestFrom (m : Nat) (e : Int) : Nat → Int → Decimal
  | 0, power => ⟨(gridPoint? m e power).getD 0, power⟩
  | tries + 1, power =>
    match gridPoint? m e power with
    | some k => ⟨k, power⟩
    | none => shortestFrom m e tries (power - 1)

/-- The shortest decimal writing that reads back as `m * 2 ^ e`, and the nearest of those. -/
def shortest (m : Nat) (e : Int) : Decimal :=
  shortestFrom m e 18 (leadingPower m e + 1)

/-- Digits without the zeros at their end, and the count of zeros that were there. -/
def trimZeros (digits : List Char) : List Char × Nat :=
  let trimmed := (digits.reverse.dropWhile (· == '0')).reverse
  (trimmed, digits.length - trimmed.length)

/-- The writing of a decimal: positional if the first digit stands for a power of ten from -4 to
15, always with a point, else with an exponent of a sign and at least two digits. -/
def layOut (x : Decimal) : List Char :=
  let (digits, zeros) := trimZeros (Nat.toDigits 10 x.digits)
  let power := x.power + zeros
  let lead := power + digits.length - 1
  if -4 ≤ lead ∧ lead < 16 then
    if 0 ≤ power then digits ++ List.replicate power.toNat '0' ++ ['.', '0']
    else if 0 ≤ lead then
      digits.take (lead.toNat + 1) ++ '.' :: digits.drop (lead.toNat + 1)
    else '0' :: '.' :: List.replicate (-1 - lead).toNat '0' ++ digits
  else
    let exponent := Nat.toDigits 10 lead.natAbs
    let exponent := if exponent.length < 2 then '0' :: exponent else exponent
    let fraction := if digits.length = 1 then [] else '.' :: digits.drop 1
    digits.take 1 ++ fraction ++ 'e' :: (if lead < 0 then '-' else '+') :: exponent

/-- The writing of a number, with the given words for the infinite and for not a number. -/
def text (infinity nanWord : String) : Binary64 → List Char
  | .finite negative 0 _ => (if negative then ['-'] else []) ++ "0.0".toList
  | .finite negative m e => (if negative then ['-'] else []) ++ layOut (shortest m e)
  | .infinite negative => (if negative then ['-'] else []) ++ infinity.toList
  | .nan => nanWord.toList

end Binary64

end Parley.Json
