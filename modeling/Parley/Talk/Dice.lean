import Parley.Script.Syntax

/-!
# Dice

Picks are decided by rolling dice. A source of rolls may depend on all rolls made before; a scripted
source goes through a list of numbers again and again.
-/

namespace Parley

/-- A source of rolls: given the sides of the rolls made before and of this one, a number that counts
modulo the sides of this roll. -/
abbrev RollSource := List Nat → Nat → Nat

/-- The source that goes through a list of numbers again and again. Without numbers it rolls
zeros. -/
def RollSource.scripted (picks : List Int) : RollSource := fun before sides =>
  ((picks.getD (before.length % picks.length) 0) % sides).toNat

/-- Dice with the rolls made so far. -/
structure Dice where
  /-- Where the rolls come from. -/
  source : RollSource
  /-- The sides of the rolls made, in order. -/
  rolled : List Nat := []

namespace Dice

/-- One of several alternatives, and the dice after the roll that decided it. -/
def choose (dice : Dice) (alternatives : List String) : String × Dice :=
  let sides := alternatives.length
  (alternatives.getD (dice.source dice.rolled sides % sides) "",
    { dice with rolled := dice.rolled ++ [sides] })

/-- A part of a phrase as it is spoken. -/
def speakPart (dice : Dice) : PhrasePart → String × Dice
  | .run text => (text, dice)
  | .pick alternatives => dice.choose alternatives

/-- A phrase as it is spoken, placeholders still as written. -/
def speak (dice : Dice) : Phrase → String × Dice
  | [] => ("", dice)
  | part :: rest =>
    let (first, dice) := dice.speakPart part
    let (others, dice) := speak dice rest
    (first ++ others, dice)

end Dice

end Parley
