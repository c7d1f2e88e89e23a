import Parley.Json.Reader

/-!
# Bounded Reading

The tokens of a text are found by a recursion on what a scalar leaves of it. A bound on the length of
the text makes the recursion one on a number, which computes in proofs.

* `Token.ofTextWithin`: the tokens of a text up to a bound on its length;
* `ofText_eq_within`: nothing is lost if the bound is the length of the text.
-/

namespace Parley.Json

open Token

/-- The tokens of a text that is no longer than a bound, behind the tokens seen so far, last first. -/
def Token.ofTextWithin : Nat → List Token → List Char → List Token
  | _, seen, [] => seen.reverse
  | 0, seen, _ :: _ => (.unknown :: seen).reverse
  | bound + 1, seen, c :: rest =>
    if isGap c then ofTextWithin bound seen rest
    else
      match punctuation? c with
      | some t => ofTextWithin bound (t :: seen) rest
      | none =>
        match scalar? (c :: rest) with
        | some (value, rest') =>
          if value.isShort then ofTextWithin bound (.scalar value :: seen) rest'
          else (.overlong :: seen).reverse
        | none => (.unknown :: seen).reverse

/-- A text within the bound is read as without one. -/
theorem Token.ofTextAfter_eq_within {bound : Nat} {seen : List Token} {s : List Char}
    (h : s.length ≤ bound) : ofTextAfter seen s = ofTextWithin bound seen s := by
  fun_induction ofTextAfter seen s generalizing bound with
  | case1 seen => rw [ofTextWithin]
  | case2 seen c rest hgap ih =>
    obtain _ | bound := bound
    · cases h
    · rw [ofTextWithin, if_pos hgap, ih (Nat.le_of_succ_le_succ h)]
  | case3 seen c rest hgap t ht ih =>
    obtain _ | bound := bound
    · cases h
    · rw [ofTextWithin, if_neg hgap, ht]
      exact ih (Nat.le_of_succ_le_succ h)
  | case4 seen c rest hgap hnone value rest' hscalar hshorter hshort ih =>
    obtain _ | bound := bound
    · cases h
    · rw [ofTextWithin, if_neg hgap, hnone, hscalar]
      exact (ih (Nat.le_of_lt_succ (Nat.lt_of_lt_of_le hshorter h))).trans (if_pos hshort).symm
  | case5 seen c rest hgap hnone value rest' hscalar hshorter hlong =>
    obtain _ | bound := bound
    · cases h
    · rw [ofTextWithin, if_neg hgap, hnone, hscalar]
      exact (if_neg hlong).symm
  | case6 seen c rest hgap hnone hscalar =>
    obtain _ | bound := bound
    · cases h
    · rw [ofTextWithin, if_neg hgap, hnone, hscalar]

/-- A text is read within its own length. -/
theorem ofText_eq_within (s : List Char) (limits : Limits) :
    ofText s limits = ofTokens limits.documents (ofTextWithin s.length [] s) [] .value := by
  rw [ofText, Token.ofText, ofTextAfter_eq_within (Nat.le_refl _)]

end Parley.Json
