import Parley.Json.Reader
import Parley.Json.Writer
import Parley.Proofs.Text.Integer

/-!
# JSON Integers Read Back

A written integer is read as that integer wherever what comes after it cannot go on a number
(`EndsNumber`). Nothing is lost on large integers, and an integer is never read as a binary64 number.
-/

namespace Parley.Json

open Token

/-- What comes next is no part of a number. -/
def EndsNumber (rest : List Char) : Prop :=
  ∀ c ∈ rest.head?, c.isDigit = false ∧ c ≠ '.' ∧ c ≠ 'e' ∧ c ≠ 'E'

/-- The digits of a number end where something else begins. -/
theorem span_digits (digits : List Char) {rest : List Char} (hdigits : ∀ c ∈ digits, c.isDigit = true)
    (hrest : EndsNumber rest) :
    (digits ++ rest).takeWhile Char.isDigit = digits ∧
      (digits ++ rest).dropWhile Char.isDigit = rest := by
  rw [List.takeWhile_append_of_pos hdigits, List.dropWhile_append_of_pos hdigits]
  cases rest with
  | nil => exact ⟨List.append_nil digits, rfl⟩
  | cons c more =>
    have hc : c.isDigit = false := (hrest c rfl).1
    rw [List.takeWhile_cons_of_neg (by simp [hc]), List.dropWhile_cons_of_neg (by simp [hc])]
    exact ⟨List.append_nil digits, rfl⟩

/-- A whole part is taken in full, also where it is a single zero. -/
theorem wholePart_toDigits {n : Nat} {rest : List Char} (hrest : EndsNumber rest) :
    wholePart (Nat.toDigits 10 n ++ rest) = (Nat.toDigits 10 n, rest) := by
  by_cases hn : n = 0
  · subst hn
    rw [Nat.toDigits_zero]
    rfl
  · -- A number other than zero has no leading zero, so all its digits are taken.
    have hzero := Text.head?_toDigits hn
    obtain ⟨htake, hdrop⟩ :=
      span_digits (Nat.toDigits 10 n) (fun _ => Text.isDigit_of_mem_toDigits) hrest
    cases hdigits : Nat.toDigits 10 n with
    | nil => exact absurd hdigits Nat.toDigits_ne_nil
    | cons c more =>
      rw [hdigits] at htake hdrop hzero
      have hc : c ≠ '0' := by simpa using hzero
      rw [List.cons_append] at htake hdrop ⊢
      rw [wholePart, htake, hdrop]
      exact fun _ h => absurd (List.cons.inj h).1 hc

/-- The digits of a number are read as the number. -/
theorem unsignedNumber?_toDigits (negative : Bool) (n : Nat) {rest : List Char}
    (hrest : EndsNumber rest) :
    unsignedNumber? negative (Nat.toDigits 10 n ++ rest) =
      some (.int (if negative then -(n : Int) else n), rest) := by
  -- What follows is neither a fraction nor an exponent: the number is an integer.
  have hfraction : fraction? rest = none := by
    cases rest with
    | nil => rfl
    | cons c more =>
      rw [fraction?]
      exact fun _ h => (hrest c rfl).2.1 (List.cons.inj h).1
  have hexponent : exponent? rest = none := by
    cases rest with
    | nil => rfl
    | cons c more =>
      obtain ⟨-, -, he, hE⟩ := hrest c rfl
      simp only [exponent?, he, hE, or_self, if_false]
  have hwhole : (Nat.toDigits 10 n).isEmpty = false := by
    rw [List.isEmpty_eq_false_iff]
    exact Nat.toDigits_ne_nil
  rw [unsignedNumber?, wholePart_toDigits hrest]
  simp only [hwhole, Bool.false_eq_true, if_false, hfraction, Option.elim_none, hexponent,
    Text.digitsValue_toDigits]

/-- No word starts with a digit. -/
theorem word?_digit {c : Char} (h : c.isDigit = true) (s : List Char) : word? (c :: s) = none := by
  -- All words of JSON start with letters, or with a minus sign.
  have hne : ∀ d : Char, d.isDigit = false → d ≠ c := by
    rintro d hd rfl
    rw [h] at hd
    cases hd
  simp [word?, words, hne]

/-- No word starts with a minus sign and a digit. -/
theorem word?_minus_digit {c : Char} (h : c.isDigit = true) (s : List Char) :
    word? ('-' :: c :: s) = none := by
  -- The only word that starts with a minus sign goes on with a letter.
  have hne : 'I' ≠ c := by
    rintro rfl
    cases h
  simp [word?, words, hne]

/-- A written integer is read as that integer. -/
theorem scalar?_ofInt (n : Int) {rest : List Char} (hrest : EndsNumber rest) :
    scalar? (Text.ofInt n ++ rest) = some (.int n, rest) := by
  -- The writing of a natural number starts with a digit, hence it is neither a string nor a word.
  have hstart : ∀ m, ∃ c more, Nat.toDigits 10 m ++ rest = c :: more ∧ c.isDigit = true := by
    intro m
    cases hdigits : Nat.toDigits 10 m with
    | nil => exact absurd hdigits Nat.toDigits_ne_nil
    | cons c more =>
      refine ⟨c, more ++ rest, rfl, Text.isDigit_of_mem_toDigits (n := m) ?_⟩
      rw [hdigits]
      exact List.mem_cons_self
  cases n with
  | ofNat m =>
    have hnumber := unsignedNumber?_toDigits false m hrest
    obtain ⟨c, more, htext, hc⟩ := hstart m
    rw [show Text.ofInt (.ofNat m) = Nat.toDigits 10 m from Text.ofInt_natCast m]
    rw [htext] at hnumber ⊢
    -- A digit starts neither a string nor a negative number.
    have hquote : c ≠ '"' := by
      rintro rfl
      cases hc
    have hminus : c ≠ '-' := by
      rintro rfl
      cases hc
    rw [scalar?, word?_digit hc]
    · simp only [hnumber]
      simp
    · exact fun _ h => hquote (List.cons.inj h).1
    · exact fun _ h => hminus (List.cons.inj h).1
  | negSucc m =>
    have hnumber := unsignedNumber?_toDigits true (m + 1) hrest
    obtain ⟨c, more, htext, hc⟩ := hstart (m + 1)
    rw [Text.ofInt_negSucc, List.cons_append]
    rw [htext] at hnumber ⊢
    -- Behind the minus sign stand digits, so it is no word.
    rw [scalar?, word?_minus_digit hc]
    · simp only [hnumber]
      simp [Int.negSucc_eq]

end Parley.Json
