import Parley.Text.Integer
import Parley.Text.Quoted
import Mathlib.Data.List.Induction

/-!
# Written Numbers Read Back

The decimal writing of a number is a run of digits that denotes the number and has no leading zero:

* `digitsValue_toDigits`: the digits of `n` denote `n`;
* `head?_toDigits`: they start with a zero only if `n` is zero;
* `integer?_eq_none_iff`: the texts that are read as integers are the numerals;
* `integer?_eq_some_iff`: an integer is read back from its writings, with zeros in front and a sign or
  without them, and from nothing else;
* `readInt_eq_some_iff`, `readInt_eq_none_iff`, `readInt_eq_error_iff`: the three answers of a
  conversion;
* `hex_four`: the hexadecimal writing of a UTF-16 unit in full.
-/

namespace Parley.Text

/-- The digits of a number denote it. -/
theorem digitsValue_toDigits (n : Nat) : digitsValue (Nat.toDigits 10 n) = n :=
  Nat.ofDigitChars_toDigits (by decide) (by decide)

/-- All characters of the writing of a number are digits. -/
theorem isDigit_of_mem_toDigits {n : Nat} {c : Char} (h : c ∈ Nat.toDigits 10 n) :
    c.isDigit = true :=
  Nat.isDigit_of_mem_toDigits (by decide) (by decide) h

/-- The writing of a number has no leading zero, unless it is the writing of zero. -/
theorem head?_toDigits {n : Nat} (h : n ≠ 0) : (Nat.toDigits 10 n).head? ≠ some '0' := by
  induction n using Nat.strongRecOn with
  | ind n ih =>
    rw [Nat.toDigits_eq_if (by decide)]
    split
    · -- A single digit is the number itself.
      next hlt => simpa using h
    · next hge =>
      have hpos : n / 10 ≠ 0 := by omega
      rw [List.head?_append, List.head?_eq_some_head Nat.toDigits_ne_nil, Option.some_or,
        ← List.head?_eq_some_head]
      exact ih (n / 10) (by omega) hpos

/-- A natural number is written without a sign. -/
theorem ofInt_natCast (n : Nat) : ofInt n = Nat.toDigits 10 n := by
  rw [ofInt, if_neg (by omega), Int.natAbs_natCast]

/-- A negative number is written with a minus sign. -/
theorem ofInt_negSucc (n : Nat) : ofInt (.negSucc n) = '-' :: Nat.toDigits 10 (n + 1) := by
  rw [ofInt, if_pos (Int.negSucc_lt_zero n), Int.natAbs_negSucc]

/-- All characters of the writing of an integer are digits, but for a minus sign. -/
theorem isDigit_or_of_mem_ofInt {n : Int} {c : Char} (h : c ∈ ofInt n) :
    c.isDigit = true ∨ c = '-' := by
  cases n with
  | ofNat n =>
    rw [Int.ofNat_eq_natCast, ofInt_natCast] at h
    exact .inl (isDigit_of_mem_toDigits h)
  | negSucc n =>
    rw [ofInt_negSucc] at h
    rcases List.mem_cons.1 h with rfl | h
    · exact .inr rfl
    · exact .inl (isDigit_of_mem_toDigits h)

theorem isDigits_iff {s : List Char} :
    isDigits s = true ↔ s ≠ [] ∧ ∀ x ∈ s, x.isDigit = true := by
  simp [isDigits]

/-- A digit is no sign, so a run of digits is read as the number that it denotes. -/
theorem integer?_of_isDigits {s : List Char} (h : isDigits s = true) :
    integer? s = some (digitsValue s : Int) := by
  unfold integer?
  split
  · exact absurd h (by simp [isDigits])
  · exact absurd h (by simp [isDigits])
  · rw [if_pos h]

/-! ## Numerals -/

/-- An optionally signed run of ASCII digits. -/
def IsNumeral (word : List Char) : Prop :=
  ∃ sign digits, sign ∈ [[], ['-'], ['+']] ∧ digits ≠ [] ∧ (∀ x ∈ digits, x.isDigit = true) ∧
    word = sign ++ digits

/-- What is not read as an integer is no numeral. -/
theorem integer?_eq_none_iff {word : List Char} : integer? word = none ↔ ¬ IsNumeral word := by
  constructor
  · rintro h ⟨sign, digits, hsign, hdigits⟩
    obtain ⟨hne, hall, rfl⟩ := hdigits
    have hrun : isDigits digits = true := isDigits_iff.mpr ⟨hne, hall⟩
    simp only [List.mem_cons, List.not_mem_nil, or_false] at hsign
    obtain rfl | rfl | rfl := hsign
    · exact nomatch h.symm.trans (integer?_of_isDigits hrun)
    · exact nomatch h.symm.trans (if_pos hrun)
    · exact nomatch h.symm.trans (if_pos hrun)
  · intro h
    have hsigned : ∀ sign ∈ [[], ['-'], ['+']], ∀ digits, word = sign ++ digits →
        isDigits digits ≠ true := fun sign hsign digits hword hrun =>
      h ⟨sign, digits, hsign, (isDigits_iff.mp hrun).1, (isDigits_iff.mp hrun).2, hword⟩
    unfold integer?
    split
    · next digits => exact if_neg (hsigned ['-'] (by simp) digits rfl)
    · next digits => exact if_neg (hsigned ['+'] (by simp) digits rfl)
    · exact if_neg (hsigned [] (by simp) word rfl)

/-- The digits of a number behind so many zeros. -/
def paddedDigits (zeros n : Nat) : List Char :=
  List.replicate zeros '0' ++ Nat.toDigits 10 n

theorem isDigits_paddedDigits (zeros n : Nat) : isDigits (paddedDigits zeros n) = true := by
  refine isDigits_iff.mpr ⟨fun hnil => ?_, fun x hx => ?_⟩
  · exact Nat.toDigits_ne_nil (List.append_eq_nil_iff.mp hnil).2
  · rcases List.mem_append.mp hx with hx | hx
    · rw [List.eq_of_mem_replicate hx]
      rfl
    · exact isDigit_of_mem_toDigits hx

/-- Leading zeros do not count. -/
theorem digitsValue_paddedDigits (zeros n : Nat) : digitsValue (paddedDigits zeros n) = n := by
  induction zeros with
  | zero => exact digitsValue_toDigits n
  | succ zeros ih => exact ih

/-- The ways to write an integer: there may be zeros in front of its digits, and a sign in front of
these, which must be there if the integer is negative. Zero can have either sign. -/
inductive SpellsInt (n : Int) : List Char → Prop
  | bare (zeros : Nat) (h : 0 ≤ n) : SpellsInt n (paddedDigits zeros n.natAbs)
  | plus (zeros : Nat) (h : 0 ≤ n) : SpellsInt n ('+' :: paddedDigits zeros n.natAbs)
  | minus (zeros : Nat) (h : n ≤ 0) : SpellsInt n ('-' :: paddedDigits zeros n.natAbs)

/-- An integer is read from all its writings. -/
theorem integer?_of_spells {n : Int} {word : List Char} (h : SpellsInt n word) :
    integer? word = some n := by
  cases h with
  | bare zeros h =>
    rw [integer?_of_isDigits (isDigits_paddedDigits zeros _), digitsValue_paddedDigits,
      Int.natAbs_of_nonneg h]
  | plus zeros h =>
    rw [integer?, if_pos (isDigits_paddedDigits zeros _), digitsValue_paddedDigits,
      Int.natAbs_of_nonneg h]
  | minus zeros h =>
    rw [integer?, if_pos (isDigits_paddedDigits zeros _), digitsValue_paddedDigits,
      Int.ofNat_natAbs_of_nonpos h, Int.neg_neg]

theorem digitsValue_concat (s : List Char) (c : Char) :
    digitsValue (s ++ [c]) = 10 * digitsValue s + (c.toNat - '0'.toNat) := by
  simp [digitsValue]

/-- A digit is the digit of the number that it denotes. -/
theorem toDigits_of_isDigit {c : Char} (h : c.isDigit = true) :
    c.toNat - '0'.toNat < 10 ∧ Nat.toDigits 10 (c.toNat - '0'.toNat) = [c] := by
  have hbounds : 48 ≤ c.toNat ∧ c.toNat ≤ 57 := Char.isDigit_iff_toNat.mp h
  have hlt : c.toNat - '0'.toNat < 10 := by
    have hzero : '0'.toNat = 48 := rfl
    omega
  refine ⟨hlt, ?_⟩
  rw [Nat.toDigits_of_lt_base hlt, List.singleton_inj, ← Char.toNat_inj,
    Nat.toNat_digitChar_of_lt_ten hlt]
  exact Nat.add_sub_cancel' hbounds.1

/-- Every run of digits is the digits of the number that it denotes, with zeros in front. -/
theorem exists_paddedDigits {s : List Char} (h : isDigits s = true) :
    ∃ zeros, s = paddedDigits zeros (digitsValue s) := by
  induction s using List.reverseRecOn with
  | nil => cases h
  | append_singleton s c ih =>
    obtain ⟨-, hall⟩ := isDigits_iff.mp h
    obtain ⟨hlt, hdigit⟩ := toDigits_of_isDigit (hall c (List.mem_concat_self))
    rw [digitsValue_concat]
    by_cases hs : s = []
    · subst hs
      have hnil : digitsValue [] = 0 := rfl
      rw [hnil, Nat.mul_zero, Nat.zero_add]
      exact ⟨0, hdigit.symm⟩
    obtain ⟨zeros, hzeros⟩ :=
      ih (isDigits_iff.mpr ⟨hs, fun x hx => hall x (List.mem_append_left _ hx)⟩)
    rcases Nat.eq_zero_or_pos (digitsValue s) with hzero | hpos
    · -- what stands in front of the last digit are zeros only
      refine ⟨zeros + 1, ?_⟩
      rw [hzero, Nat.mul_zero, Nat.zero_add, paddedDigits, hdigit]
      rw [hzero, paddedDigits, Nat.toDigits_zero] at hzeros
      rw [hzeros, List.replicate_succ']
    · refine ⟨zeros, ?_⟩
      rw [paddedDigits, ← Nat.toDigits_append_toDigits (by decide) hpos hlt, hdigit,
        ← List.append_assoc]
      exact congrArg (· ++ [c]) hzeros

/-- A run of digits without a zero in front is the digits of the number that it denotes. -/
theorem toDigits_digitsValue {s : List Char} (h : isDigits s = true) (hhead : s.head? ≠ some '0') :
    Nat.toDigits 10 (digitsValue s) = s := by
  obtain ⟨zeros, hzeros⟩ := exists_paddedDigits h
  cases zeros with
  | zero => exact hzeros.symm
  | succ zeros =>
    rw [hzeros] at hhead
    exact absurd rfl hhead

theorem exists_paddedDigits_natAbs {n : Int} {s : List Char} (h : isDigits s = true)
    (hn : digitsValue s = n.natAbs) : ∃ zeros, s = paddedDigits zeros n.natAbs :=
  hn ▸ exists_paddedDigits h

/-- An integer is read from nothing but its writings. -/
theorem spells_of_integer? {n : Int} {word : List Char} (h : integer? word = some n) :
    SpellsInt n word := by
  unfold integer? at h
  split at h
  · next s =>
    obtain ⟨hrun, hvalue⟩ := Option.ite_none_right_eq_some.mp h
    have hn : -(digitsValue s : Int) = n := Option.some.inj hvalue
    obtain ⟨zeros, rfl⟩ := exists_paddedDigits_natAbs hrun (show digitsValue s = n.natAbs by omega)
    exact .minus zeros (by omega)
  · next s =>
    obtain ⟨hrun, hvalue⟩ := Option.ite_none_right_eq_some.mp h
    have hn : (digitsValue s : Int) = n := Option.some.inj hvalue
    obtain ⟨zeros, rfl⟩ := exists_paddedDigits_natAbs hrun (show digitsValue s = n.natAbs by omega)
    exact .plus zeros (by omega)
  · obtain ⟨hrun, hvalue⟩ := Option.ite_none_right_eq_some.mp h
    have hn : (digitsValue word : Int) = n := Option.some.inj hvalue
    obtain ⟨zeros, rfl⟩ :=
      exists_paddedDigits_natAbs hrun (show digitsValue word = n.natAbs by omega)
    exact .bare zeros (by omega)

/-- The texts that are read as an integer are its writings. -/
theorem integer?_eq_some_iff {n : Int} {word : List Char} :
    integer? word = some n ↔ SpellsInt n word :=
  ⟨spells_of_integer?, integer?_of_spells⟩

/-- The writing without signs and zeros that are not needed is one of them. -/
theorem spells_ofInt : ∀ n : Int, SpellsInt n (ofInt n)
  | .ofNat n => by
    rw [Int.ofNat_eq_natCast, ofInt_natCast]
    exact .bare 0 (Int.natCast_nonneg n)
  | .negSucc n => by
    rw [ofInt_negSucc]
    exact .minus 0 (Int.le_of_lt (Int.negSucc_lt_zero n))

/-- A written integer is read as that integer. -/
theorem integer?_ofInt (n : Int) : integer? (ofInt n) = some n :=
  integer?_of_spells (spells_ofInt n)

/-! ## Conversions -/

/-- A text is read as an integer if it writes one with few enough digits. -/
theorem readInt_eq_some_iff {n : Int} {word : List Char} :
    readInt word = .ok (some n) ↔ SpellsInt n word ∧ isOverlong word = false := by
  rw [← integer?_eq_some_iff, readInt]
  cases integer? word with
  | none => exact ⟨nofun, fun h => nomatch h.1⟩
  | some m =>
    cases isOverlong word with
    | false => simp
    | true => simp

/-- What writes no integer is read as none, however long it is. -/
theorem readInt_eq_none_iff {word : List Char} : readInt word = .ok none ↔ ¬ IsNumeral word := by
  rw [← integer?_eq_none_iff, readInt]
  cases integer? word with
  | none => exact iff_of_true rfl rfl
  | some m =>
    refine iff_of_false ?_ nofun
    cases isOverlong word with
    | false => exact nofun
    | true => exact nofun

/-- Every numeral writes an integer. -/
theorem isNumeral_iff {word : List Char} : IsNumeral word ↔ ∃ n, SpellsInt n word := by
  rw [← not_iff_not, ← integer?_eq_none_iff, Option.eq_none_iff_forall_ne_some, not_exists]
  exact forall_congr' fun n => not_congr integer?_eq_some_iff

/-- The reading of an integer is refused exactly for its digits. -/
theorem readInt_eq_error_iff {word : List Char} :
    (∃ refusal, readInt word = .error refusal) ↔ IsNumeral word ∧ isOverlong word = true := by
  rw [readInt]
  cases hword : integer? word with
  | none => exact ⟨nofun, fun h => absurd h.1 (integer?_eq_none_iff.mp hword)⟩
  | some n =>
    have hnumeral : IsNumeral word := isNumeral_iff.mpr ⟨n, spells_of_integer? hword⟩
    cases isOverlong word with
    | false => simp
    | true => simp [hnumeral]

theorem isOverlong_cons {s : List Char} (h : isOverlong s = true) (c : Char) :
    isOverlong (c :: s) = true := by
  have hcount : digitLimit < s.countP Char.isDigit := of_decide_eq_true h
  rw [isOverlong, decide_eq_true_iff, List.countP_cons]
  exact Nat.lt_of_lt_of_le hcount (Nat.le_add_right _ _)

theorem isOverlong_paddedDigits (zeros n : Nat) (h : digitLimit ≤ zeros) :
    isOverlong (paddedDigits zeros n) = true := by
  have hall : (paddedDigits zeros n).countP Char.isDigit = (paddedDigits zeros n).length :=
    List.countP_eq_length.mpr (isDigits_iff.mp (isDigits_paddedDigits zeros n)).2
  have hpos : 0 < (Nat.toDigits 10 n).length := List.length_pos_iff.mpr Nat.toDigits_ne_nil
  rw [isOverlong, decide_eq_true_iff, hall, paddedDigits, List.length_append, List.length_replicate]
  omega

/-- Zero with as many zeros in front of it as a conversion takes digits. -/
def manyZeros : List Char :=
  paddedDigits digitLimit 0

theorem spells_manyZeros : SpellsInt 0 manyZeros :=
  .bare digitLimit (Int.le_refl 0)

theorem isNumeral_manyZeros : IsNumeral manyZeros :=
  isNumeral_iff.mpr ⟨0, spells_manyZeros⟩

theorem isOverlong_manyZeros : isOverlong manyZeros = true :=
  isOverlong_paddedDigits digitLimit 0 (Nat.le_refl _)

/-- A one with that many zeros behind it. -/
def manyDigits : List Char :=
  '1' :: manyZeros

/-- The number with these digits. -/
def largeNumber : Nat :=
  digitsValue manyDigits

theorem ofInt_largeNumber : ofInt largeNumber = manyDigits := by
  have hzeros := isDigits_iff.mp (isDigits_paddedDigits digitLimit 0)
  have hdigits : isDigits manyDigits = true :=
    isDigits_iff.mpr ⟨List.cons_ne_nil _ _, List.forall_mem_cons.mpr ⟨by decide, hzeros.2⟩⟩
  exact (ofInt_natCast _).trans
    (toDigits_digitsValue hdigits fun h => absurd (Option.some.inj h) (by decide))

theorem isOverlong_ofInt_largeNumber : isOverlong (ofInt largeNumber) = true := by
  rw [ofInt_largeNumber]
  exact isOverlong_cons isOverlong_manyZeros '1'

/-- A number below `16 ^ 4` has four hexadecimal digits, leading zeros included. -/
theorem hex_four {n : Nat} (h : n < 65536) :
    hex 4 n = [Nat.digitChar (n / 4096), Nat.digitChar (n / 256 % 16), Nat.digitChar (n / 16 % 16),
      Nat.digitChar (n % 16)] := by
  -- One case for each count of digits; the zeros in front are digits as well.
  have hzero : Nat.digitChar 0 = '0' := rfl
  have hbase : 1 < 16 := by decide
  rw [hex]
  by_cases h1 : n < 16
  · rw [Nat.toDigits_of_lt_base h1, Nat.mod_eq_of_lt h1, show n / 4096 = 0 by omega,
      show n / 256 % 16 = 0 by omega, show n / 16 % 16 = 0 by omega, hzero]
    rfl
  by_cases h2 : n < 256
  · rw [Nat.toDigits_of_base_le hbase (by omega), Nat.toDigits_of_lt_base (by omega : n / 16 < 16),
      show n / 4096 = 0 by omega, show n / 256 % 16 = 0 by omega, show n / 16 % 16 = n / 16 by omega,
      hzero]
    rfl
  by_cases h3 : n < 4096
  · rw [Nat.toDigits_of_base_le hbase (by omega), Nat.toDigits_of_base_le hbase (by omega),
      Nat.toDigits_of_lt_base (by omega : n / 16 / 16 < 16), show n / 4096 = 0 by omega,
      show n / 256 % 16 = n / 16 / 16 by omega, hzero]
    rfl
  · rw [Nat.toDigits_of_base_le hbase (by omega), Nat.toDigits_of_base_le hbase (by omega),
      Nat.toDigits_of_base_le hbase (by omega),
      Nat.toDigits_of_lt_base (by omega : n / 16 / 16 / 16 < 16),
      show n / 4096 = n / 16 / 16 / 16 by omega, show n / 256 % 16 = n / 16 / 16 % 16 by omega]
    rfl

end Parley.Text
