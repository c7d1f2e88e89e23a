import Parley.Proofs.Text.Integer
import Parley.Text.Blank
import Mathlib.Data.List.Basic
import Mathlib.Data.List.TakeWhile

/-!
# Integers between Blanks

A text can be read as an integer with blanks at both of its ends. Taking them away (`strip`) leaves
the writing of the integer and nothing else, since no character of a writing is blank.

* `exists_strip`: what is taken away are blanks;
* `strip_eq`: all blanks at the ends are taken away;
* `integer?_strip_eq_some_iff`: an integer is read from its writings between blanks, and from
  nothing else;
* `isOverlong_strip`: the blanks do not count as digits.
-/

namespace Parley.Text

/-- A digit is no blank. -/
theorem isBlank_of_isDigit {c : Char} (h : c.isDigit = true) : isBlank c = false := by
  have hbounds : 48 ≤ c.toNat ∧ c.toNat ≤ 57 := Char.isDigit_iff_toNat.mp h
  simp only [isBlank, blankRanges, List.any_cons, List.any_nil, Bool.or_eq_false_iff,
    Bool.and_eq_false_iff, decide_eq_false_iff_not, and_true]
  omega

/-- A text is its stripped part between blanks. -/
theorem exists_strip (s : List Char) :
    ∃ before after, (∀ c ∈ before, isBlank c = true) ∧ (∀ c ∈ after, isBlank c = true) ∧
      s = before ++ strip s ++ after := by
  refine ⟨s.takeWhile isBlank, ((s.dropWhile isBlank).reverse.takeWhile isBlank).reverse,
    fun c hc => List.mem_takeWhile_imp hc,
    fun c hc => List.mem_takeWhile_imp (List.mem_reverse.mp hc), ?_⟩
  rw [strip, List.append_assoc, ← List.reverse_append, List.takeWhile_append_dropWhile,
    List.reverse_reverse, List.takeWhile_append_dropWhile]

theorem dropWhile_blanks {before rest : List Char} (hbefore : ∀ c ∈ before, isBlank c = true)
    (hrest : ∀ c ∈ rest.head?, isBlank c = false) : (before ++ rest).dropWhile isBlank = rest := by
  rw [List.dropWhile_append_of_pos hbefore]
  cases rest with
  | nil => rfl
  | cons c rest => rw [List.dropWhile_cons_of_neg (by simp [hrest c rfl])]

/-- Blanks at both ends of a word are all taken away. -/
theorem strip_eq {before word after : List Char} (hbefore : ∀ c ∈ before, isBlank c = true)
    (hafter : ∀ c ∈ after, isBlank c = true) (hne : word ≠ [])
    (hword : ∀ c ∈ word, isBlank c = false) : strip (before ++ word ++ after) = word := by
  have hfront : (before ++ (word ++ after)).dropWhile isBlank = word ++ after := by
    refine dropWhile_blanks hbefore fun c hc => hword c ?_
    rw [List.head?_append_of_ne_nil _ hne] at hc
    exact List.mem_of_mem_head? hc
  have hback : (after.reverse ++ word.reverse).dropWhile isBlank = word.reverse := by
    refine dropWhile_blanks (fun c hc => hafter c (List.mem_reverse.mp hc)) fun c hc => hword c ?_
    exact List.mem_reverse.mp (List.mem_of_mem_head? hc)
  rw [strip, List.append_assoc, hfront, List.reverse_append, hback, List.reverse_reverse]

/-- The writings of an integer have characters, and no blank among them. -/
theorem not_isBlank_of_spells {n : Int} {word : List Char} (h : SpellsInt n word) :
    word ≠ [] ∧ ∀ c ∈ word, isBlank c = false := by
  have hdigits : ∀ zeros, ∀ c ∈ paddedDigits zeros n.natAbs, isBlank c = false := fun zeros c hc =>
    isBlank_of_isDigit ((isDigits_iff.mp (isDigits_paddedDigits zeros _)).2 c hc)
  cases h with
  | bare zeros _ => exact ⟨(isDigits_iff.mp (isDigits_paddedDigits zeros _)).1, hdigits zeros⟩
  | plus zeros _ =>
    exact ⟨List.cons_ne_nil _ _, List.forall_mem_cons.mpr ⟨by decide, hdigits zeros⟩⟩
  | minus zeros _ =>
    exact ⟨List.cons_ne_nil _ _, List.forall_mem_cons.mpr ⟨by decide, hdigits zeros⟩⟩

/-- A text that is the writing of an integer, with blanks before and behind it. -/
def WritesInt (n : Int) (s : List Char) : Prop :=
  ∃ before word after, s = before ++ word ++ after ∧ (∀ c ∈ before, isBlank c = true) ∧
    SpellsInt n word ∧ ∀ c ∈ after, isBlank c = true

/-- The texts that are read as an integer when they are stripped are those that write it. -/
theorem integer?_strip_eq_some_iff {n : Int} {s : List Char} :
    integer? (strip s) = some n ↔ WritesInt n s := by
  constructor
  · intro h
    obtain ⟨before, after, hbefore, hafter, hs⟩ := exists_strip s
    exact ⟨before, strip s, after, hs, hbefore, integer?_eq_some_iff.mp h, hafter⟩
  · rintro ⟨before, word, after, rfl, hbefore, hspells, hafter⟩
    obtain ⟨hne, hword⟩ := not_isBlank_of_spells hspells
    rw [strip_eq hbefore hafter hne hword]
    exact integer?_of_spells hspells

/-- An integer writes itself. -/
theorem writesInt_ofInt (n : Int) : WritesInt n (ofInt n) :=
  ⟨[], ofInt n, [], (List.append_nil _).symm, List.forall_mem_nil _, spells_ofInt n,
    List.forall_mem_nil _⟩

/-- No text writes two integers. -/
theorem WritesInt.unique {m n : Int} {s : List Char} (hm : WritesInt m s) (hn : WritesInt n s) :
    m = n :=
  Option.some.inj
    ((integer?_strip_eq_some_iff.mpr hm).symm.trans (integer?_strip_eq_some_iff.mpr hn))

/-- The blanks that are taken away are no digits. -/
theorem isOverlong_strip (s : List Char) : isOverlong (strip s) = isOverlong s := by
  obtain ⟨before, after, hbefore, hafter, hs⟩ := exists_strip s
  have hblanks : ∀ blanks : List Char, (∀ c ∈ blanks, isBlank c = true) →
      blanks.countP Char.isDigit = 0 := by
    intro blanks hblanks
    refine List.countP_eq_zero.mpr fun c hc hdigit => ?_
    exact Bool.false_ne_true ((isBlank_of_isDigit hdigit).symm.trans (hblanks c hc))
  have hcount : s.countP Char.isDigit = (strip s).countP Char.isDigit := by
    conv_lhs => rw [hs]
    rw [List.countP_append, List.countP_append, hblanks before hbefore, hblanks after hafter,
      Nat.zero_add, Nat.add_zero]
  rw [isOverlong, isOverlong, hcount]

/-- The texts that write some integer. -/
theorem isNumeral_strip_iff {s : List Char} : IsNumeral (strip s) ↔ ∃ n, WritesInt n s := by
  rw [isNumeral_iff]
  exact exists_congr fun n => integer?_eq_some_iff.symm.trans integer?_strip_eq_some_iff

end Parley.Text
