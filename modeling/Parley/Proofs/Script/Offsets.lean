import Parley.Proofs.Script.Scanner

/-!
# Offsets and Positions

A cursor counts the characters that it has passed, and it counts lines and columns. The text and the
first count determine the other two: the line is known from the ends of lines that were passed, the
column from how far back the last of them lies (`Position.IsAt`). The three counts go on together, also
beyond the end of the text, where steps are counted as if there were characters.

* `Position.IsAt.unique`: an offset has one position;
* `Cursor.StandsIn.advance`: a cursor that counts right counts right after a step;
* `Cursor.StandsIn.skipTrivia`: and after blanks, byte order marks and comments (`Trivia`).
-/

namespace Parley

variable {text : List Char} {n : Nat}

/-- An offset at which a line starts that lasts up to a later offset at least. -/
structure StartsLine (text : List Char) (start n : Nat) : Prop where
  le : start ≤ n
  /-- The line is the first one, or it is behind the end of another. -/
  behind : ∀ k, start = k + 1 → text[k]? = some '\n'
  /-- It does not end before the later offset. -/
  inside : ∀ k, start ≤ k → k < n → text[k]? ≠ some '\n'

namespace StartsLine

variable {start : Nat}

/-- A line starts after every line end. -/
theorem newline (h : text[n]? = some '\n') : StartsLine text (n + 1) (n + 1) where
  le := Nat.le_refl _
  behind k hk := by
    obtain rfl : n = k := by omega
    exact h
  inside k hle hlt := absurd hlt (by omega)

/-- A character that ends no line stays on it. -/
theorem next (hs : StartsLine text start n) (h : text[n]? ≠ some '\n') :
    StartsLine text start (n + 1) where
  le := Nat.le_succ_of_le hs.le
  behind := hs.behind
  inside k hle hlt := by
    obtain hlt | rfl := Nat.lt_succ_iff_lt_or_eq.mp hlt
    · exact hs.inside k hle hlt
    · exact h

/-- One place has one start of its line. -/
theorem not_lt {other : Nat} (hs : StartsLine text start n) (ho : StartsLine text other n) :
    ¬ start < other := by
  intro hlt
  -- The end of the line before the other one would lie inside this line.
  obtain ⟨k, rfl⟩ := Nat.exists_eq_succ_of_ne_zero (Nat.ne_zero_of_lt hlt)
  exact hs.inside k (Nat.le_of_lt_succ hlt) ho.le (ho.behind k rfl)

end StartsLine

namespace Position

/-- The position of an offset in a text: the line is one more than the ends of lines before the offset,
and the column is one more than the distance from the start of that line. -/
structure IsAt (text : List Char) (n : Nat) (p : Position) : Prop where
  line : p.line = 1 + (text.take n).count '\n'
  column : ∃ start, StartsLine text start n ∧ p.column = 1 + (n - start)

namespace IsAt

variable {p : Position}

/-- An offset has one position. -/
theorem unique {q : Position} (hp : p.IsAt text n) (hq : q.IsAt text n) : p = q := by
  obtain ⟨start, hs, hcolumn⟩ := hp.column
  obtain ⟨other, ho, hcolumn'⟩ := hq.column
  have hline : p.line = q.line := hp.line.trans hq.line.symm
  have hstart : start = other :=
    Nat.le_antisymm (Nat.le_of_not_lt (ho.not_lt hs)) (Nat.le_of_not_lt (hs.not_lt ho))
  have hcolumns : p.column = q.column := by rw [hcolumn, hcolumn', hstart]
  cases p
  cases q
  rw [mk.injEq]
  exact ⟨hline, hcolumns⟩

/-- A text starts at line 1, column 1. -/
theorem zero (text : List Char) : (⟨1, 1⟩ : Position).IsAt text 0 where
  line := by simp
  column := ⟨0, ⟨Nat.le_refl _, nofun, nofun⟩, rfl⟩

/-- Behind the end of a line a new one starts. -/
theorem newline (hp : p.IsAt text n) (h : text[n]? = some '\n') :
    (⟨p.line + 1, 1⟩ : Position).IsAt text (n + 1) where
  line := by
    rw [List.take_add_one, h, List.count_append, hp.line]
    simp [Nat.add_assoc]
  column := ⟨n + 1, .newline h, by simp⟩

/-- Behind any other character, and beyond the end of the text, the line goes on. -/
theorem next (hp : p.IsAt text n) (h : text[n]? ≠ some '\n') :
    (⟨p.line, p.column + 1⟩ : Position).IsAt text (n + 1) where
  line := by
    have hcount : text[n]?.toList.count '\n' = 0 := by
      rw [List.count_eq_zero]
      simpa using h
    simp [List.take_add_one, hcount, hp.line]
  column := by
    obtain ⟨start, hs, hcolumn⟩ := hp.column
    have hle := hs.le
    exact ⟨start, hs.next h, by simp only [hcolumn]; omega⟩

end IsAt

end Position

/-- The characters from an offset to the end of the line. -/
def lineAt (text : List Char) (i : Nat) : List Char :=
  (text.drop i).takeWhile (· != '\n')

/-- Nothing but blanks, byte order marks and comments lies between two offsets. -/
inductive Trivia (text : List Char) : Nat → Nat → Prop
  | nil (i : Nat) : Trivia text i i
  | gap {i j : Nat} {x : Char} (hx : text[i]? = some x) (hgap : Cursor.isGap x = true)
      (h : Trivia text (i + 1) j) : Trivia text i j
  | comment {i j : Nat} (hmark : text[i]? = some ';')
      (h : Trivia text (i + 1 + (lineAt text (i + 1)).length) j) : Trivia text i j

theorem Trivia.le {i j : Nat} (h : Trivia text i j) : i ≤ j := by
  induction h with
  | nil => exact Nat.le_refl _
  | gap _ _ _ ih => omega
  | comment _ _ ih => omega

namespace Cursor

variable {c : Cursor}

@[simp]
theorem offset_advance (c : Cursor) : c.advance.offset = c.offset + 1 := by
  unfold advance
  split <;> rfl

theorem offset_le_advance (c : Cursor) : c.offset ≤ c.advance.offset := by
  simp

@[simp]
theorem offset_advanceBy (k : Nat) (c : Cursor) : (advanceBy k c).offset = c.offset + k := by
  induction k generalizing c with
  | zero => rfl
  | succ k ih =>
    rw [advanceBy, ih, offset_advance]
    omega

/-- A cursor has the rest of a text ahead of it and counts right. -/
structure StandsIn (text : List Char) (c : Cursor) : Prop where
  rest : c.rest = text.drop c.offset
  position : c.position.IsAt text c.offset

/-- Before reading, a cursor stands at the start of its text. -/
theorem standsIn_start (text : String) : (start text).StandsIn text.toList :=
  ⟨rfl, .zero _⟩

namespace StandsIn

/-- The character ahead of a cursor is the one of the text at its offset. -/
theorem head (hc : c.StandsIn text) : text[c.offset]? = c.rest.head? := by
  rw [hc.rest, List.head?_drop]

theorem of_cons (hc : c.StandsIn text) {x : Char} {xs : List Char} (h : c.rest = x :: xs) :
    text[c.offset]? = some x := by
  rw [hc.head, h, List.head?_cons]

/-- A cursor that advances still stands in its text. -/
theorem advance (hc : c.StandsIn text) : c.advance.StandsIn text where
  rest := by rw [rest_advance, offset_advance, hc.rest, List.tail_drop]
  position := by
    rw [offset_advance]
    unfold Cursor.advance
    split
    -- Beyond the end there is no character, and so none that ends the line.
    · next hnil =>
      exact hc.position.next (by simp [hc.head, hnil])
    · next hnewline =>
      exact hc.position.newline (hc.of_cons hnewline)
    · next x xs hne hcons =>
      refine hc.position.next fun hx => hne ?_
      exact Option.some.inj ((hc.of_cons hcons).symm.trans hx)

theorem advanceBy (hc : c.StandsIn text) (k : Nat) : (advanceBy k c).StandsIn text := by
  induction k generalizing c with
  | zero => exact hc
  | succ k ih => exact ih hc.advance

/-- What is skipped is trivia, and is counted right. -/
theorem skipTrivia (hc : c.StandsIn text) :
    c.skipTrivia.StandsIn text ∧ Trivia text c.offset c.skipTrivia.offset := by
  fun_induction Cursor.skipTrivia c with
  | case1 c h => exact ⟨hc, .nil _⟩
  | case2 c x xs h hgap ih =>
    obtain ⟨hstands, htrivia⟩ := ih hc.advance
    rw [offset_advance] at htrivia
    exact ⟨hstands, .gap (hc.of_cons h) hgap htrivia⟩
  | case3 c xs h hgap ih =>
    -- The end of the line is not part of the comment, but trivia behind it.
    obtain ⟨hstands, htrivia⟩ := ih (hc.advance.advanceBy _)
    have hline : c.advance.restOfLine = (lineAt text (c.offset + 1)).length := by
      rw [restOfLine, lineAt, hc.advance.rest, offset_advance]
    have hoffset : (Cursor.advanceBy c.advance.restOfLine c.advance).offset =
        c.offset + 1 + (lineAt text (c.offset + 1)).length := by
      rw [offset_advanceBy, offset_advance, hline]
    rw [hoffset] at htrivia
    exact ⟨hstands, .comment (hc.of_cons h) htrivia⟩
  | case4 c x xs h hgap hsemi => exact ⟨hc, .nil _⟩

end StandsIn

end Cursor

end Parley
