import Parley.Proofs.Answer
import Parley.Proofs.Script.Scanner

/-!
# Nested Lists

How many lists of a datum are open at once (`Datum.depth`). A scanner opens no list beyond those that
there is room for, so whatever it holds fits where it is: the items of an open list are nested no deeper
than the lists around them leave room for (`Scanner.Nested`). Hence the data of a text are not nested
deeper than the reader goes.
-/

namespace Parley

namespace Datum

mutual

/-- The most lists of a datum that are open at once. -/
def depth : Datum → Nat
  | .list items _ => depthAll items + 1
  | _ => 0

/-- The most lists of data that are open at once. -/
def depthAll : List Datum → Nat
  | [] => 0
  | d :: rest => max (depth d) (depthAll rest)

end

/-- Several data nest as deep as the deepest of them. -/
theorem depthAll_le_iff {ds : List Datum} {n : Nat} : depthAll ds ≤ n ↔ ∀ d ∈ ds, d.depth ≤ n := by
  induction ds with
  | nil => simp [depthAll]
  | cons d rest ih => rw [depthAll, Nat.max_le, ih, List.forall_mem_cons]

@[simp]
theorem depthAll_reverse (ds : List Datum) : depthAll ds.reverse = depthAll ds := by
  refine Nat.le_antisymm ?_ ?_
  · exact depthAll_le_iff.mpr fun d hd => depthAll_le_iff.mp (Nat.le_refl _) d (List.mem_reverse.mp hd)
  · exact depthAll_le_iff.mpr fun d hd => depthAll_le_iff.mp (Nat.le_refl _) d (List.mem_reverse.mpr hd)

/-- A word is no list. -/
@[simp]
theorem depth_ofWord (word : List Char) (p : Position) : (ofWord word p).depth = 0 := by
  unfold ofWord
  split <;> rfl

end Datum

namespace Scanner

/-- The items of open lists, innermost list first, fit where the lists around them leave room. -/
def FitInside (room : Nat) : List OpenList → Prop
  | [] => True
  | l :: outer => Datum.depthAll l.items + (outer.length + 1) ≤ room ∧ FitInside room outer

/-- All that a scanner holds fits where it is. -/
structure Nested (s : Scanner) : Prop where
  opened : FitInside s.room s.opened
  data : Datum.depthAll s.data ≤ s.room

variable {s : Scanner}

/-- No more lists are open than there is room for. -/
theorem FitInside.length_le {room : Nat} {opened : List OpenList} (h : FitInside room opened) :
    opened.length ≤ room := by
  cases opened with
  | nil => exact Nat.zero_le room
  | cons l outer => exact Nat.le_trans (Nat.le_add_left _ _) h.1

namespace Nested

/-- A datum may be added where its depth fits below the open lists. -/
theorem emit (hs : s.Nested) {d : Datum} (hd : d.depth + s.opened.length ≤ s.room) :
    (s.emit d).Nested := by
  obtain ⟨hopened, hdata⟩ := hs
  unfold Scanner.emit
  split
  · exact ⟨hopened, Nat.max_le.mpr ⟨Nat.le_trans (Nat.le_add_right _ _) hd, hdata⟩⟩
  · next l outer hl =>
    rw [hl] at hopened hd
    refine ⟨⟨?_, hopened.2⟩, hdata⟩
    have hitems := hopened.1
    rw [List.length_cons] at hd
    show max d.depth (Datum.depthAll l.items) + (outer.length + 1) ≤ s.room
    omega

/-- Ending a word nests nothing. -/
theorem endWord (hs : s.Nested) : s.endWord.Nested := by
  unfold Scanner.endWord
  split
  · exact hs.emit (by simpa using hs.opened.length_le)
  · exact hs

/-- A list is opened where there is room for it, and closed it fits where it was opened. -/
theorem between (hs : s.Nested) (x : Char) : Gives Nested (s.between x) := by
  unfold Scanner.between
  split
  · exact hs
  split
  · exact ⟨hs.opened, hs.data⟩
  split
  · split
    · next hroom =>
      have hnew : Datum.depthAll [] + (s.opened.length + 1) ≤ s.room := by
        rw [Datum.depthAll, Nat.zero_add]
        exact hroom
      exact ⟨⟨hnew, hs.opened⟩, hs.data⟩
    · exact True.intro
  split
  · split
    · exact True.intro
    · next l outer hl =>
      have hopened := hs.opened
      rw [hl] at hopened
      have houter : ({ s with opened := outer } : Scanner).Nested := ⟨hopened.2, hs.data⟩
      refine houter.emit ?_
      have hitems := hopened.1
      rw [Datum.depth, Datum.depthAll_reverse]
      show _ + outer.length ≤ s.room
      omega
  split
  · exact ⟨hs.opened, hs.data⟩
  · exact ⟨hs.opened, hs.data⟩

/-- One character opens at most one list, and only where there is room. -/
theorem take (hs : s.Nested) (x : Char) : Gives Nested (s.take x) := by
  unfold Scanner.take
  split
  · exact hs.between x
  · split
    · exact ⟨hs.opened, hs.data⟩
    · exact hs
  · split
    · exact ⟨hs.opened, hs.data⟩
    · exact (Answers.trivial s.checkWord).bind fun _ _ => hs.endWord.between x
  · split
    · exact hs.emit (by simpa [Datum.depth] using hs.opened.length_le)
    split
    · exact ⟨hs.opened, hs.data⟩
    · exact ⟨hs.opened, hs.data⟩
  · exact ⟨hs.opened, hs.data⟩

end Nested

/-- What was scanned from a text nests no deeper than the limit. -/
theorem nested_scan {limits : Limits} {text : List Char} {t : Scanner}
    (h : (start limits).scan text = .ok t) : t.Nested ∧ t.room = limits.lists := by
  have hstep : ∀ (_ : List Char) x s t, Scanner.Nested s ∧ s.room = limits.lists →
      s.step x = .ok t → t.Nested ∧ t.room = limits.lists := by
    rintro - x s t ⟨hs, hroom⟩ hx
    have hnested : Gives Nested (s.step x) := (hs.take x).map fun u hu => ⟨hu.opened, hu.data⟩
    exact ⟨hnested.of_eq_ok hx, (step_room hx).trans hroom⟩
  exact scan_induction (P := fun _ s => s.Nested ∧ s.room = limits.lists)
    ⟨⟨True.intro, Nat.zero_le _⟩, rfl⟩ hstep h

end Scanner

/-- The data of a text are not nested deeper than the reader goes. -/
theorem Datum.depthAll_of_read {text : String} {limits : Limits} {data : List Datum}
    (h : read text limits = .ok data) : depthAll data ≤ limits.lists := by
  rw [Scanner.read_eq, Scanner.read, Scanner.run_eq_ok] at h
  obtain ⟨s, hscan, hfinish⟩ := h
  obtain ⟨-, -, -, rfl⟩ := Scanner.finish_eq_ok.mp hfinish
  obtain ⟨hnested, hroom⟩ := Scanner.nested_scan hscan
  rw [depthAll_reverse, ← hroom, ← Scanner.endWord_room]
  exact hnested.endWord.data

end Parley
