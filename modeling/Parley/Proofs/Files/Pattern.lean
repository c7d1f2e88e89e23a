import Mathlib.Data.List.Perm.Basic
import Parley.Files.Pattern
import Parley.Proofs.Files.Directory

/-!
# Patterns of an Extension

A pattern that starts with a star and goes on with plain characters stands for the names that end in
these characters. What it stands for in a directory are the names with this end, joined to the path
of the directory, each as often as it is there.

* `matchesPieces_extension`: which names such a pattern stands for;
* `paths_perm`: which paths it stands for.
-/

namespace Parley

namespace Pattern

/-- Plain characters stand for themselves. -/
theorem matchesPieces_chars (chars name : List Char) :
    matchesPieces (chars.map .char) name = true ↔ name = chars := by
  induction chars generalizing name with
  | nil => rw [List.map_nil, matchesPieces_nil, List.isEmpty_iff]
  | cons c rest ih =>
    rw [List.map_cons]
    cases name with
    | nil =>
      constructor
      · intro h
        simp [matchesPieces, row] at h
      · rintro ⟨⟩
    | cons d more =>
      have hplain : Piece.char c ≠ .many := by rintro ⟨⟩
      rw [matchesPieces_cons hplain, Bool.and_eq_true, ih, List.cons.injEq]
      exact and_congr_left fun _ => beq_iff_eq

/-- A star and plain characters stand for the names that end in these. -/
theorem matchesPieces_extension (ext name : List Char) :
    matchesPieces (.many :: ext.map .char) name = true ↔ ext <:+ name := by
  constructor
  · intro h
    induction name with
    | nil =>
      rw [matchesPieces_many_nil, matchesPieces_chars] at h
      exact h ▸ List.suffix_refl _
    | cons c rest ih =>
      rw [matchesPieces_many_cons, Bool.or_eq_true, matchesPieces_chars] at h
      rcases h with h | h
      · exact h ▸ List.suffix_refl _
      · exact (ih h).trans (List.suffix_cons c rest)
  · rintro ⟨start, rfl⟩
    exact matchesPieces_many ((matchesPieces_chars ext ext).2 rfl) start

theorem insertPath_perm (path : String) (paths : List String) :
    (insertPath path paths).Perm (path :: paths) := by
  induction paths with
  | nil => exact List.Perm.refl _
  | cons p rest ih =>
    rw [insertPath]
    split
    · exact (ih.cons p).trans (List.Perm.swap path p rest)
    · exact List.Perm.refl _

/-- Putting paths in order neither adds nor loses one. -/
theorem sortPaths_perm (paths : List String) : (paths.foldr insertPath []).Perm paths := by
  induction paths with
  | nil => exact List.Perm.refl _
  | cons path rest ih => exact (insertPath_perm path _).trans (ih.cons path)

/-- A pattern with a single component for names stands for those of the directory. -/
theorem paths_perm {t : FileTree} {directory : String} (h : t.isDirectory directory = .ok true)
    (pieces : List Piece) :
    ∃ found, (⟨[.wild pieces], false⟩ : Pattern).paths t directory = .ok found ∧
      found.Perm (((t.names directory).filter fun name => matchesPieces pieces name.toList).map
        (Path.join directory)) := by
  refine ⟨_, ?_, sortPaths_perm _⟩
  rw [paths, h]
  simp [pathsBelow, Component.paths, bind, Except.bind, pure, Except.pure]

end Pattern

end Parley
