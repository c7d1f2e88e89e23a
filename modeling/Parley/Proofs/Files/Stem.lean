import Parley.Proofs.Files.Path

/-!
# Stems of Paths

The stem of a path is its last component without the extension. A path that is made by joining a
name with an extension to a directory gives the name back, unless the name is empty or has a slash
in it:

* `components_normalize` and `stem_normalize`: the normal form of a path has the same stem;
* `name_join` and `stem_join`: the last component of a joined path, and its stem, are those of the
  name;
* `stem_of_name`: what is left of a component without its extension;
* `stem_join_iff`: when the name is given back.
-/

namespace Parley.Path

/-- The components of a path in two pieces are those of the pieces. -/
theorem components_append (p q : String) :
    components (p ++ "/" ++ q) = components p ++ components q := by
  rw [components, String.toList_append, String.toList_append, show "/".toList = ['/'] from rfl,
    List.append_assoc, List.singleton_append, List.splitOn_append_cons_self, List.map_append,
    List.filter_append]
  rfl

/-- The components of a path are those that it was built of, also if there are none. -/
theorem components_build_all {root : String} {parts : List String}
    (hroot : root = "" ∨ root = "/" ∨ root = "//") (hparts : ∀ part ∈ parts, IsPart part) :
    components (build root parts) = parts := by
  cases parts with
  | nil => rcases hroot with rfl | rfl | rfl <;> decide
  | cons part rest => exact components_build hroot hparts (List.cons_ne_nil part rest)

theorem components_normalize (path : String) : components (normalize path) = components path :=
  components_build_all (rootOf_cases path) fun _ hpart => (isPart_of_mem_components hpart).1

/-- Paths with the same last component have the same stem. -/
theorem stem_congr {p q : String} (h : name p = name q) : stem p = stem q := by
  rw [stem, h]
  rfl

/-- A path and its normal form have the same stem. -/
theorem stem_normalize (path : String) : stem (normalize path) = stem path :=
  stem_congr (by rw [name, name, components_normalize])

/-- The last component of a joined path is the one of what was joined. -/
theorem name_join (base : String) {path : String} (h : components path ≠ []) :
    name (join base path) = name path := by
  rw [join]
  split
  · have hparts : ∀ part ∈ components base ++ components path, IsPart part := by
      intro part hpart
      exact (List.mem_append.1 hpart).elim (fun h => (isPart_of_mem_components h).1)
        fun h => (isPart_of_mem_components h).1
    rw [name, name, components_build_all (rootOf_cases base) hparts]
    cases hlast : (components path).getLast? with
    | none => exact absurd (List.getLast?_eq_none_iff.1 hlast) h
    | some part =>
      rw [List.getLastD_eq_getLast?, List.getLastD_eq_getLast?, List.getLast?_append, hlast]
      rfl
  · rw [name, name, components_normalize]

/-- A name joined to a path leaves it in its normal form. -/
theorem normalize_join (base : String) {name : String} (h : IsPart name) :
    normalize (join base name) = join base name := by
  rw [normalize, rootOf_join base h, components_join base h, join_of_isPart base h]

/-- A name joined to a path keeps its stem. -/
theorem stem_join (base : String) {name : String} (h : IsPart name) :
    stem (join base name) = stem name :=
  stem_congr (name_join base (by simp [components_of_isPart h]))

/-- The last component of a path without its extension. What starts with its only dot has none. -/
theorem stem_of_name {path base ext : String} (h : name path = base ++ ("." ++ ext))
    (hext : ext ≠ "") (hdot : '.' ∉ ext.toList) :
    stem path = if base = "" then "." ++ ext else base := by
  -- Seen from the end, the extension goes up to the first dot.
  have hchars : (name path).toList.reverse = ext.toList.reverse ++ '.' :: base.toList.reverse := by
    rw [h]
    simp
  have hdrop : (name path).toList.reverse.dropWhile (· != '.') = '.' :: base.toList.reverse := by
    rw [hchars, List.dropWhile_append_of_pos]
    · rfl
    · intro c hc
      rw [bne_iff_ne]
      rintro rfl
      exact hdot (List.mem_reverse.1 hc)
  have hlast : (name path).toList.reverse.head? ≠ some '.' := by
    rw [hchars]
    cases hrev : ext.toList.reverse with
    | nil => exact absurd (String.toList_eq_nil_iff.1 (List.reverse_eq_nil_iff.1 hrev)) hext
    | cons c rest =>
      intro hc
      obtain rfl : c = '.' := Option.some.inj hc
      exact hdot (List.mem_reverse.1 (hrev ▸ List.mem_cons_self))
  unfold stem
  dsimp only
  rw [hdrop]
  by_cases hbase : base = ""
  · subst hbase
    rw [if_pos rfl, h]
    simp
  · have hsome : base.toList.reverse.isEmpty = false := by
      rw [List.isEmpty_eq_false_iff, Ne, List.reverse_eq_nil_iff]
      exact fun hnil => hbase (String.toList_eq_nil_iff.1 hnil)
    rw [if_neg hbase]
    change (if (base.toList.reverse.isEmpty || _ == some '.') = true then _ else
      String.ofList base.toList.reverse.reverse) = base
    rw [hsome, beq_eq_false_iff_ne.2 hlast]
    simp

/-- A text with a slash is cut at its last one. -/
theorem exists_last_slash {s : List Char} (h : '/' ∈ s) :
    ∃ front back, s = front ++ '/' :: back ∧ '/' ∉ back := by
  induction s with
  | nil => cases h
  | cons c rest ih =>
    by_cases hrest : '/' ∈ rest
    · obtain ⟨front, back, rfl, hback⟩ := ih hrest
      exact ⟨c :: front, back, rfl, hback⟩
    · obtain rfl : '/' = c := (List.mem_cons.1 h).resolve_right hrest
      exact ⟨[], rest, rfl, hrest⟩

section Extension

variable {ext : String}

/-- A name with an extension is a component, also if there is nothing before the dot. -/
theorem isPart_of_extension (base : String) (hext : ext ≠ "") (hslash : '/' ∉ ext.toList)
    (hbase : '/' ∉ base.toList) : IsPart (base ++ ("." ++ ext)) := by
  refine ⟨?_, ?_, ?_⟩
  · simp [hbase, hslash]
  · intro h
    have := congrArg String.toList h
    simp at this
  · intro h
    have hlength := congrArg String.length h
    have hpos : ext.length ≠ 0 := by
      rw [← String.length_toList, Ne, List.length_eq_zero_iff, String.toList_eq_nil_iff]
      exact hext
    rw [String.length_append, String.length_append, show ".".length = 1 from rfl] at hlength
    omega

/-- A name that is joined to a directory with an extension is the stem of the path, unless it is
empty or has a slash. -/
theorem stem_join_iff (dir base : String) (hext : ext ≠ "") (hdot : '.' ∉ ext.toList)
    (hslash : '/' ∉ ext.toList) :
    stem (join dir (base ++ ("." ++ ext))) = base ↔ base ≠ "" ∧ '/' ∉ base.toList := by
  by_cases hbase : '/' ∈ base.toList
  · -- Only what is behind the last slash can be in the stem, or the extension if that is nothing.
    obtain ⟨front, back, hcut, hback⟩ := exists_last_slash hbase
    have hjoined : base ++ ("." ++ ext) =
        String.ofList front ++ "/" ++ (String.ofList back ++ ("." ++ ext)) := by
      refine String.toList_inj.1 ?_
      simp [hcut]
    have hback' : '/' ∉ (String.ofList back).toList := by rwa [String.toList_ofList]
    have hparts : components (base ++ ("." ++ ext)) =
        components (String.ofList front) ++ [String.ofList back ++ ("." ++ ext)] := by
      rw [hjoined, components_append,
        components_of_isPart (isPart_of_extension _ hext hslash hback')]
    have hname : name (join dir (base ++ ("." ++ ext))) = String.ofList back ++ ("." ++ ext) := by
      rw [name_join dir (by simp [hparts]), name, hparts]
      simp
    rw [stem_of_name hname hext hdot]
    refine ⟨fun h => absurd hbase ?_, fun h => absurd hbase h.2⟩
    split at h
    · rw [← h]
      simp [hslash]
    · rwa [← h]
  · have hpart := isPart_of_extension base hext hslash hbase
    have hname : name (join dir (base ++ ("." ++ ext))) = base ++ ("." ++ ext) := by
      rw [name_join dir (by simp [components_of_isPart hpart]), name, components_of_isPart hpart]
      rfl
    rw [stem_of_name hname hext hdot]
    refine ⟨fun h => ⟨?_, hbase⟩, fun h => if_neg h.1⟩
    rintro rfl
    rw [if_pos rfl] at h
    simpa using congrArg String.toList h

end Extension

end Parley.Path
