import Parley.Files.Path

/-!
# Paths Joined and Taken Apart

A path is built of leading slashes and components. Building and taking apart are inverse on proper
components (`Path.IsPart`), and a name joined to a path becomes its last component:

* `components_build` and `rootOf_build`;
* `components_join` and `rootOf_join`, for a name that is a single component;
* `utf8ByteSize_join`: how long the path becomes.
-/

namespace Parley.Path

/-- A component of a path in normal form. -/
def IsPart (part : String) : Prop :=
  '/' ∉ part.toList ∧ part ≠ "" ∧ part ≠ "."

/-- What a split leaves holds no separator and only characters of the whole. -/
theorem of_mem_splitOn {s part : List Char} (h : part ∈ s.splitOn '/') :
    '/' ∉ part ∧ ∀ c ∈ part, c ∈ s := by
  induction s generalizing part with
  | nil =>
    rw [List.splitOn_nil, List.mem_singleton] at h
    subst h
    exact ⟨List.not_mem_nil, fun c hc => hc⟩
  | cons c rest ih =>
    rw [List.splitOn_cons_eq_if_modifyHead] at h
    split at h
    · rcases List.mem_cons.1 h with rfl | h
      · exact ⟨List.not_mem_nil, fun d hd => absurd hd List.not_mem_nil⟩
      · exact ⟨(ih h).1, fun d hd => List.mem_cons_of_mem c ((ih h).2 d hd)⟩
    · next hc =>
      -- The first character joins the first part; the other parts are those of the rest.
      cases hparts : rest.splitOn '/' with
      | nil => exact absurd hparts (List.splitOn_ne_nil _ _)
      | cons first more =>
        rw [hparts] at h ih
        rcases List.mem_cons.1 h with rfl | h
        · obtain ⟨hslash, hmem⟩ := ih List.mem_cons_self
          refine ⟨?_, ?_⟩
          · rw [List.mem_cons, not_or]
            exact ⟨fun h => hc (by rw [← h]; rfl), hslash⟩
          · intro d hd
            rcases List.mem_cons.1 hd with rfl | hd
            · exact List.mem_cons_self
            · exact List.mem_cons_of_mem c (hmem d hd)
        · obtain ⟨hslash, hmem⟩ := ih (List.mem_cons_of_mem first h)
          exact ⟨hslash, fun d hd => List.mem_cons_of_mem c (hmem d hd)⟩

theorem isPart_of_mem_components {path part : String} (h : part ∈ components path) :
    IsPart part ∧ ∀ c ∈ part.toList, c ∈ path.toList := by
  rw [components, List.mem_filter, List.mem_map] at h
  obtain ⟨⟨chars, hchars, rfl⟩, hproper⟩ := h
  obtain ⟨hslash, hmem⟩ := of_mem_splitOn hchars
  rw [Bool.and_eq_true, bne_iff_ne, bne_iff_ne] at hproper
  rw [IsPart, String.toList_ofList]
  exact ⟨⟨hslash, hproper⟩, hmem⟩

/-- Components are kept when they are put between slashes. -/
theorem components_intercalate {parts : List String} (h : ∀ part ∈ parts, IsPart part) :
    components ("/".intercalate parts) = parts := by
  -- No components make the empty text, which is split into one empty part and dropped.
  cases parts with
  | nil => rw [String.intercalate_nil]; rfl
  | cons part rest =>
    -- No component holds a slash, so the split undoes the join, and none is dropped.
    have hslash : ∀ l ∈ (part :: rest).map String.toList, '/' ∉ l := by
      intro l hl
      obtain ⟨part', hpart, rfl⟩ := List.mem_map.1 hl
      exact (h part' hpart).1
    have hkept : (part :: rest).filter (fun c => c != "" && c != ".") = part :: rest := by
      rw [List.filter_eq_self]
      intro part' hpart
      rw [Bool.and_eq_true, bne_iff_ne, bne_iff_ne]
      exact (h part' hpart).2
    rw [components, String.toList_intercalate,
      show "/".toList = ['/'] from rfl, List.splitOn_intercalate '/' hslash (by simp), List.map_map]
    simp only [Function.comp_def, String.ofList_toList, List.map_id']
    exact hkept

/-- A slash in front of a path adds no component. -/
theorem components_slash (path : String) : components ("/" ++ path) = components path := by
  rw [components, components, String.toList_append, show "/".toList = ['/'] from rfl,
    List.singleton_append, List.splitOn_cons_eq_if_modifyHead]
  rfl

/-- The leading slashes of a path are none, one or two. -/
theorem rootOf_cases (path : String) :
    rootOf path = "" ∨ rootOf path = "/" ∨ rootOf path = "//" := by
  rw [rootOf]
  split
  · exact .inr (.inl rfl)
  · exact .inr (.inr rfl)
  · exact .inr (.inl rfl)
  · exact .inl rfl

section Build

variable {root : String} {parts : List String}

theorem build_of_ne_nil (h : parts ≠ []) : build root parts = root ++ "/".intercalate parts := by
  rw [build, if_neg fun hc => h hc.2]

/-- The components of a path are those that it was built of. -/
theorem components_build (hroot : root = "" ∨ root = "/" ∨ root = "//")
    (hparts : ∀ part ∈ parts, IsPart part) (h : parts ≠ []) :
    components (build root parts) = parts := by
  rw [build_of_ne_nil h]
  rcases hroot with rfl | rfl | rfl
  · rw [String.empty_append, components_intercalate hparts]
  · rw [components_slash, components_intercalate hparts]
  · rw [show "//" = "/" ++ "/" from rfl, String.append_assoc, components_slash, components_slash,
      components_intercalate hparts]

/-- The leading slashes of a path are those that it was built with. -/
theorem rootOf_build (hroot : root = "" ∨ root = "/" ∨ root = "//")
    (hparts : ∀ part ∈ parts, IsPart part) (h : parts ≠ []) :
    rootOf (build root parts) = root := by
  -- The first component is not empty and does not start with a slash.
  obtain ⟨c, more, htext, hc⟩ :
      ∃ c more, ("/".intercalate parts).toList = c :: more ∧ c ≠ '/' := by
    cases parts with
    | nil => exact absurd rfl h
    | cons part rest =>
      obtain ⟨hslash, hempty, -⟩ := hparts part List.mem_cons_self
      cases hpart : part.toList with
      | nil => exact absurd (String.toList_eq_nil_iff.1 hpart) hempty
      | cons c more =>
        rw [hpart, List.mem_cons, not_or] at hslash
        rw [String.toList_intercalate, List.map_cons, hpart, List.intercalate_cons_cons_left]
        exact ⟨c, _, rfl, Ne.symm hslash.1⟩
  rw [build_of_ne_nil h, rootOf, String.toList_append, htext]
  rcases hroot with rfl | rfl | rfl <;> simp [hc]

end Build

section Join

variable {name : String}

theorem rootOf_of_isPart (h : IsPart name) : rootOf name = "" := by
  obtain ⟨hslash, -, -⟩ := h
  rw [rootOf]
  split
  · next hname => simp [hname] at hslash
  · next hname => simp [hname] at hslash
  · next hname => simp [hname] at hslash
  · rfl

theorem components_of_isPart (h : IsPart name) : components name = [name] := by
  have hsingle : components ("/".intercalate [name]) = [name] :=
    components_intercalate (by simpa using h)
  rwa [String.intercalate_singleton] at hsingle

theorem join_of_isPart (base : String) (h : IsPart name) :
    join base name = build (rootOf base) (components base ++ [name]) := by
  rw [join, if_pos (rootOf_of_isPart h), components_of_isPart h]

theorem isPart_of_mem_append {base part : String} (h : IsPart name)
    (hpart : part ∈ components base ++ [name]) : IsPart part := by
  rcases List.mem_append.1 hpart with hpart | hpart
  · exact (isPart_of_mem_components hpart).1
  · rw [List.mem_singleton.1 hpart]
    exact h

theorem mem_intercalate {c : Char} {parts : List (List Char)}
    (h : c ∈ "/".toList.intercalate parts) : c = '/' ∨ ∃ part ∈ parts, c ∈ part := by
  induction parts with
  | nil => simp at h
  | cons part rest ih =>
    cases rest with
    | nil => exact .inr ⟨part, List.mem_cons_self, by simpa using h⟩
    | cons next more =>
      rw [List.intercalate_cons_cons, List.mem_append, List.mem_append] at h
      rcases h with (h | h) | h
      · exact .inr ⟨part, List.mem_cons_self, h⟩
      · exact .inl (by simpa using h)
      · rcases ih h with rfl | ⟨part', hpart, hc⟩
        · exact .inl rfl
        · exact .inr ⟨part', List.mem_cons_of_mem part hpart, hc⟩

/-- A name joined to a path becomes its last component. -/
theorem components_join (base : String) (h : IsPart name) :
    components (join base name) = components base ++ [name] := by
  rw [join_of_isPart base h]
  exact components_build (rootOf_cases base) (fun _ => isPart_of_mem_append h) (by simp)

/-- A name joined to a path leaves its leading slashes alone. -/
theorem rootOf_join (base : String) (h : IsPart name) :
    rootOf (join base name) = rootOf base := by
  rw [join_of_isPart base h]
  exact rootOf_build (rootOf_cases base) (fun _ => isPart_of_mem_append h) (by simp)

/-- The characters of a name joined to a path come from the two, or are slashes. -/
theorem mem_toList_join {base : String} {c : Char} (h : IsPart name)
    (hc : c ∈ (join base name).toList) : c = '/' ∨ c ∈ base.toList ∨ c ∈ name.toList := by
  rw [join_of_isPart base h, build_of_ne_nil (by simp), String.toList_append, List.mem_append,
    String.toList_intercalate] at hc
  rcases hc with hc | hc
  · refine .inl ?_
    rcases rootOf_cases base with hroot | hroot | hroot <;> rw [hroot] at hc
    · cases hc
    · simpa using hc
    · simpa using hc
  · rcases mem_intercalate hc with rfl | ⟨part, hpart, hc⟩
    · exact .inl rfl
    · obtain ⟨word, hword, rfl⟩ := List.mem_map.1 hpart
      rcases List.mem_append.1 hword with hword | hword
      · exact .inr (.inl ((isPart_of_mem_components hword).2 c hc))
      · rw [List.mem_singleton.1 hword] at hc
        exact .inr (.inr hc)

/-- A name joined to a path adds its own length and what is the same for all names. -/
theorem utf8ByteSize_join (base : String) :
    ∃ n, ∀ name, IsPart name → (join base name).utf8ByteSize = n + name.utf8ByteSize := by
  cases hparts : components base with
  | nil =>
    refine ⟨(rootOf base).utf8ByteSize, fun name h => ?_⟩
    rw [join_of_isPart base h, hparts, build_of_ne_nil (by simp), List.nil_append,
      String.intercalate_singleton, String.utf8ByteSize_append]
  | cons part rest =>
    refine ⟨(rootOf base).utf8ByteSize +
      (("/".intercalate (part :: rest)).utf8ByteSize + "/".utf8ByteSize), fun name h => ?_⟩
    rw [join_of_isPart base h, hparts, build_of_ne_nil (by simp),
      String.intercalate_append_of_ne_nil (by simp) (by simp), String.intercalate_singleton]
    simp only [String.utf8ByteSize_append]
    omega

end Join

end Parley.Path
