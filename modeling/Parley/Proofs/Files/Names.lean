import Parley.Proofs.Files.Directory

/-!
# Names in a Tree

No file has a null character in its name, and a path with one is refused before it is followed. We
show that trees are made without such names, and that without them whatever a directory lists can be
looked at:

* `HasPlainNames.make`: making a file or a directory brings no null character in;
* `isPart_of_mem_names`: what a directory lists are components without null characters;
* `find_ne_nullCharacter`: no other path is refused for a null character.
-/

namespace Parley

namespace FileTree

/-- No name in the tree has a null character. -/
def HasPlainNames (t : FileTree) : Prop :=
  ∀ key ∈ t.nodes.keys, '\x00' ∉ key.toList

/-- Components without null characters. -/
def ArePlain (parts : List String) : Prop :=
  ∀ part ∈ parts, '\x00' ∉ part.toList

variable {t : FileTree} {path directory name : String} {here parts : List String}

/-! ## Making files -/

theorem ArePlain.concat (h : ArePlain here) (hname : '\x00' ∉ name.toList) :
    ArePlain (here ++ [name]) := by
  intro part hpart
  rcases List.mem_append.1 hpart with hpart | hpart
  · exact h part hpart
  · rwa [List.mem_singleton.1 hpart]

theorem ArePlain.above (h : ArePlain here) : ArePlain (Path.above here) := by
  rw [Path.above]
  split
  · exact h
  · split
    · exact h.concat (by decide)
    · exact fun part hpart => h part (List.dropLast_subset here hpart)

/-- What is put at plain components leaves the tree with plain names. -/
theorem HasPlainNames.insert (h : t.HasPlainNames) (hparts : ArePlain parts) (node : FileNode) :
    (t.insert parts node).HasPlainNames := by
  have hplace : '\x00' ∉ ("/".intercalate parts).toList := by
    intro hnull
    rw [String.toList_intercalate] at hnull
    rcases Path.mem_intercalate hnull with hslash | ⟨chars, hchars, hnull⟩
    · cases hslash
    · obtain ⟨part, hpart, rfl⟩ := List.mem_map.1 hchars
      exact hparts part hpart hnull
  intro key hkey
  rw [FileTree.insert, OrderedMap.keys_insert] at hkey
  split at hkey
  · exact h key hkey
  · rcases List.mem_append.1 hkey with hkey | hkey
    · exact h key hkey
    · rwa [List.mem_singleton.1 hkey]

/-- A way along plain components makes plain names only, and leads to plain components. -/
theorem HasPlainNames.makeWay (h : t.HasPlainNames) (hhere : ArePlain here)
    (hparts : ArePlain parts) (made : Bool) :
    (t.makeWay here made parts).2.HasPlainNames ∧
      ∀ there, (t.makeWay here made parts).1 = .ok there → ArePlain there := by
  induction parts generalizing t here made with
  | nil =>
    refine ⟨h, ?_⟩
    rintro _ ⟨⟩
    exact hhere
  | cons part rest ih =>
    obtain ⟨hpart, hrest⟩ := List.forall_mem_cons.1 hparts
    have hnext : ArePlain (here ++ [part]) := hhere.concat hpart
    rw [FileTree.makeWay]
    split
    · -- a double dot goes back and makes nothing
      exact ih h hhere.above hrest made
    · split
      · refine ⟨h, ?_⟩
        rintro _ ⟨⟩
      · dsimp only
        split
        · exact ih h hnext hrest made
        · refine ⟨h, ?_⟩
          rintro _ ⟨⟩
        · -- what is not there is made, and the way goes on in the tree that has it
          exact ih (h.insert hnext .directory) hnext hrest true

theorem HasPlainNames.makeIn (h : t.HasPlainNames) (hhere : ArePlain here) (name : String)
    (node : FileNode) : (t.makeIn here name node).2.HasPlainNames := by
  unfold FileTree.makeIn
  dsimp only
  split
  · exact h
  · exact h
  · split
    · exact h
    · next hnull =>
      split
      · exact h
      · refine h.insert ?_ _
        split
        · exact hhere.above
        · exact hhere.concat hnull

/-- A tree has plain names after a file or a directory is made at any path, or could not be made. -/
theorem HasPlainNames.make (h : t.HasPlainNames) (path : String) (node : FileNode) :
    (t.make path node).2.HasPlainNames := by
  rw [FileTree.make]
  split
  · exact h
  · next name way hparts =>
    split
    · exact h
    · next hplain =>
      have hway : ArePlain way.reverse := by
        intro part hpart hnull
        exact hplain (List.any_eq_true.2 ⟨part, List.mem_reverse.1 hpart, decide_eq_true hnull⟩)
      obtain ⟨hmade, hthere⟩ := h.makeWay (List.forall_mem_nil _) hway false
      split
      · next hfailed => rwa [hfailed] at hmade
      · next there t' hmakes =>
        rw [hmakes] at hmade hthere
        exact hmade.makeIn (hthere there rfl) name node

/-! ## Looking at files -/

/-- A way is never refused for a null character. -/
theorem follow_ne_nullCharacter (t : FileTree) (here parts : List String) :
    t.follow here parts ≠ .error .nullCharacter := by
  induction parts generalizing here with
  | nil => rintro ⟨⟩
  | cons part rest ih =>
    rw [follow]
    split
    · rintro ⟨⟩
    · rintro ⟨⟩
    · split
      · exact ih _
      · split
        · rintro ⟨⟩
        · exact ih _

/-- Nothing but a path with a null character is refused for one. -/
theorem find_ne_nullCharacter (h : '\x00' ∉ path.toList) : t.find path ≠ .error .nullCharacter := by
  have hlocate : t.locate path ≠ .error .nullCharacter := by
    rw [locate, if_neg h]
    split
    · rintro ⟨⟩
    · exact t.follow_ne_nullCharacter [] _
  rw [find]
  cases hplace : t.locate path with
  | error e =>
    rw [hplace] at hlocate
    exact fun he => hlocate (congrArg Except.error (Except.error.inj he))
  | ok parts =>
    dsimp only
    split <;> rintro ⟨⟩

/-- A directory that can be seen is there and has a place. -/
theorem find_of_isDirectory (h : t.isDirectory path = .ok true) :
    t.find path = .ok .directory ∧ ∃ place, t.locate path = .ok place := by
  rw [isDirectory] at h
  cases hnode : t.find path with
  | error e =>
    rw [hnode] at h
    cases e <;> cases h
  | ok node =>
    rw [hnode] at h
    cases node with
    | file bytes => cases h
    | directory =>
      refine ⟨rfl, ?_⟩
      rw [find] at hnode
      cases hplace : t.locate path with
      | error e =>
        rw [hplace] at hnode
        cases hnode
      | ok place => exact ⟨place, rfl⟩

/-- The names in a directory are components of what the tree has. -/
theorem isPart_of_mem_names (hplain : t.HasPlainNames) (h : name ∈ t.names directory) :
    Path.IsPart name ∧ '\x00' ∉ name.toList := by
  rw [names] at h
  split at h
  · cases h
  · obtain ⟨key, hkey, hname⟩ := List.mem_filterMap.1 h
    dsimp only at hname
    split at hname
    · obtain ⟨hpart, hchars⟩ := Path.isPart_of_mem_components (List.mem_of_getLast? hname)
      exact ⟨hpart, fun hnull => hplain key hkey (hchars _ hnull)⟩
    · cases hname

end FileTree

end Parley
