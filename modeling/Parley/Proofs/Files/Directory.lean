import Parley.Files.Tree
import Parley.Proofs.Files.Path

/-!
# Files of a Directory

A name joined to the path of a directory leads to a place of its own in that directory. Writing and
removing the file there changes nothing anywhere else, so the files of a directory can be looked at
one by one:

* `FileTree.Seat t path place`: the path leads to a place in a directory that is there;
* `Seat.write` and `Seat.remove`: what is done to the file at a seat changes this place only
  (`FileTree.ChangedAt`);
* `FileTree.Home t path here`: the path leads to a directory, and names joined to it lead into it;
* `Home.seat` and `Home.locate_error`: a name in a home has a seat if the file system takes the name
  and its path, and leads nowhere if not;
* `Home.changed`: a home stays one, whatever is done to files;
* `IsEmptyDirectory.home`: an empty directory is a home with nothing at any name;
* `find_of_write` and `pathExists_of_remove`: what was written is found, and what was removed is not.
-/

namespace Parley

namespace Path

/-- The name of a file: a component that is no double dot and has no null character. -/
def IsName (name : String) : Prop :=
  IsPart name ∧ name ≠ ".." ∧ '\x00' ∉ name.toList

/-- Places in one directory have different keys. -/
theorem intercalate_concat_inj {here : List String} {name name' : String}
    (h : "/".intercalate (here ++ [name]) = "/".intercalate (here ++ [name'])) : name = name' := by
  cases here with
  | nil => simpa using h
  | cons part rest =>
    rw [String.intercalate_append_of_ne_nil (by simp) (by simp),
      String.intercalate_append_of_ne_nil (by simp) (by simp)] at h
    have hchars := congrArg String.toList h
    refine String.toList_inj.1 ?_
    simpa using hchars

end Path

namespace FileTree

variable {t t' : FileTree} {path name : String} {place : List String}

/-! ## Seats -/

/-- A path leads to a place in a directory that is there. -/
structure Seat (t : FileTree) (path : String) (place : List String) : Prop where
  located : t.locate path = .ok place
  inside : isStart place = false
  parent : t.nodeAt? place.dropLast = some .directory

/-- What is at a seat is found. -/
theorem Seat.find (h : t.Seat path place) :
    t.find path = match t.nodeAt? place with
      | some node => .ok node
      | none => .error .missing := by
  cases hnode : t.nodeAt? place with
  | none => simp only [FileTree.find, h.located, hnode]
  | some node => simp only [FileTree.find, h.located, hnode]

/-- A tree differs from another one at most at a place, where there is now `node`. -/
structure ChangedAt (t t' : FileTree) (place : List String) (node : Option FileNode) : Prop where
  root : t'.root = t.root
  working : t'.working = t.working
  here : t'.nodeAt? place = node
  others : ∀ parts, "/".intercalate parts ≠ "/".intercalate place →
    t'.nodeAt? parts = t.nodeAt? parts

/-- A place where there is no directory is no start, so that it has an entry of its own. -/
theorem isStart_eq_false (h : t.nodeAt? place ≠ some .directory) : isStart place = false := by
  rw [← Bool.not_eq_true]
  intro hstart
  rw [nodeAt?, if_pos hstart] at h
  exact h rfl

theorem changedAt_insert (t : FileTree) (node : FileNode) (h : isStart place = false) :
    t.ChangedAt (t.insert place node) place (some node) := by
  -- Only the entry with the key of the place is replaced.
  refine ⟨rfl, rfl, nodeAt?_insert t _ h, fun parts hparts => ?_⟩
  rw [nodeAt?, nodeAt?, insert, OrderedMap.get?_insert, if_neg hparts]

theorem changedAt_erase (t : FileTree) (h : isStart place = false) :
    t.ChangedAt { t with nodes := t.nodes.erase ("/".intercalate place) } place none := by
  refine ⟨rfl, rfl, ?_, fun parts hparts => ?_⟩
  · rw [nodeAt?, h]
    simp [OrderedMap.get?_erase]
  · rw [nodeAt?, nodeAt?, OrderedMap.get?_erase, if_neg hparts]

theorem Seat.write (h : t.Seat path place) (hfile : t.nodeAt? place ≠ some .directory)
    (bytes : List UInt8) :
    ∃ t', t.write path bytes = .ok t' ∧ t.ChangedAt t' place (some (.file bytes)) := by
  refine ⟨t.insert place (.file bytes), ?_, t.changedAt_insert _ h.inside⟩
  simp only [FileTree.write, h.located, h.parent]
  cases hnode : t.nodeAt? place with
  | none => rfl
  | some node =>
    cases node with
    | directory => exact absurd hnode hfile
    | file old => rfl

/-- A file that was removed is gone, if it was there; nothing else has changed. -/
theorem changedAt_of_remove (h : t.remove path = .ok t') (hlocated : t.locate path = .ok place) :
    t.nodeAt? place ≠ some .directory ∧ t.ChangedAt t' place none := by
  simp only [FileTree.remove, hlocated] at h
  cases hnode : t.nodeAt? place with
  | none =>
    rw [hnode] at h
    obtain rfl := Except.ok.inj h
    exact ⟨nofun, rfl, rfl, hnode, fun parts _ => rfl⟩
  | some node =>
    rw [hnode] at h
    cases node with
    | directory => cases h
    | file bytes =>
      have hinside : isStart place = false := isStart_eq_false (by rw [hnode]; exact nofun)
      obtain rfl := Except.ok.inj h
      exact ⟨nofun, t.changedAt_erase hinside⟩

theorem Seat.remove (h : t.Seat path place) (hfile : t.nodeAt? place ≠ some .directory) :
    ∃ t', t.remove path = .ok t' ∧ t.ChangedAt t' place none := by
  obtain ⟨t', hremove⟩ : ∃ t', t.remove path = .ok t' := by
    simp only [FileTree.remove, h.located]
    cases hnode : t.nodeAt? place with
    | none => exact ⟨t, rfl⟩
    | some node =>
      cases node with
      | directory => exact absurd hnode hfile
      | file bytes => exact ⟨_, rfl⟩
  exact ⟨t', hremove, (changedAt_of_remove hremove h.located).2⟩

/-! ## Homes -/

/-- A name joined to a path is no longer than the file system takes. -/
def Takes (path name : String) : Prop :=
  name.utf8ByteSize ≤ nameLimit ∧ (Path.join path name).utf8ByteSize ≤ pathLimit

/-- A path leads to a directory, and names joined to it lead into this directory. -/
structure Home (t : FileTree) (path : String) (here : List String) : Prop where
  located : t.locate path = .ok here
  directory : t.nodeAt? here = some .directory
  below : ∀ name, Path.IsName name → (Path.join path name).utf8ByteSize ≤ pathLimit →
    t.fromRoot (Path.join path name) = t.fromRoot path ++ [name]

/-- A change at a place that is no directory leaves all directories alone. -/
theorem ChangedAt.directory {node : Option FileNode} (h : t.ChangedAt t' place node)
    (hinside : isStart place = false) (hfile : t.nodeAt? place ≠ some .directory)
    {parts : List String} (hparts : t.nodeAt? parts = some .directory) :
    t'.nodeAt? parts = some .directory := by
  -- A directory at the key of the place can only be a start, which is no entry.
  by_cases hkey : "/".intercalate parts = "/".intercalate place
  · by_cases hstart : isStart parts = true
    · rw [nodeAt?, if_pos hstart]
    · refine absurd ?_ hfile
      rw [← hparts, nodeAt?, nodeAt?, hinside, if_neg hstart, hkey]
      rfl
  · rw [h.others parts hkey, hparts]

/-- A way through directories can still be followed as long as they are there. -/
theorem follow_of_directories
    (hdirectories : ∀ parts, t.nodeAt? parts = some .directory → t'.nodeAt? parts = some .directory)
    {here parts there : List String} (h : t.follow here parts = .ok there) :
    t'.follow here parts = .ok there := by
  induction parts generalizing here with
  | nil => exact h
  | cons part rest ih =>
    rw [follow] at h ⊢
    cases hnode : t.nodeAt? here with
    | none =>
      rw [hnode] at h
      cases h
    | some node =>
      rw [hnode] at h
      cases node with
      | file bytes => cases h
      | directory =>
        -- The way goes on in the same direction, as the part decides it alone.
        rw [hdirectories here hnode]
        dsimp only at h ⊢
        split at h
        · next hup =>
          rw [if_pos hup]
          exact ih h
        · next hdown =>
          rw [if_neg hdown]
          split at h
          · cases h
          · next hshort =>
            rw [if_neg hshort]
            exact ih h

theorem follow_append (t : FileTree) (here parts rest : List String) :
    t.follow here (parts ++ rest) = (t.follow here parts).bind fun there => t.follow there rest := by
  induction parts generalizing here with
  | nil => rfl
  | cons part more ih =>
    rw [List.cons_append, follow, follow]
    split
    · rfl
    · rfl
    · split
      · exact ih _
      · split
        · rfl
        · exact ih _

variable {here : List String}

/-- A path that leads somewhere is not refused for itself, and its components can be followed. -/
theorem follow_of_locate (h : t.locate path = .ok here) :
    '\x00' ∉ path.toList ∧ t.follow [] (t.fromRoot path) = .ok here := by
  rw [locate] at h
  split at h
  · cases h
  · next hnull =>
    split at h
    · cases h
    · exact ⟨hnull, h⟩

/-- A component without a null character leaves the path that it is joined to without one. -/
theorem notMem_join_of_isPart (h : t.locate path = .ok here) (hpart : Path.IsPart name)
    (hnull : '\x00' ∉ name.toList) : '\x00' ∉ (Path.join path name).toList := by
  intro hc
  rcases Path.mem_toList_join hpart hc with hc | hc | hc
  · cases hc
  · exact (follow_of_locate h).1 hc
  · exact hnull hc

theorem notMem_join (h : t.locate path = .ok here) (hname : Path.IsName name) :
    '\x00' ∉ (Path.join path name).toList :=
  notMem_join_of_isPart h hname.1 hname.2.2

/-- A name in a directory is a place of its own. -/
theorem isStart_concat (here : List String) (hname : Path.IsName name) :
    isStart (here ++ [name]) = false := by
  rw [isStart, Bool.or_eq_false_iff]
  constructor
  · rw [beq_eq_false_iff_ne]
    -- The place where other paths start ends in a slash, which no name is.
    intro helse
    have hlast := congrArg List.getLast? helse
    rw [List.getLast?_concat] at hlast
    obtain rfl : name = "/" := Option.some.inj hlast
    exact hname.1.1 (by decide)
  · rw [List.all_append, Bool.and_eq_false_iff]
    refine .inr ?_
    simpa using hname.2.1

/-- A name in a home has a seat if the file system takes it. -/
theorem Home.seat (h : t.Home path here) (hname : Path.IsName name) (htakes : Takes path name) :
    t.Seat (Path.join path name) (here ++ [name]) := by
  obtain ⟨hshort, hpath⟩ := htakes
  -- The path leads to the home, and one more step to the name.
  have hstep : t.follow here [name] = .ok (here ++ [name]) := by
    rw [FileTree.follow, h.directory]
    dsimp only
    rw [if_neg hname.2.1, if_neg (by omega)]
    rfl
  refine ⟨?_, isStart_concat here hname, ?_⟩
  · rw [locate, if_neg (notMem_join h.located hname), if_neg (by omega), h.below name hname hpath,
      follow_append,
      (follow_of_locate h.located).2]
    exact hstep
  · rw [List.dropLast_concat]
    exact h.directory

/-- A name in a home leads nowhere if the file system does not take it. -/
theorem Home.locate_error (h : t.Home path here) (hname : Path.IsName name)
    (htakes : ¬ Takes path name) : t.locate (Path.join path name) = .error .nameTooLong := by
  rw [locate, if_neg (notMem_join h.located hname)]
  split
  · rfl
  · next hpath =>
    -- The path is short enough, so it is the name that is too long.
    have hlong : nameLimit < name.utf8ByteSize := by
      have hshort : ¬ name.utf8ByteSize ≤ nameLimit := fun hle => htakes ⟨hle, by omega⟩
      omega
    have hstep : t.follow here [name] = .error .nameTooLong := by
      rw [FileTree.follow, h.directory]
      dsimp only
      rw [if_neg hname.2.1, if_pos hlong]
    rw [h.below name hname (by omega), follow_append,
      (follow_of_locate h.located).2]
    exact hstep

/-- Paths are read the same way after a change, since root and working directory stay. -/
theorem ChangedAt.fromRoot {node : Option FileNode} (h : t.ChangedAt t' place node) (p : String) :
    t'.fromRoot p = t.fromRoot p := by
  rw [FileTree.fromRoot, FileTree.fromRoot, h.root, h.working]

/-- A path that leads somewhere leads there after a change at a place that is no directory. -/
theorem ChangedAt.locate {p : String} {node : Option FileNode} (h : t.ChangedAt t' place node)
    (hinside : isStart place = false) (hfile : t.nodeAt? place ≠ some .directory)
    (hlocated : t.locate p = .ok here) : t'.locate p = .ok here := by
  rw [FileTree.locate] at hlocated ⊢
  split at hlocated
  · cases hlocated
  · next hnull =>
    rw [if_neg hnull]
    split at hlocated
    · cases hlocated
    · next hlong =>
      rw [if_neg hlong, h.fromRoot]
      exact follow_of_directories (fun _ => h.directory hinside hfile) hlocated

/-- A home stays one when something that is no directory is changed. -/
theorem Home.changed_of {node : Option FileNode} (h : t.Home path here)
    (hinside : isStart place = false) (hfile : t.nodeAt? place ≠ some .directory)
    (hchange : t.ChangedAt t' place node) : t'.Home path here := by
  refine ⟨hchange.locate hinside hfile h.located, hchange.directory hinside hfile h.directory, ?_⟩
  intro name hname hpath
  rw [hchange.fromRoot, hchange.fromRoot, h.below name hname hpath]

/-- A home stays one when the file at a seat is changed. -/
theorem Home.changed {path' : String} {node : Option FileNode} (h : t.Home path here)
    (hseat : t.Seat path' place) (hfile : t.nodeAt? place ≠ some .directory)
    (hchange : t.ChangedAt t' place node) : t'.Home path here :=
  h.changed_of hseat.inside hfile hchange

/-! ## Empty directories -/

/-- A path leads to a directory in which nothing is found under any name. -/
structure IsEmptyDirectory (t : FileTree) (path : String) : Prop where
  directory : t.find path = .ok .directory
  empty : ∀ name, Path.IsName name → ∀ node, t.find (Path.join path name) ≠ .ok node

/-- A name joined to a path leads one step further, unless it leads to the root. -/
theorem fromRoot_join (t : FileTree) (path : String) (h : Path.IsPart name) :
    t.fromRoot (Path.join path name) = t.fromRoot path ++ [name] ∨
      t.fromRoot (Path.join path name) = [] := by
  have htake : ∀ n, (Path.components path).take n = Path.components t.root →
      n = (Path.components t.root).length → n ≤ (Path.components path).length := by
    intro n hroot hn
    have hlength := congrArg List.length hroot
    rw [List.length_take] at hlength
    omega
  simp only [fromRoot, Path.components_join path h, Path.rootOf_join path h]
  split
  · next hjoined =>
    by_cases hlong : (Path.components t.root).length ≤ (Path.components path).length
    · -- The path itself is at or below the root.
      rw [List.take_append_of_le_length hlong] at hjoined
      rw [if_pos hjoined, List.drop_append_of_le_length hlong]
      exact .inl rfl
    · -- The path is above the root, and the name completes it.
      refine .inr (List.drop_eq_nil_of_le ?_)
      rw [List.length_append, List.length_singleton]
      omega
  · next hjoined =>
    have hoff : ¬ (Path.rootOf path = Path.rootOf t.root ∧
        (Path.components path).take (Path.components t.root).length =
          Path.components t.root) := by
      rintro ⟨hslashes, hroot⟩
      refine hjoined ⟨hslashes, ?_⟩
      rw [List.take_append_of_le_length (htake _ hroot rfl), hroot]
    rw [if_neg hoff]
    refine .inl ?_
    split <;> rw [List.append_assoc]

/-- An empty directory is a home with nothing at any name that the file system takes. -/
theorem IsEmptyDirectory.home (h : t.IsEmptyDirectory path) :
    ∃ here, t.Home path here ∧
      ∀ name, Path.IsName name → Takes path name → t.nodeAt? (here ++ [name]) = none := by
  obtain ⟨here, hlocate, hnode⟩ : ∃ here, t.locate path = .ok here ∧
      t.nodeAt? here = some .directory := by
    have hfind := h.directory
    rw [FileTree.find] at hfind
    split at hfind
    · cases hfind
    · next here hlocate =>
      refine ⟨here, hlocate, ?_⟩
      split at hfind
      · next hnode => rw [hnode, Except.ok.inj hfind]
      · cases hfind
  have hhome : t.Home path here := by
    refine ⟨hlocate, hnode, fun name hname hpath => ?_⟩
    rcases t.fromRoot_join path hname.1 with hroot | hroot
    · exact hroot
    · -- Otherwise the name leads to the root, which is there.
      refine absurd ?_ (h.empty name hname .directory)
      rw [FileTree.find, locate, if_neg (notMem_join hlocate hname), if_neg (by omega), hroot]
      rfl
  refine ⟨here, hhome, fun name hname htakes => ?_⟩
  have hfound := (hhome.seat hname htakes).find
  cases hplace : t.nodeAt? (here ++ [name]) with
  | none => rfl
  | some node =>
    rw [hplace] at hfound
    exact absurd hfound (h.empty name hname node)

/-- An empty tree is an empty directory. -/
theorem isEmptyDirectory_root : ({} : FileTree).IsEmptyDirectory "." := by
  refine ⟨rfl, fun name hname node hfind => ?_⟩
  have hparts : ({} : FileTree).fromRoot (Path.join "." name) = [name] := by
    rw [fromRoot, Path.components_join "." hname.1, Path.rootOf_join "." hname.1]
    rfl
  have hstart : isStart [name] = false := isStart_concat [] hname
  -- A path that leads somewhere leads to the name itself, and nothing is there.
  have hplace : ∀ place, ({} : FileTree).locate (Path.join "." name) = .ok place → place = [name] := by
    intro place hlocate
    have hfollow := (follow_of_locate hlocate).2
    rw [hparts, FileTree.follow, show ({} : FileTree).nodeAt? [] = some .directory from rfl] at hfollow
    dsimp only at hfollow
    rw [if_neg hname.2.1] at hfollow
    split at hfollow
    · cases hfollow
    · exact (Except.ok.inj hfollow).symm
  have hnone : ({} : FileTree).nodeAt? [name] = none := by
    rw [nodeAt?, hstart]
    rfl
  rw [FileTree.find] at hfind
  split at hfind
  · cases hfind
  · next place hlocate =>
    rw [hplace place hlocate, hnone] at hfind
    cases hfind

/-! ## What was written or removed -/

/-- A file that is written has its place, and nothing else has changed. -/
theorem changedAt_of_write {bytes : List UInt8} (h : t.write path bytes = .ok t') :
    ∃ place, t.locate path = .ok place ∧ t.nodeAt? place ≠ some .directory ∧
      t.ChangedAt t' place (some (.file bytes)) := by
  rw [write] at h
  split at h
  · cases h
  · next place hlocated =>
    have hfile : t.nodeAt? place ≠ some .directory := by
      intro hdirectory
      rw [hdirectory] at h
      cases h
    have hchange := t.changedAt_insert (.file bytes) (isStart_eq_false hfile)
    refine ⟨place, hlocated, hfile, ?_⟩
    -- Wherever something is written, it is put at the place and nowhere else.
    split at h
    · cases h
    · exact Except.ok.inj h ▸ hchange
    · exact Except.ok.inj h ▸ hchange
    · cases h
    · cases h

/-- What was written is found. -/
theorem find_of_write {bytes : List UInt8} (h : t.write path bytes = .ok t') :
    t'.find path = .ok (.file bytes) := by
  obtain ⟨place, hlocated, hfile, hchange⟩ := changedAt_of_write h
  have hstill := hchange.locate (isStart_eq_false hfile) hfile hlocated
  simp only [find, hstill, hchange.here]

/-- What was removed is not there, nor was it there before if nothing had to be removed. -/
theorem pathExists_of_remove (h : t.remove path = .ok t') : t'.pathExists path = .ok false := by
  cases hlocated : t.locate path with
  | error e =>
    rw [remove, hlocated] at h
    -- The one error that a removal does not mind is that something on the way is missing.
    cases e with
    | missing =>
      obtain rfl := Except.ok.inj h
      rw [pathExists, find, hlocated]
    | _ => cases h
  | ok place =>
    obtain ⟨hfile, hchange⟩ := changedAt_of_remove h hlocated
    have hstill := hchange.locate (isStart_eq_false hfile) hfile hlocated
    simp only [pathExists, find, hstill, hchange.here]

/-- A name that is written to leads one step further than its directory, to a seat. -/
theorem seat_of_write {bytes : List UInt8} (hname : Path.IsName name)
    (h : t.write (Path.join path name) bytes = .ok t') :
    ∃ here, t.follow [] (t.fromRoot path) = .ok here ∧
      t.Seat (Path.join path name) (here ++ [name]) ∧
      t.nodeAt? (here ++ [name]) ≠ some .directory ∧
      t.ChangedAt t' (here ++ [name]) (some (.file bytes)) := by
  obtain ⟨place, hlocated, hfile, hchange⟩ := changedAt_of_write h
  have hfollow := (follow_of_locate hlocated).2
  rcases t.fromRoot_join path hname.1 with hparts | hparts
  · rw [hparts, follow_append] at hfollow
    cases hhere : t.follow [] (t.fromRoot path) with
    | error e =>
      rw [hhere] at hfollow
      cases hfollow
    | ok here =>
      rw [hhere] at hfollow
      -- The last step is only made from a directory.
      obtain ⟨hdirectory, rfl⟩ : t.nodeAt? here = some .directory ∧ here ++ [name] = place := by
        change t.follow here [name] = .ok place at hfollow
        rw [follow] at hfollow
        split at hfollow
        · cases hfollow
        · cases hfollow
        · next hdirectory =>
          rw [if_neg hname.2.1] at hfollow
          split at hfollow
          · cases hfollow
          · exact ⟨hdirectory, Except.ok.inj hfollow⟩
      have hseat : t.Seat (Path.join path name) (here ++ [name]) :=
        ⟨hlocated, isStart_concat here hname, by rw [List.dropLast_concat]; exact hdirectory⟩
      exact ⟨here, rfl, hseat, hfile, hchange⟩
  · -- Nothing is written over the root.
    rw [hparts] at hfollow
    obtain rfl : [] = place := Except.ok.inj hfollow
    exact absurd rfl hfile

/-- What was written is found when another file of the directory has been written after it. -/
theorem find_of_write_write {t'' : FileTree} {name' : String} {bytes bytes' : List UInt8}
    (hname : Path.IsName name) (hname' : Path.IsName name') (hne : name ≠ name')
    (h : t.write (Path.join path name) bytes = .ok t')
    (h' : t'.write (Path.join path name') bytes' = .ok t'') :
    t''.find (Path.join path name) = .ok (.file bytes) := by
  obtain ⟨here, hhere, hseat, hfile, hchange⟩ := seat_of_write hname h
  obtain ⟨here', hhere', hseat', hfile', hchange'⟩ := seat_of_write hname' h'
  -- Both files are in one directory, since the first write moved none.
  obtain rfl : here = here' := by
    have hstill := follow_of_directories (fun _ => hchange.directory hseat.inside hfile) hhere
    rw [hchange.fromRoot, hstill] at hhere'
    exact Except.ok.inj hhere'
  have hlocated : t''.locate (Path.join path name) = .ok (here ++ [name]) :=
    hchange'.locate hseat'.inside hfile' (hchange.locate hseat.inside hfile hseat.located)
  have hkey : "/".intercalate (here ++ [name]) ≠ "/".intercalate (here ++ [name']) :=
    fun hkey => hne (Path.intercalate_concat_inj hkey)
  have hnode : t''.nodeAt? (here ++ [name]) = some (.file bytes) := by
    rw [hchange'.others _ hkey, hchange.here]
  simp only [find, hlocated, hnode]

end FileTree

end Parley
