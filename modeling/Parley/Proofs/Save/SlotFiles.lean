import Mathlib.Algebra.Group.Nat.Defs
import Mathlib.Logic.Function.Basic
import Parley.Proofs.Files.Directory
import Parley.Proofs.Json.Numbers
import Parley.Save.Archive

/-!
# The Files of Slots

A slot has two files, and no two slots share one: the number of a slot stands in full between the
fixed parts of a file name. The files of all slots are therefore independent of each other, as long
as the file system takes their names.

* `SlotFile.name_inj`: the slot and the part can be told from the name of a file;
* `FileTree.Keeps t directory here contents`: what the files of all slots hold;
* `Keeps.write` and `Keeps.remove`: a change of one file changes what is held in this file only;
* `FileTree.IsEmptyDirectory.keeps`: at the start no file holds anything.
-/

namespace Parley

/-- A file of a slot. -/
inductive SlotFile
  | state (slot : Nat)
  | description (slot : Nat)
  deriving DecidableEq

namespace SlotFile

/-- The number of the slot. -/
def slot : SlotFile → Nat
  | .state slot => slot
  | .description slot => slot

/-- What follows the number in the name of a file. -/
def ending : SlotFile → String
  | .state _ => ".json"
  | .description _ => "_meta.json"

/-- The name of a file. -/
def name (f : SlotFile) : String :=
  "save_" ++ Archive.slotName f.slot ++ f.ending

end SlotFile

namespace Archive

theorem slotPath_eq (a : Archive) (slot : Nat) :
    a.slotPath { number := slot } = Path.join a.directory (SlotFile.state slot).name := by
  unfold slotPath
  exact congrArg (Path.join a.directory) rfl

theorem metadataPath_eq (a : Archive) (slot : Nat) :
    a.metadataPath { number := slot } = Path.join a.directory (SlotFile.description slot).name := by
  unfold metadataPath
  exact congrArg (Path.join a.directory) rfl

theorem slotName_eq (slot : Nat) :
    (slotName slot).toList = Nat.toDigits 10 slot ∨
      (slotName slot).toList = '0' :: Nat.toDigits 10 slot := by
  rw [slotName, Text.ofInt_natCast, String.toList_ofList]
  split
  · exact .inr rfl
  · exact .inl rfl

theorem isDigit_of_mem_slotName {slot : Nat} {c : Char} (hc : c ∈ (slotName slot).toList) :
    c.isDigit = true := by
  rcases slotName_eq slot with h | h <;> rw [h] at hc
  · exact Text.isDigit_of_mem_toDigits hc
  · rcases List.mem_cons.1 hc with rfl | hc
    · rfl
    · exact Text.isDigit_of_mem_toDigits hc

/-- The name of a slot denotes its number, whether or not it has a zero in front. -/
theorem digitsValue_slotName (slot : Nat) : Text.digitsValue (slotName slot).toList = slot := by
  rcases slotName_eq slot with h | h <;> rw [h]
  · exact Text.digitsValue_toDigits slot
  · exact Text.digitsValue_toDigits slot

theorem slotName_inj {slot slot' : Nat}
    (h : (slotName slot).toList = (slotName slot').toList) : slot = slot' := by
  rw [← digitsValue_slotName slot, h, digitsValue_slotName]

/-- A slot makes a name that any directory takes, unless it is too long, also if its number is
negative. -/
theorem isName_ofSlot (number : Int) {ending : String}
    (hending : ending = ".json" ∨ ending = "_meta.json") :
    Path.IsName ("save_" ++ slotName number ++ ending) := by
  have hnumber : ∀ c ∈ (slotName number).toList, c.isDigit = true ∨ c = '-' := by
    intro c hc
    rw [slotName, String.toList_ofList] at hc
    split at hc
    · rcases List.mem_cons.1 hc with rfl | hc
      · exact .inl rfl
      · exact Text.isDigit_or_of_mem_ofInt hc
    · exact Text.isDigit_or_of_mem_ofInt hc
  have hmem : ∀ c ∈ ("save_" ++ slotName number ++ ending).toList,
      c ∈ "save_-.json_meta.json".toList ∨ c.isDigit = true := by
    intro c hc
    rw [String.toList_append, String.toList_append, List.mem_append, List.mem_append] at hc
    rcases hc with (hc | hc) | hc
    · exact .inl ((show "save_".toList ⊆ "save_-.json_meta.json".toList by decide) hc)
    · rcases hnumber c hc with hdigit | rfl
      · exact .inr hdigit
      · exact .inl (by decide)
    · refine .inl ?_
      rcases hending with h | h <;> rw [h] at hc
      · exact (show ".json".toList ⊆ "save_-.json_meta.json".toList by decide) hc
      · exact (show "_meta.json".toList ⊆ "save_-.json_meta.json".toList by decide) hc
  have hfirst : ("save_" ++ slotName number ++ ending).toList.head? = some 's' := by
    rw [String.toList_append, String.toList_append]
    rfl
  -- A name that starts with a letter is no dot, no double dot and not empty.
  have hother : ∀ other : String, other.toList.head? ≠ some 's' →
      "save_" ++ slotName number ++ ending ≠ other := by
    intro other hhead hname
    rw [hname] at hfirst
    exact hhead hfirst
  refine ⟨⟨fun hc => ?_, hother _ (by decide), hother _ (by decide)⟩, hother _ (by decide),
    fun hc => ?_⟩
  · rcases hmem _ hc with h | h <;> revert h <;> decide
  · rcases hmem _ hc with h | h <;> revert h <;> decide

end Archive

/-- A text has at least one byte for each character. -/
theorem length_le_utf8ByteSize (s : String) : s.toList.length ≤ s.utf8ByteSize := by
  have hchars : ∀ chars : List Char, chars.length ≤ (String.ofList chars).utf8ByteSize := by
    intro chars
    induction chars with
    | nil => exact Nat.zero_le _
    | cons c rest ih =>
      have hc := Char.utf8Size_pos c
      rw [String.ofList_cons, String.utf8ByteSize_append, String.utf8ByteSize_singleton,
        List.length_cons]
      omega
  have hs := hchars s.toList
  rwa [String.ofList_toList] at hs

namespace Archive

/-- The path of a slot has at least the digits of its number. -/
theorem countP_le_slotPath (a : Archive) (slot : Slot) :
    (Text.ofInt slot.number).countP Char.isDigit ≤ (a.slotPath slot).utf8ByteSize := by
  obtain ⟨n, hn⟩ := Path.utf8ByteSize_join a.directory
  have hdigits : (Text.ofInt slot.number).length ≤ (slotName slot.number).toList.length := by
    rw [slotName, String.toList_ofList]
    split
    · rw [List.length_cons]
      omega
    · exact Nat.le_refl _
  have hcount := List.countP_le_length (p := Char.isDigit) (l := Text.ofInt slot.number)
  have hname := length_le_utf8ByteSize (slotName slot.number)
  rw [slotPath, hn _ (isName_ofSlot slot.number (.inl rfl)).1, String.utf8ByteSize_append,
    String.utf8ByteSize_append]
  omega

/-- Nothing is found where the number of a slot has too many digits: no path is that long. -/
theorem find_ne_ok_of_isOverlong {a : Archive} {slot : Slot} (h : slot.isOverlong = true)
    (node : FileNode) : a.tree.find (a.slotPath slot) ≠ .ok node := by
  have hlong : FileTree.pathLimit < (a.slotPath slot).utf8ByteSize := by
    have hdigits : 4300 < (Text.ofInt slot.number).countP Char.isDigit := of_decide_eq_true h
    have hlimit : FileTree.pathLimit = 4095 := rfl
    have := countP_le_slotPath a slot
    omega
  rw [FileTree.find, FileTree.locate, if_pos hlong]
  split
  · intro h
    cases h
  · next hlocate =>
    split at hlocate <;> cases hlocate

end Archive

namespace SlotFile

theorem toList_name (f : SlotFile) :
    f.name.toList = "save_".toList ++ ((Archive.slotName f.slot).toList ++ f.ending.toList) := by
  rw [name, String.toList_append, String.toList_append, List.append_assoc]

theorem ending_cases (f : SlotFile) : f.ending = ".json" ∨ f.ending = "_meta.json" := by
  cases f
  · exact .inl rfl
  · exact .inr rfl

/-- No two files of slots have the same name. -/
theorem name_inj {f g : SlotFile} (h : f.name = g.name) : f = g := by
  have hchars := congrArg String.toList h
  rw [toList_name, toList_name, List.append_cancel_left_eq] at hchars
  -- The digits of the name end where the ending begins, so they can be read off it.
  have hdigits (f : SlotFile) :
      ((Archive.slotName f.slot).toList ++ f.ending.toList).takeWhile Char.isDigit =
        (Archive.slotName f.slot).toList := by
    have hend : f.ending.toList.takeWhile Char.isDigit = [] := by
      rcases f.ending_cases with h | h <;> rw [h] <;> decide
    rw [List.takeWhile_append_of_pos fun c hc => Archive.isDigit_of_mem_slotName hc, hend,
      List.append_nil]
  have hname : (Archive.slotName f.slot).toList = (Archive.slotName g.slot).toList := by
    rw [← hdigits f, hchars, hdigits g]
  have hslot : f.slot = g.slot := Archive.slotName_inj hname
  have hending : f.ending = g.ending := by
    rw [hname, List.append_cancel_left_eq] at hchars
    exact String.toList_inj.1 hchars
  -- Same slot and same ending: it is the same file.
  have hdiffer : ".json" ≠ "_meta.json" := by decide
  cases f <;> cases g
  · exact congrArg SlotFile.state hslot
  · exact absurd hending hdiffer
  · exact absurd hending.symm hdiffer
  · exact congrArg SlotFile.description hslot

/-- The name of a file of a slot is a name that any directory takes, unless it is too long. -/
theorem isName_name (f : SlotFile) : Path.IsName f.name :=
  Archive.isName_ofSlot f.slot f.ending_cases

/-- The description of a slot has the longer name. -/
theorem takes_state {directory : String} {slot : Nat}
    (h : FileTree.Takes directory (description slot).name) :
    FileTree.Takes directory (state slot).name := by
  obtain ⟨hname, hpath⟩ := h
  obtain ⟨n, hn⟩ := Path.utf8ByteSize_join directory
  have hsize : (state slot).name.utf8ByteSize ≤ (description slot).name.utf8ByteSize := by
    have hending : ".json".utf8ByteSize ≤ "_meta.json".utf8ByteSize := by decide
    simp only [name, String.utf8ByteSize_append]
    exact Nat.add_le_add_left hending _
  rw [hn _ (isName_name _).1] at hpath
  refine ⟨by omega, ?_⟩
  rw [hn _ (isName_name _).1]
  omega

/-- If the file system takes the files of a listed slot, it takes those of all of them. -/
theorem takes_listed {directory : String} {slot slot' : Nat}
    (hslot : slot < Archive.slotCount) (hslot' : slot' < Archive.slotCount)
    (h : FileTree.Takes directory (description slot).name) :
    FileTree.Takes directory (description slot').name := by
  -- All listed slots have two digits.
  have hsize : ∀ n < Archive.slotCount, (description n).name.utf8ByteSize = 17 := by decide
  obtain ⟨n, hn⟩ := Path.utf8ByteSize_join directory
  rw [FileTree.Takes, hn _ (isName_name _).1, hsize slot hslot] at h
  rw [FileTree.Takes, hn _ (isName_name _).1, hsize slot' hslot']
  exact h

/-- The number of a slot whose file the file system takes can be written. -/
theorem isOverlong_of_takes {directory : String} {f : SlotFile}
    (h : FileTree.Takes directory f.name) : ({ number := f.slot } : Slot).isOverlong = false := by
  obtain ⟨hname, -⟩ := h
  have hdigits : (Text.ofInt f.slot).length ≤ (Archive.slotName f.slot).utf8ByteSize := by
    refine Nat.le_trans ?_ (length_le_utf8ByteSize _)
    rw [Text.ofInt_natCast]
    rcases Archive.slotName_eq f.slot with hname | hname
    · exact Nat.le_of_eq (congrArg List.length hname.symm)
    · rw [hname, List.length_cons]
      omega
  have hcount := List.countP_le_length (p := Char.isDigit) (l := Text.ofInt f.slot)
  have hlimit : FileTree.nameLimit = 255 := rfl
  simp only [name, String.utf8ByteSize_append] at hname
  refine decide_eq_false ?_
  show ¬ 4300 < (Text.ofInt f.slot).countP Char.isDigit
  omega

/-- The description of a slot with more than 241 digits has too long a name in any directory. -/
theorem not_takes_of_le {directory : String} {slot : Nat} (h : 10 ^ 241 ≤ slot) :
    ¬ FileTree.Takes directory (description slot).name := by
  have hdigits : 241 < (Nat.toDigits 10 slot).length := by
    rw [← Nat.not_le, Nat.length_toDigits_le_iff (by decide) (by decide)]
    omega
  have hslot : 241 < (Archive.slotName slot).utf8ByteSize := by
    refine Nat.lt_of_lt_of_le ?_ (length_le_utf8ByteSize _)
    rcases Archive.slotName_eq slot with hname | hname <;> rw [hname]
    · exact hdigits
    · rw [List.length_cons]
      omega
  have hfixed : "save_".utf8ByteSize + "_meta.json".utf8ByteSize = 15 := by decide
  rintro ⟨hname, -⟩
  simp only [name, String.utf8ByteSize_append] at hname
  have hlimit : FileTree.nameLimit = 255 := rfl
  have hending : (description slot).ending = "_meta.json" := rfl
  rw [hending] at hname
  dsimp only [SlotFile.slot] at hname
  omega

end SlotFile

/-! ## What the files hold -/

namespace FileTree

variable {t : FileTree} {directory : String} {here : List String}
  {contents contents' : SlotFile → Option (List UInt8)}

/-- The files of slots in a directory hold these bytes, as far as the file system takes their
names. -/
structure Keeps (t : FileTree) (directory : String) (here : List String)
    (contents : SlotFile → Option (List UInt8)) : Prop where
  home : t.Home directory here
  holds : ∀ f : SlotFile, Takes directory f.name →
    t.nodeAt? (here ++ [f.name]) = (contents f).map .file

theorem IsEmptyDirectory.keeps (h : t.IsEmptyDirectory directory) :
    ∃ here, t.Keeps directory here fun _ => none := by
  obtain ⟨here, hhome, hempty⟩ := h.home
  exact ⟨here, hhome, fun f htakes => hempty f.name f.isName_name htakes⟩

theorem Keeps.congr (h : t.Keeps directory here contents)
    (hcontents : ∀ f : SlotFile, Takes directory f.name → contents' f = contents f) :
    t.Keeps directory here contents' :=
  ⟨h.home, fun f htakes => by rw [hcontents f htakes, h.holds f htakes]⟩

theorem Keeps.ne_directory (h : t.Keeps directory here contents) {f : SlotFile}
    (htakes : Takes directory f.name) : t.nodeAt? (here ++ [f.name]) ≠ some .directory := by
  rw [h.holds f htakes]
  cases contents f <;> simp

/-- What is found under the name of a file. -/
theorem Keeps.find (h : t.Keeps directory here contents) {f : SlotFile}
    (htakes : Takes directory f.name) :
    t.find (Path.join directory f.name) = match contents f with
      | some bytes => .ok (.file bytes)
      | none => .error .missing := by
  rw [(h.home.seat f.isName_name htakes).find, h.holds f htakes]
  cases contents f <;> rfl

/-- A change of the file at one name changes what is held there and nothing else. -/
theorem Keeps.changed {t' : FileTree} {f : SlotFile} (h : t.Keeps directory here contents)
    (bytes : Option (List UInt8)) (htakes : Takes directory f.name)
    (hchange : t.ChangedAt t' (here ++ [f.name]) (bytes.map .file)) :
    t'.Keeps directory here (Function.update contents f bytes) := by
  refine ⟨h.home.changed (h.home.seat f.isName_name htakes) (h.ne_directory htakes) hchange, ?_⟩
  intro g hg
  -- Another file has another name, hence another place.
  by_cases hgf : g = f
  · subst hgf
    rw [hchange.here, Function.update_self]
  · have hplace : "/".intercalate (here ++ [g.name]) ≠ "/".intercalate (here ++ [f.name]) :=
      fun hkey => hgf (SlotFile.name_inj (Path.intercalate_concat_inj hkey))
    rw [hchange.others _ hplace, h.holds g hg, Function.update_of_ne hgf]

/-- A file that the file system takes is written, and any other one is not. -/
theorem Keeps.write (h : t.Keeps directory here contents) (f : SlotFile) (bytes : List UInt8) :
    (∃ t', Takes directory f.name ∧ t.write (Path.join directory f.name) bytes = .ok t' ∧
      t'.Keeps directory here (Function.update contents f (some bytes))) ∨
    (¬ Takes directory f.name ∧ ∃ e, t.write (Path.join directory f.name) bytes = .error e) := by
  by_cases htakes : Takes directory f.name
  · obtain ⟨t', hwrite, hchange⟩ :=
      (h.home.seat f.isName_name htakes).write (h.ne_directory htakes) bytes
    exact .inl ⟨t', htakes, hwrite, h.changed (some bytes) htakes hchange⟩
  · refine .inr ⟨htakes, .nameTooLong, ?_⟩
    rw [FileTree.write, h.home.locate_error f.isName_name htakes]

/-- A file that the file system takes is removed, whether or not it is there. -/
theorem Keeps.remove (h : t.Keeps directory here contents) (f : SlotFile) :
    (∃ t', Takes directory f.name ∧ t.remove (Path.join directory f.name) = .ok t' ∧
      t'.Keeps directory here (Function.update contents f none)) ∨
    (¬ Takes directory f.name ∧ ∃ e, t.remove (Path.join directory f.name) = .error e) := by
  by_cases htakes : Takes directory f.name
  · obtain ⟨t', hremove, hchange⟩ :=
      (h.home.seat f.isName_name htakes).remove (h.ne_directory htakes)
    exact .inl ⟨t', htakes, hremove, h.changed none htakes hchange⟩
  · refine .inr ⟨htakes, .nameTooLong, ?_⟩
    rw [FileTree.remove, h.home.locate_error f.isName_name htakes]

/-- Whether a file is there can be asked if the file system takes it, and only then. -/
theorem Keeps.pathExists (h : t.Keeps directory here contents) {f : SlotFile}
    (htakes : Takes directory f.name) :
    t.pathExists (Path.join directory f.name) = .ok (contents f).isSome := by
  rw [FileTree.pathExists, h.find htakes]
  cases contents f <;> rfl

theorem Keeps.pathExists_error (h : t.Keeps directory here contents) {f : SlotFile}
    (htakes : ¬ Takes directory f.name) :
    t.pathExists (Path.join directory f.name) = .error .nameTooLong := by
  rw [FileTree.pathExists, FileTree.find, h.home.locate_error f.isName_name htakes]

end FileTree

end Parley
