import Parley.Proofs.Files.Names
import Parley.Proofs.Files.Pattern
import Parley.Proofs.Files.Stem
import Parley.Proofs.Library.Loads
import Parley.Proofs.Text.Utf8

/-!
# Script Files of a Directory

Loading a directory makes one load for each entry whose name ends like that of a script file. Its
archetype is the stem of the name, and its content is what the file holds as a script file. A file
whose text exceeds a limit of the reader ends the whole with a fault.

* `FileTree.scriptNames`: the names of the script files of a directory;
* `FileTree.HoldsScript` and `FileTree.Exceeds`: a file holds a text that can be parsed, or one that
  exceeds a limit;
* `Library.entryNames`: the names that the pattern of script files stands for, whatever extension is
  configured;
* `Library.directoryLoads_entries`, `Library.directoryLoads_of_fits` and
  `Library.directoryLoads_of_exceeds`: the loads of the directory, all of them or up to a fault;
* `Load.check_ofPath`: a load of a script file that can be used.
-/

namespace Parley

namespace FileTree

/-- The names of the entries of a directory that end like script files. -/
def scriptNames (t : FileTree) (directory : String) : List String :=
  (t.names directory).filter fun name => ".dlg".toList.isSuffixOf name.toList

/-- A file holds a script: its bytes can be read as the text of a script file, as `Text.IsScriptText`
says which can, and the text can be parsed. -/
def HoldsScript (t : FileTree) (limits : Limits) (path : String) (script : Script) : Prop :=
  ∃ bytes s, t.read path = .ok bytes ∧ Text.IsScriptText bytes s ∧
    Script.parse (String.ofList s) (Path.stem path) path limits = .ok script

/-- A file holds a text that exceeds a limit of the reader. -/
def Exceeds (t : FileTree) (limits : Limits) (path : String) (defect : Defect) : Prop :=
  ∃ bytes s, t.read path = .ok bytes ∧ Text.IsScriptText bytes s ∧
    ∃ e, Script.parse (String.ofList s) (Path.stem path) path limits = .error e ∧
      e.defect.isLimit = true ∧ defect = e.defect

variable {t : FileTree} {path directory name : String}

theorem readScript_ne_nullCharacter (h : '\x00' ∉ path.toList) :
    t.readScript path ≠ .error .nullCharacter := by
  have hfind : t.find path ≠ .error .nullCharacter := find_ne_nullCharacter h
  rw [readScript, read]
  cases hnode : t.find path with
  | error e =>
    rw [hnode] at hfind
    exact fun he => hfind (congrArg Except.error (Except.error.inj he))
  | ok node =>
    cases node with
    | directory => rintro ⟨⟩
    | file bytes =>
      dsimp only
      split <;> rintro ⟨⟩

/-- What a script file is named is the name of a file. -/
theorem isName_of_mem_scriptNames (hplain : t.HasPlainNames) (h : name ∈ t.scriptNames directory) :
    Path.IsName name := by
  obtain ⟨hname, hext⟩ := List.mem_filter.1 h
  obtain ⟨hpart, hnull⟩ := isPart_of_mem_names hplain hname
  refine ⟨hpart, ?_, hnull⟩
  rintro rfl
  revert hext
  decide

end FileTree

namespace Load

variable {tree : FileTree} {path : String} {lib : Library} {script : Script}

/-- The load of the script file at a path. -/
def ofPath (tree : FileTree) (path : String) : Load :=
  ⟨Path.stem path, path, (tree.readScript path).map String.ofList⟩

theorem archetype_ofPath (tree : FileTree) (path : String) :
    (ofPath tree path).archetype = Path.stem path := rfl

/-- A path in its normal form and without a null character is loaded, whatever is there, unless a
limit is exceeded. -/
theorem ofFile_eq_ofPath (limits : Limits) (hnormal : Path.normalize path = path)
    (hnull : '\x00' ∉ path.toList) :
    ofFile limits tree path = accept limits (ofPath tree path) := by
  have hread : tree.readScript path ≠ .error .nullCharacter :=
    FileTree.readScript_ne_nullCharacter hnull
  unfold ofFile ofPath
  rw [hnormal]
  generalize Path.stem path = archetype
  cases hscript : tree.readScript path with
  | ok s => rfl
  | error e =>
    rw [hscript] at hread
    cases e with
    | nullCharacter => exact absurd rfl hread
    | _ => rfl

/-- What a script file holds can be used if it is a script whose writes are allowed. -/
theorem check_ofPath : (ofPath tree path).check lib = .ok script ↔
    tree.HoldsScript lib.limits path script ∧ lib.checkWrites script = .ok () := by
  rw [check, ofPath, FileTree.HoldsScript, FileTree.readScript]
  dsimp only
  generalize Path.stem path = archetype
  cases tree.read path with
  | error e =>
    constructor
    · rintro ⟨⟩
    · rintro ⟨⟨_, _, ⟨⟩, -⟩, -⟩
  | ok bytes =>
    dsimp only
    cases hscript : Text.decodeScript bytes with
    | none =>
      constructor
      · rintro ⟨⟩
      · rintro ⟨⟨_, s, ⟨⟩, hs, -⟩, -⟩
        cases hscript.symm.trans (Text.decodeScript_eq_some_iff.2 hs)
    | some s =>
      simp only [Except.map, Library.check_eq_ok_iff]
      constructor
      · rintro ⟨hparse, hwrites⟩
        exact ⟨⟨bytes, s, rfl, Text.decodeScript_eq_some_iff.1 hscript, hparse⟩, hwrites⟩
      · rintro ⟨⟨_, s', ⟨⟩, hs', hparse⟩, hwrites⟩
        obtain rfl := Option.some.inj (hscript.symm.trans (Text.decodeScript_eq_some_iff.2 hs'))
        exact ⟨hparse, hwrites⟩

/-- The load of a script file exceeds a limit if what the file holds does. -/
theorem exceeds?_ofPath {limits : Limits} {defect : Defect} :
    (ofPath tree path).exceeds? limits = some defect ↔ tree.Exceeds limits path defect := by
  rw [exceeds?, ofPath, FileTree.Exceeds, FileTree.readScript]
  dsimp only
  generalize Path.stem path = archetype
  cases tree.read path with
  | error e =>
    constructor
    · rintro ⟨⟩
    · rintro ⟨_, _, ⟨⟩, -⟩
  | ok bytes =>
    dsimp only
    cases hscript : Text.decodeScript bytes with
    | none =>
      constructor
      · rintro ⟨⟩
      · rintro ⟨_, s, ⟨⟩, hs, -⟩
        cases hscript.symm.trans (Text.decodeScript_eq_some_iff.2 hs)
    | some s =>
      have hholds : ∀ P : List Char → Prop, (∃ bytes' s', (.ok bytes : Except FileError _) =
          .ok bytes' ∧ Text.IsScriptText bytes' s' ∧ P s') ↔ P s := by
        intro P
        constructor
        · rintro ⟨_, s', ⟨⟩, hs', hP⟩
          obtain rfl := Option.some.inj (hscript.symm.trans (Text.decodeScript_eq_some_iff.2 hs'))
          exact hP
        · exact fun hP => ⟨bytes, s, rfl, Text.decodeScript_eq_some_iff.1 hscript, hP⟩
      rw [hholds]
      exact exceeds?_text_iff

end Load

namespace Config

/-- The extension of script files is the end of a name. It has no slash, so that it stays in the
directory, and does not make two stars in a row with the one that stands for the rest of the name. -/
structure HasNameExtension (config : Config) : Prop where
  slash : '/' ∉ config.scriptExtension.shown.toList
  stars : Pattern.hasDoubleStar ("*" ++ config.scriptExtension.shown).toList = false

end Config

namespace Library

variable {lib : Library} {tree : FileTree}

/-- The names in the configured directory that the pattern of script files stands for. -/
def entryNames (lib : Library) (tree : FileTree) : List String :=
  (tree.names lib.config.scriptDir).filter
    (Pattern.matchesName ("*" ++ lib.config.scriptExtension.shown))

/-- The pattern of script files is a single component, which is matched with names. -/
theorem filePattern?_eq (h : lib.config.HasNameExtension) :
    lib.filePattern? =
      some ⟨[.wild (Pattern.pieces ("*" ++ lib.config.scriptExtension.shown).toList)], false⟩ := by
  obtain ⟨hslash, hstars⟩ := h
  rw [filePattern?]
  generalize lib.config.scriptExtension.shown = ext at hslash hstars
  have hchars : ("*" ++ ext).toList = '*' :: ext.toList := by simp
  have hslash : '/' ∉ ("*" ++ ext).toList := by simpa [hchars] using hslash
  have hpart : Path.IsPart ("*" ++ ext) := by
    -- What starts with a star is neither empty nor a single dot.
    have hne : ∀ s : String, s.toList.head? ≠ some '*' → "*" ++ ext ≠ s := by
      rintro s hs rfl
      exact hs (by rw [hchars, List.head?_cons])
    exact ⟨hslash, hne "" (by decide), hne "." (by decide)⟩
  have hcomponent : Pattern.Component.ofText? ("*" ++ ext) =
      some (.wild (Pattern.pieces ("*" ++ ext).toList)) := by
    have hne : "*" ++ ext ≠ "**" := by
      intro heq
      rw [heq] at hstars
      exact absurd hstars (by decide)
    rw [Pattern.Component.ofText?, if_neg hne, if_neg (by rw [hstars]; decide), if_pos]
    rw [hchars, List.any_cons]
    rfl
  have hend : (("*" ++ ext).toList.getLast? == some '/') = false := by
    rw [beq_eq_false_iff_ne]
    exact fun hlast => hslash (List.mem_of_getLast? hlast)
  rw [Pattern.ofText?, Path.components_of_isPart hpart, hend, List.mapM_cons, hcomponent]
  rfl

/-- What the pattern of script files stands for are components without null characters. -/
theorem isPart_of_mem_entryNames {name : String} (hplain : tree.HasPlainNames)
    (h : name ∈ lib.entryNames tree) : Path.IsPart name ∧ '\x00' ∉ name.toList :=
  FileTree.isPart_of_mem_names hplain (List.mem_filter.1 h).1

/-- The loads of a directory are those of its script files in some order, up to the first that exceeds
a limit. -/
theorem directoryLoads_entries (hext : lib.config.HasNameExtension)
    (hdir : tree.isDirectory lib.config.scriptDir = .ok true)
    (hnames : ∀ name ∈ lib.entryNames tree, Path.IsPart name ∧ '\x00' ∉ name.toList) :
    ∃ loads : List Load, loads.Perm ((lib.entryNames tree).map fun name =>
        Load.ofPath tree (Path.join lib.config.scriptDir name)) ∧
      lib.directoryLoads tree = Load.untilFault (loads.map (Load.accept lib.limits)) := by
  obtain ⟨hfind, place, hplace⟩ := FileTree.find_of_isDirectory hdir
  have hexists : tree.pathExists lib.config.scriptDir = .ok true := by
    rw [FileTree.pathExists, hfind]
  obtain ⟨paths, hpaths, hperm⟩ := Pattern.paths_perm hdir
    (Pattern.pieces ("*" ++ lib.config.scriptExtension.shown).toList)
  -- Whatever stands under such a name is loaded: no name has a null character.
  have hload : ∀ path ∈ paths,
      Load.ofFile lib.limits tree path = Load.accept lib.limits (Load.ofPath tree path) := by
    intro path hpath
    obtain ⟨name, hname, rfl⟩ := List.mem_map.1 (hperm.mem_iff.1 hpath)
    obtain ⟨hpart, hnull⟩ := hnames name hname
    exact Load.ofFile_eq_ofPath lib.limits (Path.normalize_join _ hpart)
      (FileTree.notMem_join_of_isPart hplace hpart hnull)
  refine ⟨paths.map (Load.ofPath tree), ?_, ?_⟩
  · have hloads := hperm.map (Load.ofPath tree)
    rwa [List.map_map] at hloads
  · have hfiles : lib.scriptFiles tree = .ok paths := by
      rw [scriptFiles, filePattern?_eq hext]
      dsimp only
      rw [hpaths]
      rfl
    rw [directoryLoads, hexists, hfiles, List.map_map]
    exact congrArg Load.untilFault (List.map_congr_left hload)

/-- Where no script file exceeds a limit, all of them are loaded. -/
theorem directoryLoads_of_fits (hext : lib.config.HasNameExtension)
    (hdir : tree.isDirectory lib.config.scriptDir = .ok true)
    (hnames : ∀ name ∈ lib.entryNames tree, Path.IsPart name ∧ '\x00' ∉ name.toList)
    (hfits : ∀ name ∈ lib.entryNames tree, ∀ defect,
      ¬ tree.Exceeds lib.limits (Path.join lib.config.scriptDir name) defect) :
    ∃ loads, lib.directoryLoads tree = (loads, none) ∧
      loads.Perm ((lib.entryNames tree).map fun name =>
        Load.ofPath tree (Path.join lib.config.scriptDir name)) := by
  obtain ⟨loads, hperm, hloads⟩ := directoryLoads_entries hext hdir hnames
  refine ⟨loads, ?_, hperm⟩
  rw [hloads]
  refine Load.untilFault_of_fits fun load hload => ?_
  obtain ⟨name, hname, rfl⟩ := List.mem_map.1 (hperm.mem_iff.1 hload)
  exact Option.eq_none_iff_forall_ne_some.2 fun defect hdefect =>
    hfits name hname defect (Load.exceeds?_ofPath.1 hdefect)

/-- Where some script file exceeds a limit, one that does ends the whole. -/
theorem directoryLoads_of_exceeds (hext : lib.config.HasNameExtension)
    (hdir : tree.isDirectory lib.config.scriptDir = .ok true)
    (hnames : ∀ name ∈ lib.entryNames tree, Path.IsPart name ∧ '\x00' ∉ name.toList)
    (hexceeds : ∃ name ∈ lib.entryNames tree, ∃ defect,
      tree.Exceeds lib.limits (Path.join lib.config.scriptDir name) defect) :
    ∃ name ∈ lib.entryNames tree, ∃ defect,
      tree.Exceeds lib.limits (Path.join lib.config.scriptDir name) defect ∧
      (lib.directoryLoads tree).2 = some (.limit defect) := by
  obtain ⟨loads, hperm, hloads⟩ := directoryLoads_entries hext hdir hnames
  obtain ⟨name, hname, defect, hdefect⟩ := hexceeds
  have hload := hperm.mem_iff.2 (List.mem_map_of_mem hname)
  obtain ⟨other, hother, first, hfirst, hfault⟩ :=
    Load.untilFault_of_exceeds hload (Load.exceeds?_ofPath.2 hdefect)
  obtain ⟨name', hname', rfl⟩ := List.mem_map.1 (hperm.mem_iff.1 hother)
  exact ⟨name', hname', first, Load.exceeds?_ofPath.1 hfirst, hloads ▸ hfault⟩

/-- The usual extension is the end of a name. -/
theorem hasNameExtension_of_dlg (hext : lib.config.scriptExtension = .str ".dlg") :
    lib.config.HasNameExtension := by
  constructor <;> rw [hext] <;> decide

/-- With the usual extension the pattern stands for the names that end like script files. -/
theorem entryNames_of_dlg (hext : lib.config.scriptExtension = .str ".dlg") (tree : FileTree) :
    lib.entryNames tree = tree.scriptNames lib.config.scriptDir := by
  rw [entryNames, hext]
  refine List.filter_congr fun name _ => ?_
  have hpieces : Pattern.pieces ("*" ++ Json.shown (.str ".dlg")).toList =
      .many :: ".dlg".toList.map .char := by decide
  rw [Pattern.matchesName, hpieces, Bool.eq_iff_iff, Pattern.matchesPieces_extension,
    List.isSuffixOf_iff_suffix]

end Library

end Parley
