import Parley.Proofs.Json.RoundTrip
import Parley.Proofs.Library.Entries
import Parley.Proofs.Library.Verdict
import Parley.Save.Archive

/-!
# Broken Files

A script file may hold bytes that are no text, a text that cannot be parsed or a script that makes a
refused write, or it may be a directory. Loading the directory goes on all the same, and whatever is
wrong with one file is seen in its own archetype only. The exception are texts that exceed a limit of
the reader: loading the directory ends there with a fault.

* `Library.CanUse`: a file holds a script that the library can use;
* `Library.loadFiles_of_loads` and `Library.loadAll_of_loads`: how many scripts are usable is counted;
* `Library.loadAll_entries`: what a directory leaves, one archetype after the other;
* `FileTree.ReplacedIn`: a directory in which one entry was replaced by anything else, as it is where
  a file is written over (`FileTree.Home.replacedIn_insert`);
* `Library.broken_files_isolated`: all others are loaded as before;
* `Library.stops_at_overlong`: a price of too many digits ends loading the directory.
-/

namespace Parley

/-! ## Usable loads -/

/-- A library can use a load. -/
def Load.IsUsable (lib : Library) (load : Load) : Prop :=
  ∃ script, load.check lib = .ok script

instance (lib : Library) : DecidablePred (Load.IsUsable lib) := fun load =>
  match h : load.check lib with
  | .ok script => .isTrue ⟨script, h⟩
  | .error _ => .isFalse fun ⟨_, hscript⟩ => nomatch h.symm.trans hscript

namespace Load

variable {lib : Library} {load : Load}

/-- The loads that can be used are settled by the manifest and the limits. -/
theorem isUsable_congr {lib' : Library} (hmanifest : lib'.manifest = lib.manifest)
    (hlimits : lib'.limits = lib.limits) : load.IsUsable lib' ↔ load.IsUsable lib := by
  rw [IsUsable, IsUsable, check_congr hmanifest hlimits]

/-- A load is counted along with others unless what is kept of it is disabled. -/
theorem counted (lib : Library) (load : Load) (count : Nat) :
    (if (load.entry lib).1.disabled then count else count + 1) =
      count + if decide (load.IsUsable lib) then 1 else 0 := by
  rw [entry_disabled, entry]
  by_cases husable : load.IsUsable lib
  · rw [decide_eq_true husable]
    obtain ⟨script, hcheck⟩ := husable
    rw [hcheck]
    rfl
  · rw [decide_eq_false husable]
    cases hcheck : load.check lib with
    | ok script => exact absurd ⟨script, hcheck⟩ husable
    | error e => rfl

end Load

namespace Library

variable {lib : Library} {tree tree' : FileTree} {paths : List String} {loads : List Load}
  {name archetype : String}

/-- A file holds a script that the library can use: it can be read as the text of a script file and
parsed, and its writes are allowed. -/
def CanUse (lib : Library) (tree : FileTree) (path : String) : Prop :=
  ∃ script, tree.HoldsScript lib.limits path script ∧ lib.checkWrites script = .ok ()

theorem isUsable_ofPath {path : String} :
    (Load.ofPath tree path).IsUsable lib ↔ lib.CanUse tree path :=
  exists_congr fun _ => Load.check_ofPath

instance (lib : Library) (tree : FileTree) : DecidablePred (lib.CanUse tree) := fun _ =>
  decidable_of_iff _ isUsable_ofPath

/-- Files that all make loads are loaded one after the other, and those that can be used are
counted. -/
theorem loadFiles_of_loads (lib : Library)
    (h : Load.fromFiles lib.limits tree paths = (loads, none)) :
    ∃ notices, lib.loadFiles tree paths =
      .ok (lib.takeAll loads, loads.countP fun load => load.IsUsable lib, notices) := by
  induction paths generalizing lib loads with
  | nil =>
    obtain ⟨rfl, -⟩ := Prod.mk.inj h
    exact ⟨[], rfl⟩
  | cons path rest ih =>
    rw [Load.fromFiles, List.map_cons] at h
    rcases lib.loadFile_cases tree path with ⟨fault, -, hload⟩ | ⟨load, notices, hfile, hload⟩
    · rw [hload] at h
      cases (Prod.mk.inj h).2
    · rw [hload] at h
      obtain ⟨rfl, hrest⟩ := Prod.mk.inj h
      have hlater : Load.fromFiles (lib.take load).limits tree rest =
          ((Load.fromFiles lib.limits tree rest).1, none) := by
        rw [take_limits]
        exact Prod.ext rfl hrest
      obtain ⟨later, hlater⟩ := ih (lib.take load) hlater
      -- Those that come later are checked against the same manifest.
      simp only [Load.isUsable_congr (lib.take_manifest load) (lib.take_limits load)] at hlater
      refine ⟨notices ++ later, ?_⟩
      rw [loadFiles, hfile, List.countP_cons, ← Load.counted]
      simp only [bind, Except.bind, Except.mapError, hlater]
      rfl

/-- Loading everything makes the loads of the directory and counts those that can be used. -/
theorem loadAll_of_loads (h : lib.directoryLoads tree = (loads, none)) :
    ∃ notices, lib.loadAll tree =
      .ok (lib.takeAll loads, loads.countP fun load => load.IsUsable lib, notices) := by
  rw [directoryLoads] at h
  rw [loadAll]
  cases hexists : tree.pathExists lib.config.scriptDir with
  | error e =>
    rw [hexists] at h
    cases (Prod.mk.inj h).2
  | ok isThere =>
    rw [hexists] at h
    cases isThere with
    | false =>
      obtain ⟨rfl, -⟩ := Prod.mk.inj h
      exact ⟨_, rfl⟩
    | true =>
      cases hfiles : lib.scriptFiles tree with
      | error fault =>
        rw [hfiles] at h
        cases (Prod.mk.inj h).2
      | ok paths =>
        rw [hfiles] at h
        obtain ⟨notices, hloaded⟩ := lib.loadFiles_of_loads h
        simp only [bind, Except.bind, Except.mapError, if_true, hloaded]
        exact ⟨_, rfl⟩

/-- Where the loads of the directory end with a fault, so does loading everything. -/
theorem loadAll_of_fault {fault : LibraryFault} (h : (lib.directoryLoads tree).2 = some fault) :
    ∃ stop, lib.loadAll tree = .error stop ∧ stop.fault = fault := by
  have hreached := congrArg Prod.snd (lib.loadAll_eq tree)
  rw [Prod.map_snd, h] at hreached
  cases hall : lib.loadAll tree with
  | error stop =>
    rw [hall] at hreached
    exact ⟨stop, rfl, Option.some.inj hreached⟩
  | ok answer =>
    rw [hall] at hreached
    cases hreached

/-! ## Directories -/

/-- No script file of the directory holds a text that exceeds a limit of the reader. -/
def EntriesFit (lib : Library) (tree : FileTree) : Prop :=
  ∀ name ∈ lib.entryNames tree, ∀ defect,
    ¬ tree.Exceeds lib.limits (Path.join lib.config.scriptDir name) defect

/-- After loading a directory whose script files have different stems, each stem has what its own file
leaves, and every other archetype what it had before. -/
theorem loadAll_entries (hext : lib.config.HasNameExtension)
    (hdir : tree.isDirectory lib.config.scriptDir = .ok true)
    (hnames : ∀ name ∈ lib.entryNames tree, Path.IsPart name ∧ '\x00' ∉ name.toList)
    (hstems : ((lib.entryNames tree).map Path.stem).Nodup) (hfit : lib.EntriesFit tree) :
    ∃ after notices, lib.loadAll tree = .ok (after, (lib.entryNames tree).countP fun name =>
        lib.CanUse tree (Path.join lib.config.scriptDir name), notices) ∧
      (∀ name ∈ lib.entryNames tree, after.kept (Path.stem name) =
        lib.keptOf (some (Load.ofPath tree (Path.join lib.config.scriptDir name)))) ∧
      ∀ archetype, archetype ∉ (lib.entryNames tree).map Path.stem →
        after.kept archetype = lib.kept archetype := by
  obtain ⟨loads, hloads, hperm⟩ := directoryLoads_of_fits hext hdir hnames hfit
  obtain ⟨notices, hall⟩ := loadAll_of_loads hloads
  have hfits : ∀ load ∈ loads, load.Fits lib.limits := fun load hload =>
    fits_of_directoryLoads tree (hloads ▸ hload)
  have hcount : (loads.countP fun load => load.IsUsable lib) = (lib.entryNames tree).countP
      fun name => lib.CanUse tree (Path.join lib.config.scriptDir name) := by
    rw [hperm.countP_eq, List.countP_map]
    simp only [Function.comp_def, isUsable_ofPath]
  have harchetype : ∀ name ∈ lib.entryNames tree,
      (Load.ofPath tree (Path.join lib.config.scriptDir name)).archetype = Path.stem name := by
    intro name hname
    rw [Load.archetype_ofPath, Path.stem_join _ (hnames name hname).1]
  have harchetypes : (loads.map Load.archetype).Perm ((lib.entryNames tree).map Path.stem) := by
    have hmap := hperm.map Load.archetype
    rw [List.map_map] at hmap
    rwa [← List.map_congr_left harchetype]
  refine ⟨lib.takeAll loads, notices, hcount ▸ hall, fun name hname => ?_, fun archetype hother => ?_⟩
  · -- No two files share a stem, so that the load of a file is the last one of its archetype.
    have hload := hperm.mem_iff.2 (List.mem_map_of_mem hname)
    have hlast := Load.lastOf_of_nodup (harchetypes.nodup_iff.2 hstems) hload
    rw [harchetype name hname] at hlast
    rw [kept_takeAll hfits, hlast]
    rfl
  · have hnone : Load.lastOf archetype loads = none := by
      rw [Option.eq_none_iff_forall_not_mem]
      intro load hlast
      obtain ⟨rfl, hload⟩ := Load.archetype_of_lastOf hlast
      exact hother (harchetypes.mem_iff.1 (List.mem_map_of_mem hload))
    rw [kept_takeAll hfits, hnone]

/-- Where the text of a script file exceeds a limit, loading the directory ends with the fault of such
a file. -/
theorem loadAll_of_exceeds (hext : lib.config.HasNameExtension)
    (hdir : tree.isDirectory lib.config.scriptDir = .ok true)
    (hnames : ∀ name ∈ lib.entryNames tree, Path.IsPart name ∧ '\x00' ∉ name.toList)
    (hunfit : ¬ lib.EntriesFit tree) :
    ∃ name ∈ lib.entryNames tree, ∃ defect stop,
      tree.Exceeds lib.limits (Path.join lib.config.scriptDir name) defect ∧
        lib.loadAll tree = .error stop ∧ stop.fault = .limit defect := by
  simp only [EntriesFit, not_forall, Classical.not_not] at hunfit
  obtain ⟨name, hname, defect, hdefect⟩ := hunfit
  obtain ⟨name', hname', defect', hdefect', hfault⟩ :=
    directoryLoads_of_exceeds hext hdir hnames ⟨name, hname, defect, hdefect⟩
  obtain ⟨stop, hstop, hfault⟩ := loadAll_of_fault hfault
  exact ⟨name', hname', defect', stop, hdefect', hstop, hfault⟩

end Library

/-! ## Replaced entries -/

namespace FileTree

variable {t t' : FileTree} {directory name : String}

/-- In a directory one entry was replaced, and may be anything now. -/
structure ReplacedIn (t t' : FileTree) (directory name : String) : Prop where
  there : t'.isDirectory directory = .ok true
  names : (t'.names directory).Perm (t.names directory)
  others : ∀ other ∈ t.names directory, other ≠ name →
    t'.read (Path.join directory other) = t.read (Path.join directory other)

/-- What is made of a file that was not replaced is the same as before. -/
theorem ReplacedIn.ofPath {other : String} (h : t.ReplacedIn t' directory name)
    (hother : other ∈ t.names directory) (hne : other ≠ name) :
    Load.ofPath t' (Path.join directory other) = Load.ofPath t (Path.join directory other) := by
  have hread := h.others other hother hne
  simp only [Load.ofPath, readScript, hread]

/-- The root is a home for a program that works there. -/
theorem home_of_root (hroot : t.root = ".") (hworking : t.working = []) : t.Home "." [] := by
  have hcomponents : ∀ path, Path.rootOf path = "" → t.fromRoot path = Path.components path := by
    intro path hpath
    have hstart : Path.components t.root = [] := by
      rw [hroot]
      decide
    rw [fromRoot, hstart, hworking, hpath]
    split
    · exact List.drop_zero
    · exact List.nil_append _
  refine ⟨?_, rfl, fun other hother _ => ?_⟩
  · have hempty : Path.components "." = [] := by decide
    rw [locate, if_neg (by decide), if_neg (by decide), hcomponents "." rfl, hempty]
    rfl
  · have hjoined : Path.rootOf (Path.join "." other) = "" := Path.rootOf_join "." hother.1
    rw [hcomponents "." rfl, hcomponents _ hjoined, Path.components_join "." hother.1]

/-- Where a file is written over, or a directory is put in its place, one entry is replaced. -/
theorem Home.replacedIn_insert {here : List String} {old : List UInt8}
    (h : t.Home directory here) (hname : Path.IsName name)
    (hfile : t.nodeAt? (here ++ [name]) = some (.file old))
    (hnames : ∀ other ∈ t.names directory, Path.IsName other) (node : FileNode) :
    t.ReplacedIn (t.insert (here ++ [name]) node) directory name := by
  have hinside : isStart (here ++ [name]) = false := isStart_concat here hname
  have hchange := t.changedAt_insert node hinside
  have hnot : t.nodeAt? (here ++ [name]) ≠ some .directory := by rw [hfile]; exact nofun
  have hhome : (t.insert (here ++ [name]) node).Home directory here := h.changed_of hinside hnot hchange
  -- The entry was there before, so that no key is new.
  have hkeys : (t.insert (here ++ [name]) node).nodes.keys = t.nodes.keys := by
    have hentry : t.nodes.get? ("/".intercalate (here ++ [name])) = some (.file old) := by
      rw [nodeAt?, hinside] at hfile
      exact hfile
    have hkey : "/".intercalate (here ++ [name]) ∈ t.nodes.keys := by
      rw [← List.contains_iff_mem]
      exact (OrderedMap.contains_eq_isSome _ _).trans (by rw [hentry]; rfl)
    rw [insert, OrderedMap.keys_insert, if_pos hkey]
  refine ⟨?_, ?_, fun other hother hne => ?_⟩
  · rw [isDirectory, find, hhome.located]
    dsimp only
    rw [hhome.directory]
  · rw [names, names, hhome.located, h.located, hkeys]
  · have hisName := hnames other hother
    rw [read, read]
    by_cases htakes : Takes directory other
    · -- Both paths lead to the same place, which is not the one that was replaced.
      rw [(hhome.seat hisName htakes).find, (h.seat hisName htakes).find, hchange.others]
      exact fun hkey => hne (Path.intercalate_concat_inj hkey)
    · rw [find, find, hhome.locate_error hisName htakes, h.locate_error hisName htakes]

end FileTree

namespace Library

variable {lib : Library} {tree : FileTree}

/-- Broken files are isolated. Let the script files of a directory have different stems. Names have no
null characters, as in every tree that is made (`FileTree.HasPlainNames.make`). Whatever else the files
hold, and also if they are directories, loading the directory comes to its end unless the text of some
file exceeds a limit of the reader. It counts the files that can be read and parsed and whose writes are
allowed. If one entry is replaced by anything else, the same is true of the directory as it is then,
and the archetypes of all other files are left with the script and the error that they were left with
before. Where the text of a file exceeds a limit, loading the directory ends with the fault of such a
file. -/
theorem broken_files_isolated (hext : lib.config.HasNameExtension)
    (hdir : tree.isDirectory lib.config.scriptDir = .ok true) (hplain : tree.HasPlainNames)
    (hstems : ((lib.entryNames tree).map Path.stem).Nodup) :
    (lib.EntriesFit tree → ∃ after notices,
      lib.loadAll tree = .ok (after, (lib.entryNames tree).countP fun name =>
        lib.CanUse tree (Path.join lib.config.scriptDir name), notices) ∧
      ∀ name tree', tree.ReplacedIn tree' lib.config.scriptDir name → lib.EntriesFit tree' →
        ∃ after' notices', lib.loadAll tree' = .ok (after', (lib.entryNames tree').countP
            fun name => lib.CanUse tree' (Path.join lib.config.scriptDir name), notices') ∧
          ∀ archetype, (name ∈ lib.entryNames tree → archetype ≠ Path.stem name) →
            after'.kept archetype = after.kept archetype) ∧
    (¬ lib.EntriesFit tree → ∃ name ∈ lib.entryNames tree, ∃ defect stop,
      tree.Exceeds lib.limits (Path.join lib.config.scriptDir name) defect ∧
        lib.loadAll tree = .error stop ∧ stop.fault = .limit defect) := by
  have hnames : ∀ name ∈ lib.entryNames tree, Path.IsPart name ∧ '\x00' ∉ name.toList :=
    fun _ => isPart_of_mem_entryNames hplain
  refine ⟨fun hfit => ?_, fun hunfit => ?_⟩
  · obtain ⟨after, notices, hall, hown, hothers⟩ := loadAll_entries hext hdir hnames hstems hfit
    refine ⟨after, notices, hall, fun name tree' hreplaced hfit' => ?_⟩
    have hperm : (lib.entryNames tree').Perm (lib.entryNames tree) := hreplaced.names.filter _
    obtain ⟨after', notices', hall', hown', hothers'⟩ := loadAll_entries hext hreplaced.there
      (fun other hother => hnames other (hperm.mem_iff.1 hother))
      ((hperm.map Path.stem).nodup_iff.2 hstems) hfit'
    refine ⟨after', notices', hall', fun archetype hne => ?_⟩
    by_cases hstem : archetype ∈ (lib.entryNames tree).map Path.stem
    · -- An archetype with a file of its own: the file was not the one that was replaced.
      obtain ⟨other, hother, rfl⟩ := List.mem_map.1 hstem
      have hkept : other ≠ name := by
        rintro rfl
        exact hne hother rfl
      rw [hown other hother, hown' other (hperm.mem_iff.2 hother),
        hreplaced.ofPath (List.mem_filter.1 hother).1 hkept]
    · have hstem' : archetype ∉ (lib.entryNames tree').map Path.stem := by
        rwa [(hperm.map Path.stem).mem_iff]
      rw [hothers archetype hstem, hothers' archetype hstem']
  · exact loadAll_of_exceeds hext hdir hnames hunfit

/-- A guardhouse with a guard, a baker, a directory in the place of a script, and a drunk who cannot be
understood. -/
def guardhouse : FileTree where
  nodes := (((OrderedMap.empty.insert "guard.dlg" (.file (Archive.asciiBytes
    "(say \"Halt.\")".toList))).insert "baker.dlg" (.file (Archive.asciiBytes
      "(say \"Bread!\")".toList))).insert "cellar.dlg" .directory).insert "drunk.dlg"
        (.file [0xFF, 0xFE])

/-- The guard's script, written over with one that rings a bell nobody has declared. -/
def alarm : FileTree :=
  guardhouse.insert (["guard.dlg"]) (.file (Archive.asciiBytes "(set ALARM 1)".toList))

/-- The library of the guardhouse, in which no variable is declared. -/
def guardhouseLibrary : Library where
  config := { scriptDir := "." }
  manifest := .empty

/-- The guard is counted along with the baker until he rings the bell; the baker does not notice. -/
theorem broken_files_isolated_of_guardhouse :
    ∃ after after' notices notices',
      guardhouseLibrary.loadAll guardhouse = .ok (after, 2, notices) ∧
      guardhouseLibrary.loadAll alarm = .ok (after', 1, notices') ∧
      after'.kept "baker" = after.kept "baker" ∧
      guardhouseLibrary.EntriesFit guardhouse ∧ guardhouseLibrary.EntriesFit alarm := by
  have hext : guardhouseLibrary.config.HasNameExtension := ⟨by decide +kernel, by decide +kernel⟩
  have hdir : guardhouse.isDirectory guardhouseLibrary.config.scriptDir = .ok true := by
    decide +kernel
  have hplain : guardhouse.HasPlainNames := by
    show ∀ key ∈ guardhouse.nodes.keys, '\x00' ∉ key.toList
    decide +kernel
  have hentries : guardhouseLibrary.entryNames guardhouse =
      ["guard.dlg", "baker.dlg", "cellar.dlg", "drunk.dlg"] := by decide +kernel
  have hstems : ((guardhouseLibrary.entryNames guardhouse).map Path.stem).Nodup := by
    rw [hentries]
    decide +kernel
  have hreplaced : guardhouse.ReplacedIn alarm guardhouseLibrary.config.scriptDir "guard.dlg" := by
    have hnames : ∀ other ∈ guardhouse.names ".", Path.IsName other := by
      show ∀ other ∈ guardhouse.names ".", ('/' ∉ other.toList ∧ other ≠ "" ∧ other ≠ ".") ∧
        other ≠ ".." ∧ '\x00' ∉ other.toList
      decide +kernel
    have hfile : guardhouse.nodeAt? ([] ++ ["guard.dlg"]) =
        some (.file (Archive.asciiBytes "(say \"Halt.\")".toList)) := by decide +kernel
    exact (FileTree.home_of_root rfl rfl).replacedIn_insert (hnames _ (by decide +kernel)) hfile
      hnames _
  obtain ⟨hcounts, -⟩ := broken_files_isolated hext hdir hplain hstems
  have htwo : (guardhouseLibrary.loadAll guardhouse).toOption.map (·.2.1) = some 2 := by
    decide +kernel
  have hone : (guardhouseLibrary.loadAll alarm).toOption.map (·.2.1) = some 1 := by
    decide +kernel
  -- Both directories come to an end, so that no file in them exceeds a limit.
  have hfit : guardhouseLibrary.EntriesFit guardhouse := by
    by_contra hunfit
    obtain ⟨name, -, defect, stop, -, hstop, -⟩ := loadAll_of_exceeds hext hdir
      (fun _ => isPart_of_mem_entryNames hplain) hunfit
    rw [hstop] at htwo
    cases htwo
  have hplain' : alarm.HasPlainNames := by
    show ∀ key ∈ alarm.nodes.keys, '\x00' ∉ key.toList
    decide +kernel
  have hfit' : guardhouseLibrary.EntriesFit alarm := by
    by_contra hunfit
    obtain ⟨name, -, defect, stop, -, hstop, -⟩ := loadAll_of_exceeds hext hreplaced.there
      (fun _ => isPart_of_mem_entryNames hplain') hunfit
    rw [hstop] at hone
    cases hone
  obtain ⟨after, notices, hall, hreplace⟩ := hcounts hfit
  obtain ⟨after', notices', hall', hkept⟩ := hreplace "guard.dlg" alarm hreplaced hfit'
  generalize List.countP _ _ = count at hall
  generalize List.countP _ _ = count' at hall'
  rw [hall] at htwo
  rw [hall'] at hone
  obtain rfl : count = 2 := Option.some.inj htwo
  obtain rfl : count' = 1 := Option.some.inj hone
  exact ⟨after, after', notices, notices', hall, hall', hkept "baker" fun _ => by decide +kernel,
    hfit, hfit'⟩

/-- A gate with a single script. -/
def gate (bytes : List UInt8) : FileTree where
  nodes := OrderedMap.empty.insert "npc.dlg" (.file bytes)

/-- The bytes of a plain text are read as this text. -/
theorem isScriptText_asciiBytes {s : List Char} (hascii : Json.IsAscii s) (hreturn : '\r' ∉ s) :
    Text.IsScriptText (Archive.asciiBytes s) s := by
  refine .inl ⟨s, Json.decodeUtf8_ascii hascii, ?_⟩
  have hmark : Text.withoutMark s = s := by
    cases s with
    | nil => rfl
    | cons c rest =>
      refine if_neg ?_
      rintro rfl
      exact absurd (hascii _ List.mem_cons_self) (by decide)
  rw [hmark, Text.unifyLineEnds_of_notMem hreturn]

theorem plain_of_isDigit {c : Char} (h : c.isDigit = true) : c.toNat < 128 ∧ c ≠ '\r' := by
  simp only [Char.isDigit, Bool.and_eq_true, decide_eq_true_eq, ge_iff_le, UInt32.le_iff_toNat_le]
    at h
  refine ⟨Nat.lt_of_le_of_lt h.2 (by decide), ?_⟩
  rintro rfl
  exact absurd h.1 (by decide)

/-- A price of many zeros is written with plain characters. -/
theorem plain_priceText :
    ∀ c ∈ priceText Text.manyZeros, c.toNat < 128 ∧ c ≠ '\r' := by
  have hzeros : ∀ c ∈ Text.manyZeros, c.isDigit = true :=
    (Text.isDigits_iff.mp (Text.isDigits_paddedDigits Text.digitLimit 0)).2
  have hplain : ∀ s : List Char, s.all (fun c => decide (c.toNat < 128 ∧ c ≠ '\r')) = true →
      ∀ c ∈ s, c.toNat < 128 ∧ c ≠ '\r' := fun s h c hc =>
    of_decide_eq_true (List.all_eq_true.mp h c hc)
  intro c hc
  unfold priceText at hc
  rw [List.mem_append, List.mem_append] at hc
  rcases hc with hc | hc | hc
  · exact hplain "(spend ".toList (by decide) c hc
  · exact plain_of_isDigit (hzeros c hc)
  · exact hplain [')'] (by decide) c hc

theorem read_gate (bytes : List UInt8) :
    (gate bytes).read (Path.join "." "npc.dlg") = .ok bytes := by
  have hname : Path.IsName "npc.dlg" := by
    show ('/' ∉ "npc.dlg".toList ∧ "npc.dlg" ≠ "" ∧ "npc.dlg" ≠ ".") ∧ "npc.dlg" ≠ ".." ∧
      '\x00' ∉ "npc.dlg".toList
    decide
  have htakes : FileTree.Takes "." "npc.dlg" := ⟨by decide, by decide⟩
  have hnode : (gate bytes).nodeAt? ([] ++ ["npc.dlg"]) = some (.file bytes) := by
    have hkey : "/".intercalate ([] ++ ["npc.dlg"]) = "npc.dlg" := by decide
    rw [FileTree.nodeAt?, FileTree.isStart_concat [] hname, hkey]
    exact (OrderedMap.get?_insert ..).trans (if_pos rfl)
  rw [FileTree.read, ((FileTree.home_of_root rfl rfl).seat hname htakes).find, hnode]

theorem names_gate (bytes : List UInt8) : (gate bytes).names "." = ["npc.dlg"] := by
  have hhome : (gate bytes).Home "." [] := FileTree.home_of_root rfl rfl
  have hkeys : (gate bytes).nodes.keys = ["npc.dlg"] := rfl
  rw [FileTree.names, hhome.located, hkeys]
  decide

/-- Loading a directory does not come to its end where a price is written with too many zeros. -/
theorem stops_at_overlong :
    let bytes := Archive.asciiBytes (priceText Text.manyZeros)
    (gate bytes).read "npc.dlg" = .ok bytes ∧
      ∃ stop, guardhouseLibrary.loadAll (gate bytes) = .error stop := by
  intro bytes
  have hpath : Path.join "." "npc.dlg" = "npc.dlg" := by decide
  have hread : (gate bytes).read "npc.dlg" = .ok bytes := hpath ▸ read_gate bytes
  refine ⟨hread, ?_⟩
  have hfile : (gate bytes).Exceeds .standard "npc.dlg" .tooManyDigits :=
    ⟨bytes, _, hread,
      isScriptText_asciiBytes (fun c hc => (plain_priceText c hc).1)
        fun h => (plain_priceText _ h).2 rfl,
      _, parse_manyZeros _ _, rfl, rfl⟩
  generalize bytes = bytes at hfile ⊢
  have hext : guardhouseLibrary.config.HasNameExtension := ⟨by decide +kernel, by decide +kernel⟩
  have hentries : guardhouseLibrary.entryNames (gate bytes) = ["npc.dlg"] := by
    rw [entryNames, show guardhouseLibrary.config.scriptDir = "." from rfl, names_gate]
    decide +kernel
  have hunfit : ¬ guardhouseLibrary.EntriesFit (gate bytes) := fun hfit =>
    hfit "npc.dlg" (hentries ▸ List.mem_cons_self) .tooManyDigits (hpath.symm ▸ hfile)
  have hdir : (gate bytes).isDirectory guardhouseLibrary.config.scriptDir = .ok true := by
    have hhome : (gate bytes).Home "." [] := FileTree.home_of_root rfl rfl
    rw [FileTree.isDirectory, FileTree.find, show guardhouseLibrary.config.scriptDir = "." from rfl,
      hhome.located]
    rfl
  have hnames : ∀ name ∈ guardhouseLibrary.entryNames (gate bytes),
      Path.IsPart name ∧ '\x00' ∉ name.toList := by
    rw [hentries]
    show ∀ name ∈ ["npc.dlg"], ('/' ∉ name.toList ∧ name ≠ "" ∧ name ≠ ".") ∧
      '\x00' ∉ name.toList
    decide +kernel
  obtain ⟨-, -, -, stop, -, hstop, -⟩ := loadAll_of_exceeds hext hdir hnames hunfit
  exact ⟨stop, hstop⟩

end Library

end Parley
