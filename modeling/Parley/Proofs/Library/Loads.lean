import Mathlib.Data.List.Induction
import Parley.Library.Basic
import Parley.Proofs.Library.Writes

/-!
# Loads

A script comes into a library from a text, from a file or together with all files of the directory,
and it may be unreadable, unparsable or refused. We take the loads (`Load`) that an operation makes
apart from what they do to the library, which is the same for all of them. A load whose text exceeds a
limit of the reader is not made: the operation ends there with a fault.

* `Load.exceeds?` and `Load.Fits`: the limit that the text of a load exceeds, and that it exceeds none;
* `Load.entry`: what is kept of a load, the script or what stands in for it, and its error;
* `Library.take`: the library after a load, which by `kept_take` changes the one archetype only;
* `settle_load`, `loadFile_cases`, `loadFiles_eq` and `loadAll_eq`: the operations as loads;
* `Load.lastOf` and `kept_takeAll`: of several loads of an archetype the last one is left.
-/

namespace Parley

/-- What is loaded for an archetype. -/
structure Load where
  archetype : String
  /-- Where the script is read from. -/
  source : String
  /-- The text of the script, or why there is none. -/
  content : Except FileError String

namespace Load

/-- The limit that the text of a load exceeds. -/
def exceeds? (limits : Limits) (load : Load) : Option Defect :=
  match load.content with
  | .error _ => none
  | .ok text =>
    match Script.parse text load.archetype load.source limits with
    | .error e => if e.defect.isLimit then some e.defect else none
    | .ok _ => none

/-- The text of a load exceeds no limit. -/
def Fits (limits : Limits) (load : Load) : Prop :=
  load.exceeds? limits = none

/-- A load that is made, or the fault it ends with. -/
def accept (limits : Limits) (load : Load) : Except LibraryFault Load :=
  match load.exceeds? limits with
  | some defect => .error (.limit defect)
  | none => .ok load

/-- The load of a script file, whose stem names the archetype. A path with a null character is refused
before anything is loaded. -/
def ofFile (limits : Limits) (tree : FileTree) (path : String) : Except LibraryFault Load :=
  match tree.readScript (Path.normalize path) with
  | .error .nullCharacter => .error (.file .nullCharacter)
  | .error e => .ok ⟨Path.stem (Path.normalize path), Path.normalize path, .error e⟩
  | .ok s => accept limits
      ⟨Path.stem (Path.normalize path), Path.normalize path, .ok (String.ofList s)⟩

/-- The loads among answers up to the first fault, and this fault. -/
def untilFault : List (Except LibraryFault Load) → List Load × Option LibraryFault
  | [] => ([], none)
  | .error fault :: _ => ([], some fault)
  | .ok load :: rest => (load :: (untilFault rest).1, (untilFault rest).2)

/-- The loads of script files up to the first fault, and this fault. -/
def fromFiles (limits : Limits) (tree : FileTree) (paths : List String) :
    List Load × Option LibraryFault :=
  untilFault (paths.map (ofFile limits tree))

/-- The script that is loaded, if a library can use it. -/
def check (lib : Library) (load : Load) : Except ParseError Script :=
  match load.content with
  | .error e => .error ⟨load.source, none, .unreadable e.message⟩
  | .ok text => lib.check text load.archetype load.source

/-- What a library keeps of a load: the script, or the one that stands in for it and the error. -/
def entry (lib : Library) (load : Load) : Script × Option ParseError :=
  match load.check lib with
  | .ok script => (script, none)
  | .error e => (lib.fallback load.archetype e, some e)

/-- The last load of an archetype. -/
def lastOf (archetype : String) (loads : List Load) : Option Load :=
  (loads.filter fun load => load.archetype == archetype).getLast?

variable {lib : Library} {load : Load} {archetype : String}

theorem check_text (lib : Library) (archetype source text : String) :
    check lib ⟨archetype, source, .ok text⟩ = lib.check text archetype source := rfl

theorem check_unreadable (lib : Library) (archetype source : String) (e : FileError) :
    check lib ⟨archetype, source, .error e⟩ = .error ⟨source, none, .unreadable e.message⟩ := rfl

/-- Loads are checked against the manifest and under the limits. -/
theorem check_congr {lib' : Library} (hmanifest : lib'.manifest = lib.manifest)
    (hlimits : lib'.limits = lib.limits) : load.check lib' = load.check lib := by
  simp only [check, Library.check, Library.checkWrites, hmanifest, hlimits]

/-- What is kept of a load depends on the settings, the manifest and the limits alone. -/
theorem entry_congr {lib' : Library} (hconfig : lib'.config = lib.config)
    (hmanifest : lib'.manifest = lib.manifest) (hlimits : lib'.limits = lib.limits) :
    load.entry lib' = load.entry lib := by
  simp only [entry, check_congr hmanifest hlimits, Library.fallback, hconfig]

/-- A load is refused for the limit that its text exceeds, and not for its writes. -/
theorem exceeds?_of_check {e : ParseError} (h : load.check lib = .error e) :
    load.exceeds? lib.limits = if e.defect.isLimit then some e.defect else none := by
  rw [check] at h
  rw [exceeds?]
  cases hcontent : load.content with
  | error _ =>
    rw [hcontent] at h
    cases h
    rfl
  | ok text =>
    rw [hcontent] at h
    dsimp only [Library.check] at h ⊢
    cases hparse : Script.parse text load.archetype load.source lib.limits with
    | error e' =>
      rw [hparse] at h
      cases h
      rfl
    | ok script =>
      rw [hparse] at h
      cases hwrites : lib.checkWrites script with
      | ok _ => simp [bind, Except.bind, hwrites] at h
      | error e' =>
        simp only [bind, Except.bind, hwrites, Except.error.injEq] at h
        rw [← h, Library.isLimit_of_checkWrites hwrites]
        rfl

theorem exceeds?_of_check_ok {script : Script} (h : load.check lib = .ok script) :
    load.exceeds? lib.limits = none := by
  rw [check] at h
  rw [exceeds?]
  cases hcontent : load.content with
  | error _ => rfl
  | ok text =>
    rw [hcontent] at h
    dsimp only
    rw [(Library.check_eq_ok_iff.1 h).1]

/-- A text exceeds the limit that it is refused for when it is parsed. -/
theorem exceeds?_text_iff {limits : Limits} {source text : String} {defect : Defect} :
    exceeds? limits ⟨archetype, source, .ok text⟩ = some defect ↔
      ∃ e, Script.parse text archetype source limits = .error e ∧ e.defect.isLimit = true ∧
        defect = e.defect := by
  rw [exceeds?]
  dsimp only
  cases Script.parse text archetype source limits with
  | ok script => simp
  | error e =>
    dsimp only
    constructor
    · intro hsome
      split at hsome
      · next hlimit => exact ⟨e, rfl, hlimit, (Option.some.inj hsome).symm⟩
      · cases hsome
    · rintro ⟨e', he, hlimit, rfl⟩
      obtain rfl := Except.error.inj he
      exact if_pos hlimit

theorem accept_eq_ok_iff {limits : Limits} {admitted : Load} :
    accept limits load = .ok admitted ↔ load.Fits limits ∧ admitted = load := by
  rw [accept, Fits]
  cases load.exceeds? limits <;> simp [eq_comm]

theorem fits_of_ofFile {limits : Limits} {tree : FileTree} {path : String}
    (h : ofFile limits tree path = .ok load) : load.Fits limits := by
  unfold ofFile at h
  generalize Path.stem (Path.normalize path) = archetype at h
  generalize Path.normalize path = source at h
  split at h
  · cases h
  · obtain rfl := Except.ok.inj h
    rfl
  · obtain ⟨hfits, rfl⟩ := accept_eq_ok_iff.1 h
    exact hfits

theorem mem_untilFault {answers : List (Except LibraryFault Load)}
    (h : load ∈ (untilFault answers).1) : .ok load ∈ answers := by
  induction answers with
  | nil => cases h
  | cons answer rest ih =>
    cases answer with
    | error fault => cases h
    | ok first =>
      rcases List.mem_cons.1 h with rfl | hrest
      · exact List.mem_cons_self
      · exact List.mem_cons_of_mem _ (ih hrest)

theorem untilFault_of_fits {limits : Limits} {loads : List Load}
    (h : ∀ load ∈ loads, load.Fits limits) :
    untilFault (loads.map (accept limits)) = (loads, none) := by
  induction loads with
  | nil => rfl
  | cons first rest ih =>
    obtain ⟨hfirst, hrest⟩ := List.forall_mem_cons.1 h
    rw [List.map_cons, accept_eq_ok_iff.2 ⟨hfirst, rfl⟩, untilFault, ih hrest]

/-- Where some load exceeds a limit the first one that does is the fault. -/
theorem untilFault_of_exceeds {limits : Limits} {loads : List Load} {defect : Defect}
    (hload : load ∈ loads) (h : load.exceeds? limits = some defect) :
    ∃ other ∈ loads, ∃ first, other.exceeds? limits = some first ∧
      (untilFault (loads.map (accept limits))).2 = some (.limit first) := by
  induction loads with
  | nil => cases hload
  | cons other rest ih =>
    rw [List.map_cons, accept]
    cases hother : other.exceeds? limits with
    | some first => exact ⟨other, List.mem_cons_self, first, hother, rfl⟩
    | none =>
      rcases List.mem_cons.1 hload with rfl | hrest
      · cases hother.symm.trans h
      · obtain ⟨later, hlater, first, hfirst, hfault⟩ := ih hrest
        exact ⟨later, List.mem_cons_of_mem _ hlater, first, hfirst, hfault⟩

/-- The loads that are made of files fit. -/
theorem fits_of_fromFiles {limits : Limits} {tree : FileTree} {paths : List String}
    (h : load ∈ (fromFiles limits tree paths).1) : load.Fits limits := by
  obtain ⟨path, -, hfile⟩ := List.mem_map.1 (mem_untilFault h)
  exact fits_of_ofFile hfile

/-- A script that can be used is the one that the text writes. -/
theorem script_of_check {script : Script} (h : load.check lib = .ok script) :
    script.archetype = load.archetype ∧ script.disabled = false := by
  rw [check] at h
  split at h
  · cases h
  · obtain ⟨hparse, -⟩ := Library.check_eq_ok_iff.1 h
    obtain ⟨body, -, rfl⟩ := Script.parse_eq_ok.1 hparse
    exact ⟨rfl, rfl⟩

/-- The script that is kept carries the archetype that it was loaded for. -/
theorem entry_archetype (lib : Library) (load : Load) :
    (load.entry lib).1.archetype = load.archetype := by
  rw [entry]
  split
  · next h => exact (script_of_check h).1
  · rfl

/-- The script that is kept is disabled exactly if there is an error. -/
theorem entry_disabled (lib : Library) (load : Load) :
    (load.entry lib).1.disabled = (load.entry lib).2.isSome := by
  rw [entry]
  split
  · next h => exact (script_of_check h).2
  · rfl

@[simp]
theorem lastOf_nil (archetype : String) : lastOf archetype [] = none := rfl

theorem lastOf_concat (archetype : String) (loads : List Load) (load : Load) :
    lastOf archetype (loads ++ [load]) =
      if load.archetype = archetype then some load else lastOf archetype loads := by
  rw [lastOf, lastOf, List.filter_append]
  by_cases h : load.archetype = archetype
  · rw [if_pos h, List.filter_singleton, beq_iff_eq.2 h]
    exact List.getLast?_concat
  · rw [if_neg h, List.filter_singleton, beq_eq_false_iff_ne.2 h]
    exact congrArg List.getLast? (List.append_nil _)

theorem archetype_of_lastOf {loads : List Load} (h : lastOf archetype loads = some load) :
    load.archetype = archetype ∧ load ∈ loads := by
  have hmem := List.mem_of_getLast? h
  exact ⟨beq_iff_eq.1 (List.mem_filter.1 hmem).2, (List.mem_filter.1 hmem).1⟩

end Load

namespace Library

/-- The library after a load. One that ends with a fault leaves it as it was. -/
def take (lib : Library) (load : Load) : Library :=
  match lib.settle load.archetype (load.check lib) with
  | .ok (after, _) => after
  | .error _ => lib

/-- The library after several loads. -/
def takeAll (lib : Library) (loads : List Load) : Library :=
  loads.foldl take lib

/-- What a library has for an archetype: its script and its error. -/
def kept (lib : Library) (archetype : String) : Option Script × Option ParseError :=
  (lib.scripts.get? archetype, lib.errors.get? archetype)

/-- The loads of the script files of the configured directory up to the first fault, and this fault. -/
def directoryLoads (lib : Library) (tree : FileTree) : List Load × Option LibraryFault :=
  match tree.pathExists lib.config.scriptDir with
  | .error e => ([], some (.file e))
  | .ok false => ([], none)
  | .ok true =>
    match lib.scriptFiles tree with
    | .error fault => ([], some fault)
    | .ok paths => Load.fromFiles lib.limits tree paths

/-- The library that an operation on several scripts comes to, and the fault that ends it. -/
def reached {α : Type} : Except Interruption (Library × α) → Library × Option LibraryFault
  | .ok answer => (answer.1, none)
  | .error stop => (stop.library, some stop.fault)

variable {lib : Library} {load : Load}

/-! ## One load -/

theorem take_of_ok {script : Script} (h : load.check lib = .ok script) :
    lib.take load = lib.enable load.archetype script := by
  rw [take, h, settle]

theorem take_of_error {e : ParseError} (h : load.check lib = .error e)
    (hlimit : e.defect.isLimit = false) : lib.take load = lib.disable load.archetype e := by
  rw [take, h, settle, hlimit]
  rfl

/-- What a load that fits is refused for is no limit. -/
theorem isLimit_of_fits {e : ParseError} (h : load.Fits lib.limits)
    (hcheck : load.check lib = .error e) : e.defect.isLimit = false := by
  have hnone := Load.exceeds?_of_check hcheck
  rw [h] at hnone
  split at hnone
  · cases hnone
  · next hlimit => exact Bool.not_eq_true _ ▸ hlimit

/-- A load that fits ends with the library after it and the script that is kept of it. -/
theorem settle_load (h : load.Fits lib.limits) :
    ∃ notices, lib.settle load.archetype (load.check lib) =
      .ok (lib.take load, (load.entry lib).1, notices) := by
  cases hcheck : load.check lib with
  | ok script =>
    rw [take_of_ok hcheck, Load.entry, hcheck]
    exact ⟨_, rfl⟩
  | error e =>
    have hlimit := isLimit_of_fits h hcheck
    rw [take_of_error hcheck hlimit, Load.entry, hcheck, settle, hlimit]
    exact ⟨_, rfl⟩

/-- A load that exceeds a limit ends with a fault. -/
theorem settle_of_exceeds {defect : Defect} (h : load.exceeds? lib.limits = some defect) :
    lib.settle load.archetype (load.check lib) = .error (.limit defect) := by
  cases hcheck : load.check lib with
  | ok script => cases h.symm.trans (Load.exceeds?_of_check_ok hcheck)
  | error e =>
    have hsome := Load.exceeds?_of_check hcheck
    rw [h] at hsome
    split at hsome
    · next hlimit =>
      obtain rfl := Option.some.inj hsome
      rw [settle]
      exact if_pos hlimit
    · cases hsome

/-- A load leaves the library as it was, or puts a script into it, or disables one. -/
theorem take_cases (lib : Library) (load : Load) :
    lib.take load = lib ∨ (∃ script, lib.take load = lib.enable load.archetype script) ∨
      ∃ e, lib.take load = lib.disable load.archetype e := by
  cases h : load.check lib with
  | ok script => exact .inr (.inl ⟨script, take_of_ok h⟩)
  | error e =>
    cases hlimit : e.defect.isLimit with
    | false => exact .inr (.inr ⟨e, take_of_error h hlimit⟩)
    | true =>
      refine .inl ?_
      rw [take, h, settle, hlimit]
      rfl

@[simp]
theorem take_config (lib : Library) (load : Load) : (lib.take load).config = lib.config := by
  rcases lib.take_cases load with h | ⟨script, h⟩ | ⟨e, h⟩ <;> rw [h] <;> rfl

@[simp]
theorem take_manifest (lib : Library) (load : Load) : (lib.take load).manifest = lib.manifest := by
  rcases lib.take_cases load with h | ⟨script, h⟩ | ⟨e, h⟩ <;> rw [h] <;> rfl

@[simp]
theorem take_limits (lib : Library) (load : Load) : (lib.take load).limits = lib.limits := by
  rcases lib.take_cases load with h | ⟨script, h⟩ | ⟨e, h⟩ <;> rw [h] <;> rfl

/-- A load changes what there is for its archetype only. An error that is out of date goes with it. -/
theorem kept_take (h : load.Fits lib.limits) (archetype : String) :
    (lib.take load).kept archetype =
      if archetype = load.archetype then (some (load.entry lib).1, (load.entry lib).2)
      else lib.kept archetype := by
  cases hcheck : load.check lib with
  | ok script =>
    rw [take_of_ok hcheck]
    simp only [Load.entry, enable, kept, hcheck, OrderedMap.get?_insert, OrderedMap.get?_erase]
    split <;> rfl
  | error e =>
    rw [take_of_error hcheck (isLimit_of_fits h hcheck)]
    simp only [Load.entry, disable, kept, hcheck, OrderedMap.get?_insert]
    split <;> rfl

/-! ## The operations as loads -/

/-- A text is loaded, or exceeds a limit. -/
theorem loadString_cases (lib : Library) (text archetype source : String) :
    (∃ fault, lib.loadString text archetype source = .error fault ∧
        Load.accept lib.limits ⟨archetype, source, .ok text⟩ = .error fault) ∨
      ∃ load notices, lib.loadString text archetype source =
          .ok (lib.take load, (load.entry lib).1, notices) ∧
        Load.accept lib.limits ⟨archetype, source, .ok text⟩ = .ok load := by
  rw [loadString, ← Load.check_text, Load.accept]
  cases hexceeds : Load.exceeds? lib.limits ⟨archetype, source, .ok text⟩ with
  | some defect => exact .inl ⟨_, settle_of_exceeds hexceeds, rfl⟩
  | none =>
    obtain ⟨notices, hsettle⟩ := settle_load hexceeds
    exact .inr ⟨_, notices, hsettle, rfl⟩

/-- A text is refused with a fault exactly if it exceeds a limit, which is the fault. -/
theorem loadString_eq_error_iff {text archetype source : String} {fault : LibraryFault} :
    lib.loadString text archetype source = .error fault ↔
      ∃ e, Script.parse text archetype source lib.limits = .error e ∧ e.defect.isLimit = true ∧
        fault = .limit e.defect := by
  rcases lib.loadString_cases text archetype source with ⟨fault', hload, haccept⟩ |
    ⟨load, notices, hload, haccept⟩
  · rw [hload, Except.error.injEq]
    rw [Load.accept] at haccept
    split at haccept
    · next defect hsome =>
      obtain ⟨e, hparse, hlimit, rfl⟩ := Load.exceeds?_text_iff.1 hsome
      obtain rfl := Except.error.inj haccept
      constructor
      · rintro rfl
        exact ⟨e, hparse, hlimit, rfl⟩
      · rintro ⟨e', hparse', -, rfl⟩
        rw [Except.error.inj (hparse.symm.trans hparse')]
    · cases haccept
  · rw [hload]
    refine ⟨nofun, ?_⟩
    rintro ⟨e, hparse, hlimit, rfl⟩
    have hfits := (Load.accept_eq_ok_iff.1 haccept).1
    cases hfits.symm.trans (Load.exceeds?_text_iff.2 ⟨e, hparse, hlimit, rfl⟩)

/-- A script file is loaded, or refused with a fault. -/
theorem loadFile_cases (lib : Library) (tree : FileTree) (path : String) :
    (∃ fault, lib.loadFile tree path = .error fault ∧
        Load.ofFile lib.limits tree path = .error fault) ∨
      ∃ load notices, lib.loadFile tree path = .ok (lib.take load, (load.entry lib).1, notices) ∧
        Load.ofFile lib.limits tree path = .ok load := by
  unfold loadFile Load.ofFile
  dsimp only
  generalize Path.stem (Path.normalize path) = archetype
  generalize Path.normalize path = source
  cases tree.readScript source with
  | ok s => exact lib.loadString_cases (String.ofList s) archetype source
  | error e =>
    obtain ⟨notices, hsettle⟩ :=
      settle_load (show Load.Fits lib.limits ⟨archetype, source, .error e⟩ from rfl)
    rw [Load.check_unreadable] at hsettle
    -- Only a null character in the path is a fault; all else that goes wrong leaves a broken script.
    cases e with
    | nullCharacter => exact .inl ⟨_, rfl, rfl⟩
    | _ => exact .inr ⟨_, notices, hsettle, rfl⟩

/-- A script that is there is not loaded again. -/
theorem get_of_cached {archetype : String} {script : Script}
    (h : lib.scripts.get? archetype = some script) (tree : FileTree) :
    lib.get tree archetype = .ok (lib, some script, []) := by
  unfold get
  rw [h]

/-- A script that is not there is loaded from its file, if there is one. -/
theorem get_of_new {archetype : String} (h : lib.scripts.get? archetype = none) (tree : FileTree) :
    lib.get tree archetype =
      match tree.pathExists (lib.scriptPath archetype) with
      | .error e => .error (.file e)
      | .ok true => (lib.loadFile tree (lib.scriptPath archetype)).map fun loaded =>
          (loaded.1, some loaded.2.1, loaded.2.2)
      | .ok false => .ok (lib, none, [.scriptMissing (lib.scriptPath archetype)]) := by
  unfold get
  rw [h]
  dsimp only
  generalize lib.scriptPath archetype = path
  generalize lib.loadFile tree path = loaded
  cases tree.pathExists path with
  | error e => rfl
  | ok isThere => cases isThere <;> cases loaded <;> rfl

/-- Script files are loaded one after the other, up to the first fault. -/
theorem loadFiles_eq (lib : Library) (tree : FileTree) (paths : List String) :
    reached (lib.loadFiles tree paths) =
      (Load.fromFiles lib.limits tree paths).map lib.takeAll id := by
  induction paths generalizing lib with
  | nil => rfl
  | cons path rest ih =>
    rcases lib.loadFile_cases tree path with ⟨fault, hfile, hload⟩ | ⟨load, notices, hfile, hload⟩
    · rw [loadFiles, Load.fromFiles, List.map_cons, hfile, hload]
      rfl
    · have hfirst : reached (lib.loadFiles tree (path :: rest)) =
          reached ((lib.take load).loadFiles tree rest) := by
        rw [loadFiles, hfile]
        simp only [bind, Except.bind, Except.mapError]
        cases (lib.take load).loadFiles tree rest <;> rfl
      rw [hfirst, ih, take_limits, Load.fromFiles, Load.fromFiles, List.map_cons, hload]
      rfl

/-- Loading everything makes the loads of the directory, up to the first fault. -/
theorem loadAll_eq (lib : Library) (tree : FileTree) :
    reached (lib.loadAll tree) = (lib.directoryLoads tree).map lib.takeAll id := by
  rw [loadAll, directoryLoads]
  cases tree.pathExists lib.config.scriptDir with
  | error e => rfl
  | ok isThere =>
    cases isThere with
    | false => rfl
    | true =>
      cases lib.scriptFiles tree with
      | error fault => rfl
      | ok paths =>
        rw [← loadFiles_eq]
        simp only [bind, Except.bind, Except.mapError, if_true]
        cases lib.loadFiles tree paths <;> rfl

/-! ## Several loads -/

@[simp]
theorem takeAll_config (lib : Library) (loads : List Load) :
    (lib.takeAll loads).config = lib.config := by
  induction loads generalizing lib with
  | nil => rfl
  | cons load rest ih => exact (ih _).trans (lib.take_config load)

@[simp]
theorem takeAll_manifest (lib : Library) (loads : List Load) :
    (lib.takeAll loads).manifest = lib.manifest := by
  induction loads generalizing lib with
  | nil => rfl
  | cons load rest ih => exact (ih _).trans (lib.take_manifest load)

@[simp]
theorem takeAll_limits (lib : Library) (loads : List Load) :
    (lib.takeAll loads).limits = lib.limits := by
  induction loads generalizing lib with
  | nil => rfl
  | cons load rest ih => exact (ih _).trans (lib.take_limits load)

theorem takeAll_append (lib : Library) (loads more : List Load) :
    lib.takeAll (loads ++ more) = (lib.takeAll loads).takeAll more :=
  List.foldl_append

/-- What is kept of a load is the same before and after other loads. -/
theorem entry_takeAll (lib : Library) (loads : List Load) (load : Load) :
    load.entry (lib.takeAll loads) = load.entry lib :=
  Load.entry_congr (lib.takeAll_config loads) (lib.takeAll_manifest loads)
    (lib.takeAll_limits loads)

/-- What there is for an archetype comes from its last load, whatever was loaded before. -/
theorem kept_takeAll {loads : List Load} (h : ∀ load ∈ loads, load.Fits lib.limits)
    (archetype : String) :
    (lib.takeAll loads).kept archetype =
      match Load.lastOf archetype loads with
      | some load => (some (load.entry lib).1, (load.entry lib).2)
      | none => lib.kept archetype := by
  induction loads using List.reverseRecOn with
  | nil => rfl
  | append_singleton loads load ih =>
    have hbefore := ih fun earlier hearlier => h earlier (List.mem_append_left _ hearlier)
    have hlast : load.Fits (lib.takeAll loads).limits := by
      rw [takeAll_limits]
      exact h load (by simp)
    rw [takeAll_append, takeAll, List.foldl_cons, List.foldl_nil, kept_take hlast, hbefore,
      entry_takeAll, Load.lastOf_concat]
    by_cases h : load.archetype = archetype
    · rw [if_pos h, if_pos h.symm]
    · rw [if_neg h, if_neg (Ne.symm h)]

end Library

end Parley
