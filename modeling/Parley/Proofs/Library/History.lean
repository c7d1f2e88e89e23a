import Parley.Proofs.Library.Loads
import Parley.Proofs.Script.Layout

/-!
# The History of a Library

A library is changed by loading texts, files and the whole directory, and by asking for scripts that
are not there yet. Whatever was called before, and however the files changed meanwhile, all that can
be seen of an archetype comes from its last load. A load whose text exceeds a limit of the reader is
none: the call ends with a fault, and the archetype keeps what it had.

* `Library.after`: a library after a history of calls;
* `Library.loadsOf`: the loads that were made in a history;
* `after_eq_takeAll`: the history left what these loads leave;
* `kept_of_last_load`: for each archetype that is the script and the error of its last load, and
  there is an error exactly if the script is disabled;
* `keeps_after_overlong`: a text with an amount of too many digits leaves the entry that was there.
-/

namespace Parley

namespace Library

/-- A call that can change a library. -/
inductive Call
  | loadString (text archetype source : String)
  | loadFile (path : String)
  | loadAll
  | get (archetype : String)

/-- The library after an operation on a single script, which a fault leaves as it was. -/
def settled {α : Type} (lib : Library) : Except LibraryFault (Library × α) → Library
  | .ok answer => answer.1
  | .error _ => lib

/-- The library after a call. One that ends with a fault leaves what was loaded before. -/
def perform (lib : Library) (tree : FileTree) : Call → Library
  | .loadString text archetype source => lib.settled (lib.loadString text archetype source)
  | .loadFile path => lib.settled (lib.loadFile tree path)
  | .loadAll => (reached (lib.loadAll tree)).1
  | .get archetype => lib.settled (lib.get tree archetype)

/-- A library after calls in order, each with the files that there were at the time. -/
def after (lib : Library) : List (FileTree × Call) → Library
  | [] => lib
  | (tree, call) :: rest => after (lib.perform tree call) rest

/-- The loads that a call makes when others were made before. A script that is asked for is loaded if
its archetype has not been loaded and there is a file for it. -/
def callLoads (lib : Library) (before : List Load) (tree : FileTree) : Call → List Load
  | .loadString text archetype source =>
    (Load.accept lib.limits ⟨archetype, source, .ok text⟩).toOption.toList
  | .loadFile path => (Load.ofFile lib.limits tree path).toOption.toList
  | .loadAll => (lib.directoryLoads tree).1
  | .get archetype =>
    if (Load.lastOf archetype before).isSome then []
    else
      match tree.pathExists (lib.scriptPath archetype) with
      | .ok true => (Load.ofFile lib.limits tree (lib.scriptPath archetype)).toOption.toList
      | _ => []

/-- The loads that calls make in order, behind those that were made before. -/
def loadsOf (lib : Library) (before : List Load) : List (FileTree × Call) → List Load
  | [] => before
  | (tree, call) :: rest => loadsOf lib (before ++ lib.callLoads before tree call) rest

/-- What is left for an archetype whose last load is known: nothing if there was none. -/
def keptOf (lib : Library) : Option Load → Option Script × Option ParseError
  | some load => (some (load.entry lib).1, (load.entry lib).2)
  | none => (none, none)

/-- A library without scripts and errors, in which nothing was loaded. -/
structure IsNew (lib : Library) : Prop where
  scripts : lib.scripts = .empty
  errors : lib.errors = .empty

variable {lib : Library}

theorem IsNew.kept_takeAll (h : lib.IsNew) {loads : List Load}
    (hfits : ∀ load ∈ loads, load.Fits lib.limits) (archetype : String) :
    (lib.takeAll loads).kept archetype = lib.keptOf (Load.lastOf archetype loads) := by
  rw [Library.kept_takeAll hfits]
  cases Load.lastOf archetype loads with
  | some load => rfl
  | none => rw [kept, h.scripts, h.errors]; rfl

/-- A script is there exactly if there was a load of its archetype. -/
theorem IsNew.get?_takeAll (h : lib.IsNew) {loads : List Load}
    (hfits : ∀ load ∈ loads, load.Fits lib.limits) (archetype : String) :
    (lib.takeAll loads).scripts.get? archetype =
      (Load.lastOf archetype loads).map fun load => (load.entry lib).1 := by
  have hkept : ((lib.takeAll loads).kept archetype).1 =
      (lib.keptOf (Load.lastOf archetype loads)).1 := by rw [h.kept_takeAll hfits]
  cases hlast : Load.lastOf archetype loads <;> rw [hlast] at hkept <;> exact hkept

/-- The loads of a directory fit. -/
theorem fits_of_directoryLoads (tree : FileTree) {load : Load}
    (h : load ∈ (lib.directoryLoads tree).1) : load.Fits lib.limits := by
  rw [directoryLoads] at h
  split at h
  · cases h
  · cases h
  · split at h
    · cases h
    · exact Load.fits_of_fromFiles h

/-- The loads of a call fit. -/
theorem fits_of_callLoads {before : List Load} {tree : FileTree} {call : Call} {load : Load}
    (h : load ∈ lib.callLoads before tree call) : load.Fits lib.limits := by
  have hfile : ∀ path, load ∈ (Load.ofFile lib.limits tree path).toOption.toList →
      load.Fits lib.limits := by
    intro path hload
    exact Load.fits_of_ofFile (eq_ok_of_toOption (Option.mem_toList.1 hload))
  cases call with
  | loadString text archetype source =>
    obtain ⟨hfits, rfl⟩ := Load.accept_eq_ok_iff.1
      (eq_ok_of_toOption (Option.mem_toList.1 h))
    exact hfits
  | loadFile path => exact hfile path h
  | loadAll => exact fits_of_directoryLoads tree h
  | get archetype =>
    rw [callLoads] at h
    split at h
    · cases h
    · split at h
      · exact hfile _ h
      · cases h

/-- The loads of a history fit. -/
theorem fits_of_loadsOf {before : List Load} (hbefore : ∀ load ∈ before, load.Fits lib.limits)
    (calls : List (FileTree × Call)) :
    ∀ load ∈ lib.loadsOf before calls, load.Fits lib.limits := by
  induction calls generalizing before with
  | nil => exact hbefore
  | cons first rest ih =>
    refine ih fun load hload => ?_
    rcases List.mem_append.1 hload with hold | hnew
    · exact hbefore load hold
    · exact fits_of_callLoads hnew

/-- A call leaves what its loads leave. -/
theorem IsNew.perform_eq (h : lib.IsNew) {loads : List Load}
    (hfits : ∀ load ∈ loads, load.Fits lib.limits) (tree : FileTree) (call : Call) :
    (lib.takeAll loads).perform tree call =
      lib.takeAll (loads ++ lib.callLoads loads tree call) := by
  rw [takeAll_append]
  -- Paths and checks depend on what the library has been from the start.
  have hconfig : (lib.takeAll loads).config = lib.config := lib.takeAll_config loads
  have hlimits : (lib.takeAll loads).limits = lib.limits := lib.takeAll_limits loads
  have hfile : ∀ path, (lib.takeAll loads).settled ((lib.takeAll loads).loadFile tree path) =
      (lib.takeAll loads).takeAll (Load.ofFile lib.limits tree path).toOption.toList := by
    intro path
    rcases (lib.takeAll loads).loadFile_cases tree path with ⟨fault, hloaded, hload⟩ |
      ⟨load, notices, hloaded, hload⟩ <;> rw [← hlimits, hloaded, hload] <;> rfl
  cases call with
  | loadString text archetype source =>
    rw [perform, callLoads]
    rcases (lib.takeAll loads).loadString_cases text archetype source with
      ⟨fault, hloaded, hload⟩ | ⟨load, notices, hloaded, hload⟩ <;>
        rw [← hlimits, hloaded, hload] <;> rfl
  | loadFile path => exact hfile path
  | loadAll =>
    have hloads : (lib.takeAll loads).directoryLoads tree = lib.directoryLoads tree := by
      simp only [directoryLoads, scriptFiles, filePattern?, hconfig, hlimits]
    rw [perform, callLoads, loadAll_eq, hloads]
    rfl
  | get archetype =>
    have hpath : (lib.takeAll loads).scriptPath archetype = lib.scriptPath archetype := by
      simp only [scriptPath, hconfig]
    have hscript := h.get?_takeAll hfits archetype
    rw [perform, callLoads]
    cases hlast : Load.lastOf archetype loads with
    | some load =>
      rw [hlast] at hscript
      rw [get_of_cached hscript]
      rfl
    | none =>
      rw [hlast] at hscript
      rw [get_of_new hscript, hpath]
      have hloaded := hfile (lib.scriptPath archetype)
      simp only [Option.isSome_none, Bool.false_eq_true, if_false]
      cases tree.pathExists (lib.scriptPath archetype) with
      | error e => rfl
      | ok isThere =>
        cases isThere with
        | false => rfl
        | true =>
          dsimp only
          rw [← hloaded]
          generalize (lib.takeAll loads).loadFile tree (lib.scriptPath archetype) = answer
          cases answer <;> rfl

/-- A history of calls leaves what the loads leave that were made in it. -/
theorem IsNew.after_eq_takeAll (h : lib.IsNew) {loads : List Load}
    (hfits : ∀ load ∈ loads, load.Fits lib.limits) (calls : List (FileTree × Call)) :
    (lib.takeAll loads).after calls = lib.takeAll (lib.loadsOf loads calls) := by
  induction calls generalizing loads with
  | nil => rfl
  | cons first rest ih =>
    obtain ⟨tree, call⟩ := first
    rw [after, loadsOf, h.perform_eq hfits]
    refine ih fun load hload => ?_
    rcases List.mem_append.1 hload with hold | hnew
    · exact hfits load hold
    · exact fits_of_callLoads hnew

/-- After any history of calls an archetype has what its last load leaves. -/
theorem IsNew.kept_after (h : lib.IsNew) (calls : List (FileTree × Call)) (archetype : String) :
    (lib.after calls).kept archetype =
      lib.keptOf (Load.lastOf archetype (lib.loadsOf [] calls)) := by
  have hnone : ∀ load ∈ ([] : List Load), load.Fits lib.limits := List.forall_mem_nil _
  rw [← h.kept_takeAll (fits_of_loadsOf hnone calls), ← h.after_eq_takeAll hnone]
  rfl

theorem after_append (lib : Library) (calls more : List (FileTree × Call)) :
    lib.after (calls ++ more) = (lib.after calls).after more := by
  induction calls generalizing lib with
  | nil => rfl
  | cons first rest ih => exact ih (lib.perform first.1 first.2)

theorem IsNew.limits_after (h : lib.IsNew) (calls : List (FileTree × Call)) :
    (lib.after calls).limits = lib.limits := by
  have hnone : ∀ load ∈ ([] : List Load), load.Fits lib.limits := List.forall_mem_nil _
  have hloads : lib.after calls = _ := h.after_eq_takeAll hnone calls
  rw [hloads, takeAll_limits]

/-- What a load leaves is disabled exactly if there is an error, and carries its archetype. -/
theorem keptOf_lastOf (lib : Library) (loads : List Load) (archetype : String) :
    ((lib.keptOf (Load.lastOf archetype loads)).2.isSome = true ↔
      ∃ script, (lib.keptOf (Load.lastOf archetype loads)).1 = some script ∧
        script.disabled = true) ∧
    ∀ script, (lib.keptOf (Load.lastOf archetype loads)).1 = some script →
      script.archetype = archetype := by
  cases hlast : Load.lastOf archetype loads with
  | none => exact ⟨by simp [keptOf], nofun⟩
  | some load =>
    rw [keptOf, ← Load.entry_disabled]
    refine ⟨by simp, ?_⟩
    rintro _ ⟨⟩
    exact (Load.entry_archetype lib load).trans (Load.archetype_of_lastOf hlast).1

/-- Every script carries the archetype that it is kept under. -/
def IsKeyed (lib : Library) : Prop :=
  ∀ archetype script, lib.scripts.get? archetype = some script → script.archetype = archetype

/-- Scripts carry their archetypes after any history of calls. -/
theorem IsNew.isKeyed_after (h : lib.IsNew) (calls : List (FileTree × Call)) :
    (lib.after calls).IsKeyed := by
  intro archetype script hscript
  refine (keptOf_lastOf lib (lib.loadsOf [] calls) archetype).2 script ?_
  rw [← h.kept_after]
  exact hscript

/-- A library is consistent after any history of calls. An archetype has an error exactly if its
script is disabled, and every script carries the archetype that it is kept under. Script and error
of an archetype are those of its last load (none if there was none): they are made of its text, or
the reason why it could not be read, and its source, under the settings, the manifest and the limits,
and nothing that was loaded before leaves a trace. A text that exceeds a limit is not loaded: loading
it ends with a fault, and no other text does. -/
theorem kept_of_last_load (config : Config) (manifest : Manifest) (limits : Limits)
    (calls : List (FileTree × Call)) :
    let lib : Library := { config, manifest, limits }
    let now := lib.after calls
    (∀ archetype, now.isDisabled archetype = true ↔
      ∃ script, now.scripts.get? archetype = some script ∧ script.disabled = true) ∧
    now.IsKeyed ∧
    (∀ archetype, now.kept archetype =
      lib.keptOf (Load.lastOf archetype (lib.loadsOf [] calls))) ∧
    ∀ text archetype source fault, now.loadString text archetype source = .error fault ↔
      ∃ e, Script.parse text archetype source limits = .error e ∧ e.defect.isLimit = true ∧
        fault = .limit e.defect := by
  intro lib now
  have hnew : lib.IsNew := ⟨rfl, rfl⟩
  refine ⟨fun archetype => ?_, hnew.isKeyed_after calls, hnew.kept_after calls,
    fun text archetype source fault => ?_⟩
  · have hlast := (keptOf_lastOf lib (lib.loadsOf [] calls) archetype).1
    rw [← hnew.kept_after] at hlast
    rw [isDisabled, OrderedMap.contains_eq_isSome]
    exact hlast
  · have hlimits : now.limits = limits := hnew.limits_after calls
    rw [loadString_eq_error_iff, hlimits]

/-- A price of many zeros has too many digits to be parsed. -/
theorem parse_manyZeros (archetype source : String) :
    Script.parse (String.ofList (priceText Text.manyZeros)) archetype source =
      .error ⟨source, some ⟨1, 8⟩, .tooManyDigits⟩ := by
  have hread := Datum.read_priceText Text.isNumeral_manyZeros Text.isOverlong_manyZeros
  rw [Script.parse, Script.parseBody, hread]
  rfl

/-- Hence the last text that is given for an archetype does not settle what there is for it: after the
same call there is a script if there was one before, and nothing if not. -/
theorem keeps_after_overlong :
    let lib : Library := { config := {}, manifest := .empty }
    let halt : FileTree × Call := ({}, .loadString "(say \"Halt.\")" "guard" "<string>")
    let toll : FileTree × Call :=
      ({}, .loadString (String.ofList (priceText Text.manyZeros)) "guard" "<string>")
    ((lib.after [halt, toll]).contains "guard" = true ∧
        (lib.after [halt, toll]).isDisabled "guard" = false) ∧
      (lib.after [toll]).contains "guard" = false := by
  intro lib halt toll
  have hfault : ∀ now : Library, now.limits = .standard → now.after [toll] = now := by
    intro now hlimits
    have hload : now.loadString (String.ofList (priceText Text.manyZeros)) "guard" "<string>" =
        .error (.limit .tooManyDigits) := by
      rw [loadString_eq_error_iff, hlimits]
      exact ⟨_, parse_manyZeros "guard" "<string>", rfl, rfl⟩
    rw [after, after, perform, hload]
    rfl
  have hhalt : (lib.after [halt]).contains "guard" = true ∧
      (lib.after [halt]).isDisabled "guard" = false := by decide +kernel
  have hnew : lib.IsNew := ⟨rfl, rfl⟩
  have hboth : lib.after [halt, toll] = (lib.after [halt]).after [toll] :=
    lib.after_append [halt] [toll]
  rw [hboth, hfault _ (hnew.limits_after [halt]), hfault lib rfl]
  exact ⟨hhalt, rfl⟩

-- A text that cannot be parsed leaves nothing behind once a better one is loaded.
example : (({ config := {}, manifest := .empty } : Library).after
    [({}, .loadString "(say" "bard" "<string>"),
      ({}, .loadString "(say \"La la.\")" "bard" "<string>")]).isDisabled "bard" = false := by
  decide +kernel

end Library

end Parley
