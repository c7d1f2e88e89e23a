import Parley.Library.Verify
import Parley.Proofs.Library.History
import Parley.Proofs.Library.Lint

/-!
# The Verdict on a Directory

The verifier loads the scripts of a directory and has lint look at all of them. What it comes to is
settled by the loads alone, one by one:

* `Library.anyError_lint_iff`: lint finds an error if it finds one for an archetype;
* `Load.IsClean` and `Library.IsNew.reportScripts_takeAll`: where all loads are of different
  archetypes, the exit code is 0 if every one of them is clean, and 1 if not;
* `verifyScripts_eq`: the exit code is the one of the library after the loads of the directory, and
  the only faults come from looking for files, from scripts that exceed a limit and from a token that
  is left out;
* `verifyScripts_error_congr`: the manifest has no part in those faults;
* `verify_of_error` and `verify_of_ok`: what the manifest file decides before that.
-/

namespace Parley

/-- What is loaded from a directory is settled by the settings and the limits. -/
theorem Library.directoryLoads_congr {lib lib' : Library} (hconfig : lib'.config = lib.config)
    (hlimits : lib'.limits = lib.limits) (tree : FileTree) :
    lib'.directoryLoads tree = lib.directoryLoads tree := by
  simp only [directoryLoads, scriptFiles, filePattern?, hconfig, hlimits]

theorem reportScripts_code (lib : Library) (known : List String) :
    (reportScripts lib known).1 = if Issue.anyError (lib.lint known) then 1 else 0 := by
  unfold reportScripts
  dsimp only
  split <;> rfl

/-! ## Errors among issues -/

theorem Issue.anyError_iff {issues : List Issue} :
    anyError issues = true ↔ ∃ i ∈ issues, i.severity = .error := by
  simp only [anyError, List.any_eq_true, beq_iff_eq]

theorem Issue.anyError_eq_false_iff {issues : List Issue} :
    anyError issues = false ↔ ∀ i ∈ issues, i.severity ≠ .error := by
  simp only [← Bool.not_eq_true, anyError_iff, not_exists, not_and, Ne]

namespace Library

theorem insertSorted_perm (name : String) (names : List String) :
    (insertSorted name names).Perm (name :: names) := by
  induction names with
  | nil => exact List.Perm.refl _
  | cons n rest ih =>
    rw [insertSorted]
    split
    · exact (ih.cons n).trans (List.Perm.swap name n rest)
    · exact List.Perm.refl _

theorem sortNames_perm (names : List String) : (sortNames names).Perm names := by
  induction names with
  | nil => exact List.Perm.refl _
  | cons name rest ih => exact (insertSorted_perm name _).trans (ih.cons name)

/-- The archetypes of a library are those that it has a script for. -/
theorem mem_archetypes_iff {lib : Library} {archetype : String} :
    archetype ∈ lib.archetypes ↔ lib.contains archetype = true := by
  rw [archetypes, (sortNames_perm _).mem_iff, contains, OrderedMap.contains, List.contains_iff_mem]

/-- Lint finds an error if there is one for an archetype. -/
theorem anyError_lint_iff {lib : Library} {known : List String} :
    Issue.anyError (lib.lint known) = true ↔
      ∃ archetype, lib.contains archetype = true ∧
        Issue.anyError (lib.lintArchetype known archetype) = true := by
  simp only [lint, Issue.anyError_iff, List.mem_flatMap, mem_archetypes_iff]
  constructor
  · rintro ⟨i, ⟨archetype, hthere, hi⟩, herror⟩
    exact ⟨archetype, hthere, i, hi, herror⟩
  · rintro ⟨archetype, hthere, i, hi, herror⟩
    exact ⟨i, ⟨archetype, hthere, hi⟩, herror⟩

end Library

namespace Load

variable {lib : Library} {loads : List Load} {load : Load} {known : List String}

/-- A load gives a script that can be used and in which lint finds no error. -/
def IsClean (lib : Library) (known : List String) (load : Load) : Prop :=
  ∃ script, load.check lib = .ok script ∧
    Issue.anyError (Lint.script lib.manifest known script) = false

/-- Of loads of different archetypes each is the last one of its own. -/
theorem lastOf_of_nodup (hnodup : (loads.map Load.archetype).Nodup) (hload : load ∈ loads) :
    lastOf load.archetype loads = some load := by
  induction loads using List.reverseRecOn with
  | nil => cases hload
  | append_singleton rest last ih =>
    rw [lastOf_concat]
    rw [List.map_append, List.nodup_append] at hnodup
    obtain ⟨hrest, -, hapart⟩ := hnodup
    rcases List.mem_append.1 hload with hbefore | hlast
    · have hne : load.archetype ≠ last.archetype :=
        hapart _ (List.mem_map_of_mem hbefore) _ (by simp)
      rw [if_neg (Ne.symm hne)]
      exact ih hrest hbefore
    · obtain rfl := List.mem_singleton.1 hlast
      rw [if_pos rfl]

end Load

namespace Library

variable {lib : Library} {loads : List Load} {known : List String}

/-- The archetypes of loads are there after them. -/
theorem IsNew.contains_takeAll (h : lib.IsNew) (hfits : ∀ load ∈ loads, load.Fits lib.limits)
    (archetype : String) :
    (lib.takeAll loads).contains archetype = true ↔ ∃ load ∈ loads, load.archetype = archetype := by
  rw [contains, OrderedMap.contains_eq_isSome, h.get?_takeAll hfits, Option.isSome_map]
  constructor
  · intro hsome
    obtain ⟨load, hlast⟩ := Option.isSome_iff_exists.1 hsome
    obtain ⟨harchetype, hload⟩ := Load.archetype_of_lastOf hlast
    exact ⟨load, hload, harchetype⟩
  · rintro ⟨load, hload, harchetype⟩
    rw [Option.isSome_iff_ne_none, Load.lastOf, Ne, List.getLast?_eq_none_iff]
    exact List.ne_nil_of_mem (List.mem_filter.2 ⟨hload, beq_iff_eq.2 harchetype⟩)

/-- Lint finds an error for the archetype of a load, unless the last load of it is clean. -/
theorem IsNew.anyError_lintArchetype (h : lib.IsNew)
    (hfits : ∀ load ∈ loads, load.Fits lib.limits) {load : Load}
    (hlast : Load.lastOf load.archetype loads = some load) :
    Issue.anyError ((lib.takeAll loads).lintArchetype known load.archetype) = false ↔
      load.IsClean lib known := by
  have hkept := h.kept_takeAll hfits load.archetype
  rw [hlast, keptOf, kept, Prod.mk.injEq] at hkept
  rw [lintArchetype, hkept.1, hkept.2, takeAll_manifest, Load.IsClean, Load.entry]
  cases load.check lib with
  | ok script => simp
  -- What stands in for a broken script is not looked at; its error is reported.
  | error e => simp [Issue.anyError, Issue.severity, IssueCause.severity]

/-- After loads of different archetypes the exit code is 0 exactly if all of them are clean. -/
theorem IsNew.reportScripts_takeAll (h : lib.IsNew) (hfits : ∀ load ∈ loads, load.Fits lib.limits)
    (hnodup : (loads.map Load.archetype).Nodup) (known : List String) :
    ((∀ load ∈ loads, load.IsClean lib known) → (reportScripts (lib.takeAll loads) known).1 = 0) ∧
      ((¬ ∀ load ∈ loads, load.IsClean lib known) →
        (reportScripts (lib.takeAll loads) known).1 = 1) := by
  -- Each archetype has one load, which is its last one, and lint goes over all archetypes.
  have herror : Issue.anyError ((lib.takeAll loads).lint known) = false ↔
      ∀ load ∈ loads, load.IsClean lib known := by
    rw [← Bool.not_eq_true, anyError_lint_iff, not_exists]
    constructor
    · intro hnone load hload
      rw [← h.anyError_lintArchetype hfits (Load.lastOf_of_nodup hnodup hload), ← Bool.not_eq_true]
      exact fun hany => hnone load.archetype
        ⟨(h.contains_takeAll hfits _).2 ⟨load, hload, rfl⟩, hany⟩
    · rintro hclean archetype ⟨hthere, hany⟩
      obtain ⟨load, hload, rfl⟩ := (h.contains_takeAll hfits archetype).1 hthere
      have hgood := (h.anyError_lintArchetype hfits (Load.lastOf_of_nodup hnodup hload)).2
        (hclean load hload)
      cases hgood.symm.trans hany
  rw [reportScripts_code]
  constructor
  · intro hclean
    rw [herror.2 hclean]
    rfl
  · intro hunclean
    rw [if_pos]
    rwa [← Bool.not_eq_false, herror]

end Library

section Scripts

variable {tree : FileTree} {config : Config} {m : Manifest} {tokens : List (Option String)}
  {limits : Limits}

/-- Scripts are verified by loading the directory and reporting on what is there then. -/
theorem verifyScripts_eq (tree : FileTree) (config : Config) (m : Manifest)
    (tokens : List (Option String)) (limits : Limits) :
    (verifyScripts tree config m tokens limits).map Prod.fst =
      match ({ config, manifest := m, limits } : Library).directoryLoads tree with
      | (_, some fault) => .error (.library fault)
      | (loads, none) =>
        if tokens.contains none then .error .noToken
        else .ok (reportScripts (({ config, manifest := m, limits } : Library).takeAll loads)
          (LoreContext.knownTokens (tokens.filterMap id))).1 := by
  have hreached := ({ config, manifest := m, limits } : Library).loadAll_eq tree
  rw [verifyScripts]
  generalize ({ config, manifest := m, limits } : Library).directoryLoads tree = made at hreached ⊢
  obtain ⟨loads, ending⟩ := made
  cases hall : ({ config, manifest := m, limits } : Library).loadAll tree with
  | error stop =>
    rw [hall] at hreached
    obtain ⟨-, rfl⟩ := Prod.mk.inj hreached
    rfl
  | ok answer =>
    obtain ⟨lib, loaded, notices⟩ := answer
    rw [hall] at hreached
    obtain ⟨rfl, rfl⟩ := Prod.mk.inj hreached
    dsimp only
    split <;> rfl

/-- The manifest has no part in the faults that end the verification of scripts. -/
theorem verifyScripts_error_congr {fault : VerifyFault}
    (h : verifyScripts tree config m tokens limits = .error fault) (m' : Manifest) :
    verifyScripts tree config m' tokens limits = .error fault := by
  have hcode := verifyScripts_eq tree config m tokens limits
  have hcode' := verifyScripts_eq tree config m' tokens limits
  have hloads : ({ config, manifest := m', limits } : Library).directoryLoads tree =
      ({ config, manifest := m, limits } : Library).directoryLoads tree :=
    Library.directoryLoads_congr rfl rfl tree
  -- Both sides come to the same fault before a report is made.
  have hfault : (verifyScripts tree config m' tokens limits).map Prod.fst = .error fault := by
    rw [hcode', hloads]
    rw [h] at hcode
    split at hcode
    · exact hcode.symm
    · split at hcode
      · next htokens =>
        rw [if_pos htokens]
        exact hcode.symm
      · cases hcode
  cases hscripts : verifyScripts tree config m' tokens limits with
  | error fault' =>
    rw [hscripts] at hfault
    exact congrArg Except.error (Except.error.inj hfault)
  | ok answer =>
    rw [hscripts] at hfault
    cases hfault

end Scripts

section Verify

variable {tree : FileTree} {o : VerifyOptions} {limits : Limits} {schemas : SchemaChecker}

/-- The manifest in a file is made of the document that its text writes. -/
theorem load_of_readText {path : String} {text : List Char} {document : Json}
    (htext : tree.readText path = .ok text) (hdocument : Json.ofText text limits = .ok document) :
    Manifest.load tree path limits schemas =
      (Manifest.ofJson document schemas).mapError .manifest := by
  rw [Manifest.load, FileTree.readJson, htext]
  dsimp only
  rw [hdocument]
  rfl

/-- A verification with a manifest ends as the one of the scripts. -/
theorem verify_of_ok {m : Manifest}
    (h : Manifest.load tree o.config.manifestPath limits schemas = .ok m) :
    (verify tree o limits schemas).1 =
      match verifyScripts tree o.config m o.tokens limits with
      | .error fault => .crash fault
      | .ok answer => .exit answer.1 := by
  rw [verify, h]
  dsimp only
  cases verifyScripts tree o.config m o.tokens limits <;> rfl

end Verify

end Parley
