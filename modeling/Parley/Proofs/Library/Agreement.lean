import Parley.Proofs.Library.Verification

/-!
# The Check of Writes and Lint

What a script may write is looked at twice: by the check of writes, which stops at the first bad write
when a script is loaded, and by lint, which goes on and reports each bad write once, among other
issues. Both go over the statements in the same order, so that they have to agree:

* `IssueCause.refusal?`: the defect that a script is refused for where lint reports a cause;
* `Lint.find?_statement` and `Lint.find?_findings`: the first bad write of a statement, and of all;
* `Library.checkWrites_eq_error_iff`: a script is refused for the first write that lint reports;
* `Library.checkWrites_agrees_with_lint`: so lint reports no write of a script that is in use.
-/

namespace Parley

namespace IssueCause

/-- The defect that a script is refused for where lint reports a write. -/
def refusal? : IssueCause → Option Defect
  | .undeclaredSet name => some (.undeclaredSet name)
  | .wrongLiteral name declared literal => some (.wrongLiteral name declared literal)
  | _ => none

theorem isSome_refusal? (cause : IssueCause) : cause.refusal?.isSome = cause.isWrite := by
  cases cause <;> rfl

/-- Every write that is reported is one to refuse a script for. -/
theorem exists_refusal? {cause : IssueCause} (h : cause.isWrite = true) :
    ∃ defect, cause.refusal? = some defect := by
  rwa [← Option.isSome_iff_exists, isSome_refusal?]

end IssueCause

/-- What is met first is the same if what was met before is left out. -/
theorem find?_eraseDups {α : Type} [BEq α] [LawfulBEq α] (p : α → Bool) :
    ∀ l : List α, l.eraseDups.find? p = l.find? p
  | [] => rfl
  | a :: rest => by
    have hshorter : (rest.filter fun b => !b == a).length < rest.length + 1 :=
      Nat.lt_succ_of_le (List.length_filter_le _ _)
    rw [List.eraseDups_cons, List.find?_cons, List.find?_cons]
    cases ha : p a with
    | true => rfl
    | false =>
      -- The copies of what was passed would be passed as well.
      have hcopies : (fun b => decide ((!b == a) = true ∧ p b = true)) = p := by
        funext b
        by_cases hb : b = a
        · simp [hb, ha]
        · simp [hb]
      rw [find?_eraseDups p (rest.filter fun b => !b == a), List.find?_filter, hcopies]
termination_by l => l.length

namespace Lint

variable {m : Manifest} {known : List String} {name : String} {value : Expr} {cause : IssueCause}

theorem isWrite_of_write? (h : write? m name value = some cause) : cause.isWrite = true := by
  rw [write?.eq_def] at h
  split at h
  · cases h
    rfl
  · split at h
    · cases h
    · cases h
      rfl
  · cases h

/-- The rule for a single write is the same in both places. -/
theorem badWrite?_eq_refusal (m : Manifest) (name : String) (value : Expr) :
    Library.badWrite? m (.assign name value) = (write? m name value).bind IssueCause.refusal? := by
  rw [Library.badWrite?.eq_def, write?.eq_def]
  dsimp only
  cases m.get? name with
  | none => rfl
  | some d =>
    cases value with
    | literal v =>
      dsimp only
      split <;> rfl
    | _ => rfl

/-- The writes among the causes of a statement are those of its own assignment. -/
theorem write?_of_mem_statement {s : Statement} (h : cause ∈ statement m known s)
    (hwrite : cause.isWrite = true) :
    ∃ name value, s = .assign name value ∧ write? m name value = some cause := by
  rcases cases_of_mem_statement h with ⟨phrase, -, hunknown⟩ | ⟨name, rfl⟩ | hassign
  · obtain ⟨text, -, htoken⟩ := List.mem_flatMap.1 hunknown
    obtain ⟨token, -, rfl⟩ := List.mem_map.1 htoken
    cases hwrite
  · cases hwrite
  · exact hassign

/-- A statement makes a bad write exactly if lint reports one, for the same reason. -/
theorem find?_statement (m : Manifest) (known : List String) (s : Statement) :
    ((statement m known s).find? (·.isWrite)).bind IssueCause.refusal? = Library.badWrite? m s := by
  cases hfound : (statement m known s).find? (·.isWrite) with
  | some cause =>
    obtain ⟨name, value, rfl, hwrite⟩ := write?_of_mem_statement (List.mem_of_find?_eq_some hfound)
      (List.find?_some hfound)
    rw [badWrite?_eq_refusal, hwrite]
  | none =>
    cases s with
    | assign name value =>
      rw [List.find?_eq_none] at hfound
      cases hwrite : write? m name value with
      | none => rw [badWrite?_eq_refusal, hwrite]
      | some cause =>
        have hcause : cause ∈ statement m known (.assign name value) :=
          List.mem_append.2 (.inr (Option.mem_toList.2 hwrite))
        exact absurd (isWrite_of_write? hwrite) (hfound cause hcause)
    | _ => rfl

/-- The first bad write of several statements is the first one that lint reports. -/
theorem find?_findings (m : Manifest) (known : List String) (statements : List Statement) :
    ((statements.flatMap (statement m known)).find? (·.isWrite)).bind IssueCause.refusal? =
      statements.findSome? (Library.badWrite? m) := by
  induction statements with
  | nil => rfl
  | cons s rest ih =>
    rw [List.flatMap_cons, List.find?_append, List.findSome?_cons, ← find?_statement m known s]
    cases hfound : (statement m known s).find? (·.isWrite) with
    | none => exact ih
    | some cause =>
      obtain ⟨defect, hdefect⟩ := IssueCause.exists_refusal? (List.find?_some hfound)
      rw [Option.some_or, Option.bind_some, hdefect]

/-- The first write that lint reports of a script is the first one that it finds. -/
theorem find?_script (m : Manifest) (known : List String) (script : Script) :
    (Lint.script m known script).find? (·.cause.isWrite) =
      ((findings m known script).find? (·.isWrite)).map fun cause => ⟨script.archetype, cause⟩ := by
  rw [Lint.script, List.find?_map]
  exact congrArg (Option.map _) (find?_eraseDups _ _)

end Lint

namespace Library

variable {lib : Library} {script : Script}

/-- A script is refused for the first write that lint reports, whatever tokens are known. -/
theorem checkWrites_eq_error_iff (known : List String) {e : ParseError} :
    lib.checkWrites script = .error e ↔
      ∃ issue defect, (Lint.script lib.manifest known script).find? (·.cause.isWrite) = some issue ∧
        issue.cause.refusal? = some defect ∧ e = ⟨script.source, none, defect⟩ := by
  have hfirst := Lint.find?_findings lib.manifest known script.walk
  rw [checkWrites, Lint.find?_script, ← hfirst, Lint.findings]
  cases hfound : (script.walk.flatMap (Lint.statement lib.manifest known)).find? (·.isWrite) with
  | none =>
    constructor
    · rintro ⟨⟩
    · rintro ⟨issue, defect, ⟨⟩, -⟩
  | some cause =>
    obtain ⟨defect, hdefect⟩ := IssueCause.exists_refusal? (List.find?_some hfound)
    rw [Option.bind_some, hdefect]
    constructor
    · rintro ⟨⟩
      exact ⟨_, defect, rfl, hdefect, rfl⟩
    · rintro ⟨issue, defect', hissue, hdefect', rfl⟩
      obtain rfl := Option.some.inj hissue
      rw [Option.some.inj (hdefect.symm.trans hdefect')]

/-- A script is refused exactly if lint reports a write. -/
theorem exists_error_iff (known : List String) : (∃ e, lib.checkWrites script = .error e) ↔
    ∃ issue ∈ Lint.script lib.manifest known script, issue.cause.isWrite = true := by
  constructor
  · rintro ⟨e, herror⟩
    obtain ⟨issue, -, hfound, -⟩ := (checkWrites_eq_error_iff known).1 herror
    have hwrite := List.find?_some hfound
    exact ⟨issue, List.mem_of_find?_eq_some hfound, hwrite⟩
  · intro hsome
    -- If a write is reported, one of them is the first.
    obtain ⟨first, hfound⟩ := Option.isSome_iff_exists.1 (List.find?_isSome.2 hsome)
    have hwrite := List.find?_some hfound
    obtain ⟨defect, hdefect⟩ := IssueCause.exists_refusal? hwrite
    exact ⟨_, (checkWrites_eq_error_iff known).2 ⟨first, defect, hfound, hdefect, rfl⟩⟩

/-- A script that is kept without an error has passed the check of writes. -/
theorem IsNew.checkWrites_of_enabled (h : lib.IsNew) {calls : List (FileTree × Call)}
    {archetype : String} (hkept : (lib.after calls).kept archetype = (some script, none)) :
    lib.checkWrites script = .ok () := by
  rw [h.kept_after] at hkept
  cases hlast : Load.lastOf archetype (lib.loadsOf [] calls) with
  | none =>
    rw [hlast] at hkept
    cases hkept
  | some load =>
    rw [hlast, keptOf, Load.entry] at hkept
    cases hcheck : load.check lib with
    | error e =>
      rw [hcheck] at hkept
      cases hkept
    | ok loaded =>
      rw [hcheck] at hkept
      obtain rfl : loaded = script := Option.some.inj (Prod.mk.inj hkept).1
      rw [Load.check] at hcheck
      split at hcheck
      · cases hcheck
      · exact (check_eq_ok_iff.1 hcheck).2

theorem IsNew.manifest_after (h : lib.IsNew) (calls : List (FileTree × Call)) :
    (lib.after calls).manifest = lib.manifest := by
  have hnone : ∀ load ∈ ([] : List Load), load.Fits lib.limits := List.forall_mem_nil _
  have hloads : lib.after calls = _ := h.after_eq_takeAll hnone calls
  rw [hloads, takeAll_manifest]

/-- Lint reports no write of a library: those of scripts in use are allowed, and broken scripts are
reported for their errors. -/
theorem IsNew.lint_after (h : lib.IsNew) (calls : List (FileTree × Call)) (known : List String) :
    ∀ issue ∈ (lib.after calls).lint known, issue.cause.isWrite = false := by
  intro issue hissue
  obtain ⟨archetype, -, hissue⟩ := List.mem_flatMap.1 hissue
  rw [lintArchetype] at hissue
  split at hissue
  · next e herror =>
    rw [List.mem_singleton.1 hissue]
    rfl
  · next script herror hscript =>
    have hkept : (lib.after calls).kept archetype = (some script, none) := by
      rw [kept, hscript, herror]
    rw [h.manifest_after] at hissue
    rw [← Bool.not_eq_true]
    intro hwrite
    obtain ⟨e, herror⟩ := (exists_error_iff known).2 ⟨issue, hissue, hwrite⟩
    cases herror.symm.trans (h.checkWrites_of_enabled hkept)
  · cases hissue

/-- The check of writes and lint agree. A script is refused exactly if lint, under the same manifest
and with whatever known tokens, reports a write that is not allowed, and it is refused for the first
one in the order of lint's report: for the same variable and the same defect. So, whatever was loaded
into a library and replaced again, lint reports no such write of it. -/
theorem checkWrites_agrees_with_lint (config : Config) (m : Manifest) (limits : Limits)
    (known : List String) :
    let lib : Library := { config, manifest := m, limits }
    (∀ script, (∃ e, lib.checkWrites script = .error e) ↔
      ∃ issue ∈ Lint.script m known script, issue.cause.isWrite = true) ∧
    (∀ script e, lib.checkWrites script = .error e ↔
      ∃ issue defect, (Lint.script m known script).find? (·.cause.isWrite) = some issue ∧
        issue.cause.refusal? = some defect ∧ e = ⟨script.source, none, defect⟩) ∧
    ∀ calls, ∀ issue ∈ (lib.after calls).lint known, issue.cause.isWrite = false := by
  intro lib
  have hnew : lib.IsNew := ⟨rfl, rfl⟩
  exact ⟨fun script => exists_error_iff known, fun script e => checkWrites_eq_error_iff known,
    fun calls => hnew.lint_after calls known⟩

-- Lint goes on behind the write that a script is refused for, and looks at its reads as well.
example :
    let lib : Library := { config := {}, manifest := .empty }
    let script : Script :=
      ⟨"spy", [.assign "MET" (.var "SEEN"), .assign "MET" (.literal (.int 1))], "spy.dlg", none⟩
    lib.checkWrites script = .error ⟨"spy.dlg", none, .undeclaredSet "MET"⟩ ∧
      Lint.script lib.manifest [] script =
        [⟨"spy", .undeclaredRead "SEEN"⟩, ⟨"spy", .undeclaredSet "MET"⟩] := by
  decide +kernel

end Library

end Parley
