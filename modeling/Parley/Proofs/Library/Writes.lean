import Parley.Library.Basic
import Parley.Proofs.Script.Shape
import Parley.Proofs.Talk.Assignment

/-!
# What the Check of Writes Says about Runs

When a script is loaded, its assignments are checked against the manifest: each target has to be
declared, and a literal has to be of the declared type. The check goes over the script once, while
assignments are made under conds, in options and over what was staged before. We show that it
covers all of them, so that at run time an assignment is skipped for its value alone.

* `Library.declared_of_load`: what the check has seen to of every assignment in a loaded script;
* `Library.assigns_of_load`: what becomes of every assignment that a run of it comes to.
-/

namespace Parley

namespace Library

variable {lib after : Library} {script : Script} {notices : List Notice}
  {text archetype source : String}

/-- A text is used if it can be parsed and makes no write that the manifest refuses. -/
theorem check_eq_ok_iff : lib.check text archetype source = .ok script ↔
    Script.parse text archetype source lib.limits = .ok script ∧
      lib.checkWrites script = .ok () := by
  rw [check]
  cases Script.parse text archetype source lib.limits with
  | error e => exact ⟨nofun, fun h => nomatch h.1⟩
  | ok parsed =>
    cases hwrites : lib.checkWrites parsed with
    | error e =>
      simp only [bind, Except.bind, hwrites]
      refine ⟨nofun, fun ⟨hparsed, hscript⟩ => ?_⟩
      cases hparsed
      rw [hwrites] at hscript
      cases hscript
    | ok _ =>
      simp only [bind, Except.bind, hwrites, Except.ok.injEq]
      refine ⟨fun h => ⟨h, h ▸ hwrites⟩, And.left⟩

/-- What a script is refused for when it is parsed is a write, and no limit of the reader. -/
theorem isLimit_of_checkWrites {e : ParseError} (h : lib.checkWrites script = .error e) :
    e.defect.isLimit = false := by
  rw [checkWrites] at h
  split at h
  · next defect hfound =>
    cases h
    obtain ⟨s, -, hs⟩ := List.exists_of_findSome?_eq_some hfound
    rw [badWrite?.eq_def] at hs
    split at hs
    · split at hs
      · cases hs
        rfl
      · split at hs
        · cases hs
        · cases hs
          rfl
      · cases hs
    · cases hs
  · cases h

/-- A script that is loaded and usable has passed the checks. -/
theorem check_of_load
    (hload : lib.loadString text archetype source = .ok (after, script, notices))
    (henabled : script.disabled = false) : lib.check text archetype source = .ok script := by
  rw [loadString] at hload
  cases hcheck : lib.check text archetype source with
  | ok loaded =>
    rw [hcheck] at hload
    cases hload
    rfl
  | error e =>
    rw [hcheck, settle] at hload
    split at hload
    · cases hload
    · -- What stands in for a broken script is disabled.
      cases hload
      cases henabled

/-- Every variable that a checked script assigns is declared, and a literal that is assigned to it is
of its type. -/
theorem declared_of_checkWrites (hwrites : lib.checkWrites script = .ok ()) {name : String}
    {value : Expr} (hassign : .assign name value ∈ script.walk) :
    ∃ d, lib.manifest.get? name = some d ∧ ∀ v, value = .literal v → v.type = d.type := by
  rw [checkWrites] at hwrites
  split at hwrites
  · cases hwrites
  next hnone =>
  have hgood : badWrite? lib.manifest (.assign name value) = none :=
    List.findSome?_eq_none_iff.1 hnone _ hassign
  rw [badWrite?.eq_def] at hgood
  dsimp only at hgood
  split at hgood
  · cases hgood
  · next d v hd =>
    refine ⟨d, hd, fun u hu => ?_⟩
    cases hu
    by_contra htype
    rw [if_neg htype] at hgood
    cases hgood
  · next d hd hliteral => exact ⟨d, hd, fun v hv => absurd hv (hliteral v)⟩

/-- So it is in a script that is loaded and usable. -/
theorem declared_of_load
    (hload : lib.loadString text archetype source = .ok (after, script, notices))
    (henabled : script.disabled = false) {name : String} {value : Expr}
    (hassign : .assign name value ∈ script.walk) :
    ∃ d, lib.manifest.get? name = some d ∧ ∀ v, value = .literal v → v.type = d.type :=
  declared_of_checkWrites (check_eq_ok_iff.1 (check_of_load hload henabled)).2 hassign

/-- The check of writes is sound for runs. Let a script be loaded, and let the root or the body of one
of its options be run for a speaker, over any state with the declarations of the library. Whatever
the run reports as skipped is an assignment that it came to. Each assignment that it comes to has a
declared target and is skipped exactly if its value, no literal and no unset variable, cannot be
evaluated or is of another type than the declared one. A literal is always staged, and for a
variable that is neither declared nor held the initial value of the target's type is. -/
theorem assigns_of_load
    (hload : lib.loadString text archetype source = .ok (after, script, notices))
    (henabled : script.disabled = false) {env : Environment} (hmanifest : env.manifest = lib.manifest)
    {body : List Statement} (hbody : body ∈ script.bodies) (npc : String) (dice : Dice) :
    (∀ name cause, .skippedSet name cause ∈ (Walk.run env (some npc) dice body).2.notices →
      ∃ value w, (.assign name value, w) ∈ Walk.visitsBody env body (Walk.start (some npc) dice) ∧
        Walk.exec env (.assign name value) w = (.next, w.note (.skippedSet name cause))) ∧
    ∀ name value w, (.assign name value, w) ∈ Walk.visitsBody env body (Walk.start (some npc) dice) →
      ∃ d, lib.manifest.get? name = some d ∧ Walk.Assigns env d name value w := by
  refine ⟨fun name cause => Walk.exists_visit_of_skipped, fun name value w hvisit => ?_⟩
  -- The check goes over all statements of the script, whatever lies around them.
  have hassign : .assign name value ∈ script.walk :=
    Script.mem_walk_of_mem_bodies hbody (Walk.mem_walkBody_of_visit hvisit)
  obtain ⟨d, hd, hliteral⟩ := declared_of_load hload henabled hassign
  obtain ⟨hviewer, hadmitted⟩ := Walk.visit_admitted hvisit
  have hspeaker : d.scope = .speaker → w.turn.stage.viewer ≠ none := by
    rw [hviewer]
    exact fun _ => nofun
  exact ⟨d, hd, Walk.assigns_of_declared (hmanifest ▸ hd) hspeaker hliteral hadmitted⟩

/-- A banker keeps the gold that is brought to him. -/
def bank : Library where
  config := {}
  manifest := ⟨(OrderedMap.empty.insert "GOLD" (.make "GOLD" .global .int)).insert "RICH"
    (.make "RICH" .speaker .bool)⟩

/-- The banker's accounts do not always add up. -/
def bankText : String :=
  "(set RICH true) (set GOLD found) (set RICH GOLD) (option \"Count\" (set GOLD (> GOLD RICH)))"

/-- Quest state before anything was brought. -/
def bankState : Environment where
  manifest := bank.manifest

/-- The banker's script passes the check, and each of its two bodies has one assignment that is
skipped: gold is no truth value, and a truth value has no order. -/
theorem assigns_of_load_of_bank :
    ∃ after script notices, bank.loadString bankText "banker" = .ok (after, script, notices) ∧
      script.disabled = false ∧
      (script.bodies.map fun body =>
        (Walk.run bankState (some "otto") { source := .scripted [] } body).2.notices.length) =
          [1, 1] ∧
      ∀ body ∈ script.bodies, ∀ dice,
        (∀ name cause, .skippedSet name cause ∈
            (Walk.run bankState (some "otto") dice body).2.notices →
          ∃ value w, (.assign name value, w) ∈
              Walk.visitsBody bankState body (Walk.start (some "otto") dice) ∧
            Walk.exec bankState (.assign name value) w =
              (.next, w.note (.skippedSet name cause))) ∧
        ∀ name value w, (.assign name value, w) ∈
            Walk.visitsBody bankState body (Walk.start (some "otto") dice) →
          ∃ d, bank.manifest.get? name = some d ∧ Walk.Assigns bankState d name value w := by
  have hread : ((bank.loadString bankText "banker").toOption.map fun loaded =>
      (loaded.2.1.disabled, loaded.2.1.bodies.map fun body =>
        (Walk.run bankState (some "otto") { source := .scripted [] } body).2.notices.length)) =
          some (false, [1, 1]) := by
    decide +kernel
  obtain ⟨⟨after, script, notices⟩, hload, hanswer⟩ := exists_of_toOption_map hread
  obtain ⟨henabled, hnotices⟩ := Prod.mk.inj hanswer
  refine ⟨after, script, notices, hload, henabled, hnotices, fun body hbody dice => ?_⟩
  exact assigns_of_load hload henabled rfl hbody "otto" dice

end Library

end Parley
