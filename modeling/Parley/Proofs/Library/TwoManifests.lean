import Parley.Library.Talk
import Parley.Proofs.Library.Verdict
import Parley.Proofs.Library.Writes

/-!
# Two Manifests

Scripts are checked against the manifest of their library, and they run against the one of quest
state. When a library is used with a state, the two are compared by the names that they declare. We
show what this leaves open, that is, which literal assignments pass the check and are still skipped
when they are run.

## Main definitions

* `Manifest.AgreesOnTypes`: what two manifests both declare is of one type;
* `Library.KeepsLiterals`: no checked script has a literal assignment that a run skips.

## Main results

* `Library.compareManifests_eq_nil_iff`: nothing is noted exactly if the same names are declared;
* `Library.exec_literal_of_checked`: what becomes of a literal assignment;
* `Library.keepsLiterals_iff`: if nothing is noted, literals are kept exactly if the types agree.
-/

namespace Parley

/-- What two manifests both declare is of one type. -/
def Manifest.AgreesOnTypes (a b : Manifest) : Prop :=
  ∀ name d e, a.get? name = some d → b.get? name = some e → e.type = d.type

namespace Library

variable {lib : Library} {env : Environment} {script : Script} {body : List Statement}
  {name npc : String} {v : Value} {w : Walk} {dice : Dice}

/-! ## Names -/

theorem manifestDifference_eq_nil_iff {a b : Manifest} :
    manifestDifference a b = [] ↔ ∀ name, a.contains name = b.contains name := by
  have hnames : ∀ m : Manifest, ∀ name, name ∈ m.names ↔ m.contains name = true :=
    fun m name => List.contains_iff_mem.symm
  -- Sorting the names makes no difference to whether there are any.
  rw [manifestDifference, ← List.length_eq_zero_iff, (sortNames_perm _).length_eq,
    List.length_eq_zero_iff, List.append_eq_nil_iff, List.filter_eq_nil_iff, List.filter_eq_nil_iff]
  simp only [hnames, Bool.not_eq_true', Bool.not_eq_false]
  exact ⟨fun ⟨hab, hba⟩ name => Bool.eq_iff_iff.2 ⟨hab name, hba name⟩,
    fun h => ⟨fun name ha => h name ▸ ha, fun name hb => (h name).symm ▸ hb⟩⟩

/-- Nothing is noted exactly if both sides declare the same names. -/
theorem compareManifests_eq_nil_iff : lib.compareManifests env = [] ↔
    ∀ name, lib.manifest.contains name = env.manifest.contains name := by
  rw [← manifestDifference_eq_nil_iff, compareManifests]
  split
  · next hnames => exact iff_of_true rfl hnames
  · next hnames => exact iff_of_false (List.cons_ne_nil _ _) hnames

/-- What the library declares, the state then declares as well. -/
theorem exists_declared (hsilent : lib.compareManifests env = []) {d : Declaration}
    (hd : lib.manifest.get? name = some d) : ∃ e, env.manifest.get? name = some e := by
  have hsame := compareManifests_eq_nil_iff.1 hsilent name
  rw [Manifest.contains, Manifest.contains, OrderedMap.contains_eq_isSome,
    OrderedMap.contains_eq_isSome] at hsame
  rw [Manifest.get?] at hd
  rw [hd] at hsame
  exact Option.isSome_iff_exists.1 hsame.symm

/-! ## Literals -/

/-- A literal assignment that a run of a checked script comes to is declared on both sides, and it is
of the type that the library declares. If the state declares the same type it is staged, else it is
skipped. The scope does not matter, since the run has a speaker. -/
theorem exec_literal_of_checked (hsilent : lib.compareManifests env = [])
    (hwrites : lib.checkWrites script = .ok ()) (hbody : body ∈ script.bodies)
    (hvisit : (.assign name (.literal v), w) ∈
      Walk.visitsBody env body (Walk.start (some npc) dice)) :
    ∃ d e, lib.manifest.get? name = some d ∧ env.manifest.get? name = some e ∧ v.type = d.type ∧
      (e.type = d.type → Walk.exec env (.assign name (.literal v)) w = (.next, w.put name v)) ∧
      (e.type ≠ d.type → Walk.exec env (.assign name (.literal v)) w =
        (.next, w.note (.skippedSet name (.scope ⟨name, .wrongType e.type v⟩)))) := by
  have hassign : .assign name (.literal v) ∈ script.walk :=
    Script.mem_walk_of_mem_bodies hbody (Walk.mem_walkBody_of_visit hvisit)
  obtain ⟨d, hd, hliteral⟩ := declared_of_checkWrites hwrites hassign
  have hv : v.type = d.type := hliteral v rfl
  obtain ⟨e, he⟩ := exists_declared hsilent hd
  obtain ⟨hviewer, -⟩ := Walk.visit_admitted hvisit
  have hspeaker : e.scope = .speaker → w.turn.stage.viewer ≠ none := by
    rw [hviewer]
    exact fun _ => nofun
  have hvalue := Walk.assigned_literal env name v w
  refine ⟨d, e, hd, he, hv, fun htype => ?_, fun htype => ?_⟩
  · exact Walk.exec_assign_of_type he hspeaker hvalue (hv.trans htype.symm)
  · exact Walk.exec_assign_of_wrongType he hvalue fun heq => htype (heq.symm.trans hv)

/-- Whatever script has passed the check of the library, and wherever a run of one of its bodies over
the state comes to a literal assignment, this is not skipped with a scope error. -/
def KeepsLiterals (lib : Library) (env : Environment) : Prop :=
  ∀ script, lib.checkWrites script = .ok () → ∀ body ∈ script.bodies, ∀ npc dice name v w,
    (.assign name (.literal v), w) ∈ Walk.visitsBody env body (Walk.start (some npc) dice) →
      ∀ e, Walk.exec env (.assign name (.literal v)) w ≠
        (.next, w.note (.skippedSet name (.scope e)))

/-- The script that assigns a literal and does nothing else. -/
def assigning (name : String) (v : Value) : Script :=
  { archetype := "", body := [.assign name (.literal v)] }

theorem checkWrites_assigning {d : Declaration} (hd : lib.manifest.get? name = some d)
    (hv : v.type = d.type) : lib.checkWrites (assigning name v) = .ok () := by
  have hgood : badWrite? lib.manifest (.assign name (.literal v)) = none := by
    simp only [badWrite?, hd, hv, if_true]
  have hwalk : (assigning name v).walk = [.assign name (.literal v)] := rfl
  rw [checkWrites, hwalk, List.findSome?_cons, hgood]
  rfl

/-- Let nothing be noted when a library is used with quest state. Checked scripts then have their
literals kept exactly if both sides agree on the types of the variables. What a run of a checked
script reports as skipped are assignments that it came to, and of those the literal ones are of the
type that the library declares: each of them is staged if the state declares this type, and skipped
if not. -/
theorem keepsLiterals_iff (hsilent : lib.compareManifests env = []) :
    (lib.KeepsLiterals env ↔ lib.manifest.AgreesOnTypes env.manifest) ∧
      ∀ script, lib.checkWrites script = .ok () → ∀ body ∈ script.bodies, ∀ npc dice,
        (∀ name cause, .skippedSet name cause ∈ (Walk.run env (some npc) dice body).2.notices →
          ∃ value w,
            (.assign name value, w) ∈ Walk.visitsBody env body (Walk.start (some npc) dice) ∧
            Walk.exec env (.assign name value) w = (.next, w.note (.skippedSet name cause))) ∧
        ∀ name v w,
          (.assign name (.literal v), w) ∈ Walk.visitsBody env body (Walk.start (some npc) dice) →
          ∃ d e, lib.manifest.get? name = some d ∧ env.manifest.get? name = some e ∧
            v.type = d.type ∧
            (e.type = d.type →
              Walk.exec env (.assign name (.literal v)) w = (.next, w.put name v)) ∧
            (e.type ≠ d.type → Walk.exec env (.assign name (.literal v)) w =
              (.next, w.note (.skippedSet name (.scope ⟨name, .wrongType e.type v⟩)))) := by
  refine ⟨⟨fun hkeeps name d e hd he => ?_, ?_⟩, fun script hwrites body hbody npc dice =>
    ⟨fun name cause => Walk.exists_visit_of_skipped,
      fun name v w => exec_literal_of_checked hsilent hwrites hbody⟩⟩
  · -- A script may assign the initial value of the type that the library declares.
    by_contra htype
    have hv : d.type.initial.type = d.type := Value.type_initial d.type
    have hskip : ∀ w, Walk.exec env (.assign name (.literal d.type.initial)) w =
        (.next, w.note (.skippedSet name (.scope ⟨name, .wrongType e.type d.type.initial⟩))) :=
      fun w => Walk.exec_assign_of_wrongType he (Walk.assigned_literal env name d.type.initial w)
        fun heq => htype (heq.symm.trans hv)
    exact hkeeps (assigning name d.type.initial) (checkWrites_assigning hd hv) _
      List.mem_cons_self "" { source := .scripted [] } name d.type.initial _ List.mem_cons_self _
      (hskip _)
  · -- Where the types agree the literal is staged, and what is staged is not skipped.
    intro hagrees script hwrites body hbody npc dice name v w hvisit cause hskip
    obtain ⟨d, e, hd, he, -, hstaged, -⟩ := exec_literal_of_checked hsilent hwrites hbody hvisit
    exact Walk.not_skipped_of_put (hstaged (hagrees name d e hd he)) ⟨_, hskip⟩

/-- Quest state that owns the bank's variables in other ways. -/
def branch : Environment where
  manifest := ⟨(OrderedMap.empty.insert "RICH" (.make "RICH" .global .bool)).insert "GOLD"
    (.make "GOLD" .speaker .int (some (.value (.int 12))))⟩

theorem keepsLiterals_iff_of_branch : bank.compareManifests branch = [] ∧
    bank.KeepsLiterals branch := by
  have hsilent : bank.compareManifests branch = [] := by decide
  have hagrees : bank.manifest.AgreesOnTypes branch.manifest := by
    intro name d e hd he
    simp only [Manifest.get?, bank, branch, OrderedMap.get?_insert, OrderedMap.get?_empty] at hd he
    by_cases hgold : name = "GOLD"
    · subst hgold
      cases hd
      cases he
      rfl
    · by_cases hrich : name = "RICH"
      · subst hrich
        cases hd
        cases he
        rfl
      · simp [hgold, hrich] at hd
  exact ⟨hsilent, (keepsLiterals_iff hsilent).1.2 hagrees⟩

/-- Quest state that has gold as a text. -/
def vault : Environment where
  manifest := ⟨(OrderedMap.empty.insert "GOLD" (.make "GOLD" .global .str)).insert "RICH"
    (.make "RICH" .speaker .bool)⟩

/-- No difference between the two manifests is noted, and a script that the check lets through has
its only assignment skipped. -/
theorem skips_of_vault : bank.compareManifests vault = [] ∧
    bank.checkWrites (assigning "GOLD" (.int 5)) = .ok () ∧
    (Walk.run vault (some "otto") { source := .scripted [] }
        (assigning "GOLD" (.int 5)).body).2.notices =
      [.skippedSet "GOLD" (.scope ⟨"GOLD", .wrongType .str (.int 5)⟩)] ∧
    ¬ bank.KeepsLiterals vault := by
  refine ⟨by decide, rfl, rfl, fun hkeeps => ?_⟩
  exact hkeeps (assigning "GOLD" (.int 5)) rfl _ List.mem_cons_self "otto" { source := .scripted [] }
    "GOLD" (.int 5) _ List.mem_cons_self ⟨"GOLD", .wrongType .str (.int 5)⟩ rfl

end Library

end Parley
