import Parley.Proofs.State.Halfway
import Parley.Proofs.State.Soundness
import Parley.State.Adoption

/-!
# Shared Manifests

Somebody who hands a manifest to new quest state may go on to declare variables on it, and the state
has a manifest on which variables can be declared as well. If the two are one manifest, reads and
writes follow whatever has been declared on either. We say when they are: this depends on nothing but
whether the manifest declared something when it was handed over.

## Main definitions

* `Adoption.Deed`: what is done to a manifest and to the state that it was given to;
* `Adoption.Follows`: reads and writes are decided by the manifest that was given.

## Main results

* `Adoption.follows_iff_same`: the state follows the given manifest exactly if its own one has the same
  declarations;
* `Adoption.afterAll_of_shared`, `Adoption.afterAll_of_not_shared`: the declarations on either side
  after any deeds;
* `Adoption.follows_iff_declares`: the state follows the given manifest forever exactly if that one
  declared something at first.
-/

namespace Parley

/-! ## Declarations and their uses -/

theorem Environment.access_manifest (env : Environment) (viewer : Option String) (x : Access) :
    (env.access viewer x).2.manifest = env.manifest := by
  cases x with
  | read name => rfl
  | write name x =>
    rw [access]
    split
    · next hwrite => exact write_manifest hwrite
    · rfl

theorem Stage.commit_manifest (stage : Stage) (env : Environment) :
    (stage.commit env).2.1.manifest = env.manifest :=
  (stage.commit_writtenBy env).manifest

/-- A script value can be staged exactly when the declarations admit it. -/
theorem Stage.exists_write_iff {stage : Stage} {env : Environment} {name : String} {v : Value} :
    (∃ stage', stage.write env name (.value v) = .ok stage') ↔
      env.manifest.Admits stage.viewer name v := by
  constructor
  · rintro ⟨stage', h⟩
    obtain ⟨d, u, hcheck, -⟩ := write_eq_ok_iff.1 h
    obtain ⟨hd, hv, htype, hspeaker⟩ := Environment.checkWrite_eq_ok_iff.1 hcheck
    obtain rfl := Stored.value.inj hv
    exact ⟨d, hd, htype, hspeaker⟩
  · rintro ⟨d, hd, htype, hspeaker⟩
    have hcheck : env.checkWrite stage.viewer name (.value v) = .ok (d, v) :=
      Environment.checkWrite_eq_ok_iff.2 ⟨hd, rfl, htype, hspeaker⟩
    exact ⟨_, write_eq_ok_iff.2 ⟨d, v, hcheck, rfl⟩⟩

theorem Manifest.eq_empty_of_size {m : Manifest} (h : m.size = 0) : m = .empty := by
  obtain ⟨⟨entries, hnodup⟩⟩ := m
  obtain rfl : entries = [] := List.eq_nil_of_length_eq_zero h
  rfl

namespace Adoption

variable {a : Adoption}

/-! ## Deeds -/

/-- What is done to a manifest and to the quest state that it was given to. -/
inductive Deed
  /-- A variable is declared on the given manifest. -/
  | declareGiven (d : Declaration)
  /-- A variable is declared on the manifest of the state. -/
  | declareOwn (d : Declaration)
  | access (viewer : Option String) (x : Access)
  | commit (stage : Stage)
  | forget (npc : String)
  | restore (s : Snapshot)

namespace Deed

/-- The declaration that a deed makes on the given manifest, if any. -/
def onGiven : Deed → List Declaration
  | .declareGiven d => [d]
  | _ => []

/-- The declaration that a deed makes on the manifest of the state, if any. -/
def onOwn : Deed → List Declaration
  | .declareOwn d => [d]
  | _ => []

/-- The declaration that a deed makes on either side. -/
def declared (deed : Deed) : List Declaration :=
  deed.onGiven ++ deed.onOwn

end Deed

/-- The two sides after a deed. -/
def after (a : Adoption) : Deed → Adoption
  | .declareGiven d => a.declareGiven d
  | .declareOwn d => a.declareOwn d
  | .access viewer x => { a with env := (a.env.access viewer x).2 }
  | .commit stage => { a with env := (stage.commit a.env).2.1 }
  | .forget npc => { a with env := a.env.forget npc }
  | .restore s => { a with env := a.env.restore s }

/-- The two sides after deeds in order. -/
def afterAll (a : Adoption) (deeds : List Deed) : Adoption :=
  deeds.foldl after a

/-! ## The declarations on either side -/

/-- While both sides are one manifest, a declaration made on either is made on both. -/
theorem after_of_shared (hshared : a.shared = true) (hsame : a.env.manifest = a.given)
    (deed : Deed) :
    (a.after deed).shared = true ∧
      (a.after deed).given = deed.declared.foldl Manifest.declare a.given ∧
      (a.after deed).env.manifest = (a.after deed).given := by
  cases deed with
  | declareGiven d =>
    refine ⟨hshared, rfl, ?_⟩
    simp only [after, Adoption.declareGiven, hshared, if_true]
  | declareOwn d =>
    simp only [after, Adoption.declareOwn, hshared, if_true, hsame]
    exact ⟨trivial, rfl, trivial⟩
  | access viewer x => exact ⟨hshared, rfl, (a.env.access_manifest viewer x).trans hsame⟩
  | commit stage => exact ⟨hshared, rfl, (stage.commit_manifest a.env).trans hsame⟩
  | forget npc => exact ⟨hshared, rfl, hsame⟩
  | restore s => exact ⟨hshared, rfl, hsame⟩

/-- Two manifests of their own have their own declarations only. -/
theorem after_of_not_shared (hshared : a.shared = false) (deed : Deed) :
    (a.after deed).shared = false ∧
      (a.after deed).given = deed.onGiven.foldl Manifest.declare a.given ∧
      (a.after deed).env.manifest = deed.onOwn.foldl Manifest.declare a.env.manifest := by
  cases deed with
  | declareGiven d => simp [after, Adoption.declareGiven, hshared, Deed.onGiven, Deed.onOwn]
  | declareOwn d => simp [after, Adoption.declareOwn, hshared, Deed.onGiven, Deed.onOwn]
  | access viewer x => exact ⟨hshared, rfl, a.env.access_manifest viewer x⟩
  | commit stage => exact ⟨hshared, rfl, stage.commit_manifest a.env⟩
  | forget npc => exact ⟨hshared, rfl, rfl⟩
  | restore s => exact ⟨hshared, rfl, rfl⟩

theorem afterAll_of_shared (hshared : a.shared = true) (hsame : a.env.manifest = a.given)
    (deeds : List Deed) :
    (a.afterAll deeds).given = (deeds.flatMap Deed.declared).foldl Manifest.declare a.given ∧
      (a.afterAll deeds).env.manifest = (a.afterAll deeds).given := by
  -- Both sides change together, so that the two are one manifest again before the next deed.
  induction deeds generalizing a with
  | nil => exact ⟨rfl, hsame⟩
  | cons deed rest ih =>
    obtain ⟨hshared, hgiven, hsame⟩ := after_of_shared hshared hsame deed
    rw [List.flatMap_cons, List.foldl_append, ← hgiven]
    exact ih hshared hsame

theorem afterAll_of_not_shared (hshared : a.shared = false) (deeds : List Deed) :
    (a.afterAll deeds).given = (deeds.flatMap Deed.onGiven).foldl Manifest.declare a.given ∧
      (a.afterAll deeds).env.manifest =
        (deeds.flatMap Deed.onOwn).foldl Manifest.declare a.env.manifest := by
  induction deeds generalizing a with
  | nil => exact ⟨rfl, rfl⟩
  | cons deed rest ih =>
    obtain ⟨hshared, hgiven, hown⟩ := after_of_not_shared hshared deed
    rw [List.flatMap_cons, List.flatMap_cons, List.foldl_append, List.foldl_append, ← hgiven, ← hown]
    exact ih hshared

/-! ## Reads and writes -/

/-- Quest state follows the manifest that it was given. -/
structure Follows (a : Adoption) : Prop where
  /-- Both sides have the same declarations. -/
  same : a.env.manifest = a.given
  /-- A write is allowed exactly if the given manifest admits it. -/
  write : ∀ viewer name v, (∃ env, a.env.write viewer name (.value v) = .ok env) ↔
    a.given.Admits viewer name v
  /-- So is a write to a stage in front of the state. -/
  stage : ∀ (stage : Stage) name v, (∃ stage', stage.write a.env name (.value v) = .ok stage') ↔
    a.given.Admits stage.viewer name v
  /-- The given manifest says where a variable that it declares is looked up, and what is seen of one
  that has not been written. -/
  declared : ∀ viewer name d, a.given.get? name = some d →
    a.env.lookup viewer name = some (((a.env.home viewer d).get? name).getD d.initial)
  /-- What the given manifest does not declare is looked up among the global variables. -/
  undeclared : ∀ viewer name, a.given.get? name = none →
    a.env.lookup viewer name = a.env.globals.get? name

/-- All reads and writes go by the declarations of the state, so that it follows the given manifest
exactly if those are the same. -/
theorem follows_iff_same : a.Follows ↔ a.env.manifest = a.given := by
  refine ⟨Follows.same, fun hsame => ⟨hsame, ?_, ?_, ?_, ?_⟩⟩ <;> rw [← hsame]
  · exact fun viewer name v => Environment.exists_write_iff
  · exact fun stage name v => Stage.exists_write_iff
  · intro viewer name d hd
    -- Where nobody looks there are no variables of speakers, and the initial value is seen.
    cases viewer <;> cases hscope : d.scope <;>
      simp [Environment.lookup, Environment.home, hd, hscope]
  · intro viewer name hundeclared
    rw [Environment.lookup, hundeclared]

/-- Quest state that is given a manifest with declarations follows it through all that is done later
on: whatever is declared on either side, the two have the same declarations, those of the manifest and
the later ones in order, and they decide every read and write. A manifest without declarations is not
followed: the state has then what was declared on its own side, and the manifest what was declared on
the other. -/
theorem follows_iff_declares (m : Manifest) :
    (m.size ≠ 0 → ∀ deeds, ((start m).afterAll deeds).Follows ∧
        ((start m).afterAll deeds).given =
          (deeds.flatMap Deed.declared).foldl Manifest.declare m) ∧
      (m.size = 0 → ∀ deeds,
        ((start m).afterAll deeds).given =
          (deeds.flatMap Deed.onGiven).foldl Manifest.declare .empty ∧
        ((start m).afterAll deeds).env.manifest =
          (deeds.flatMap Deed.onOwn).foldl Manifest.declare .empty) ∧
      ((∀ deeds, ((start m).afterAll deeds).Follows) ↔ m.size ≠ 0) := by
  have hshares : m.size ≠ 0 → ∀ deeds, ((start m).afterAll deeds).Follows ∧
      ((start m).afterAll deeds).given =
        (deeds.flatMap Deed.declared).foldl Manifest.declare m := by
    intro hsize deeds
    obtain ⟨hgiven, hsame⟩ := afterAll_of_shared (a := start m) (bne_iff_ne.2 hsize) rfl deeds
    exact ⟨follows_iff_same.2 hsame, hgiven⟩
  have hdivides : m.size = 0 → ∀ deeds,
      ((start m).afterAll deeds).given =
        (deeds.flatMap Deed.onGiven).foldl Manifest.declare .empty ∧
      ((start m).afterAll deeds).env.manifest =
        (deeds.flatMap Deed.onOwn).foldl Manifest.declare .empty := by
    intro hsize deeds
    obtain rfl := Manifest.eq_empty_of_size hsize
    exact afterAll_of_not_shared (a := start .empty) rfl deeds
  refine ⟨hshares, hdivides, fun hfollows hsize => ?_, fun hsize deeds => (hshares hsize deeds).1⟩
  -- One declaration on the given manifest is enough to tell the two apart.
  obtain ⟨hgiven, hown⟩ := hdivides hsize [.declareGiven (.make "" .global .bool)]
  have hsame := (hfollows [.declareGiven (.make "" .global .bool)]).same
  rw [hgiven, hown] at hsame
  exact absurd (congrArg Manifest.size hsame) (by decide)

/-- A manifest with one variable, of speakers. -/
def greeting : Manifest :=
  Manifest.empty.declare (.make "GREETED" .speaker .bool)

/-- Luck is declared on the manifest and then written, and mood is declared on the other side. -/
def fortune : List Deed :=
  [.declareGiven (.make "LUCK" .global .int),
    .access (some "mayor") (.write "LUCK" (.value (.int 7))),
    .declareOwn (.make "MOOD" .speaker .str)]

theorem follows_iff_declares_of_greeting :
    greeting.size ≠ 0 ∧ ((start greeting).afterAll fortune).Follows ∧
      ((start greeting).afterAll fortune).given.names = ["GREETED", "LUCK", "MOOD"] ∧
      ((start greeting).afterAll fortune).env.lookup (some "miller") "LUCK" =
        some (.value (.int 7)) := by
  obtain ⟨hshares, -, -⟩ := follows_iff_declares greeting
  obtain ⟨hfollows, hgiven⟩ := hshares (by decide) fortune
  refine ⟨by decide, hfollows, ?_, rfl⟩
  rw [hgiven]
  rfl

/-- Luck is declared on a manifest that was handed over without declarations, and the write is refused
as one of an undeclared variable. -/
theorem ignores_of_empty :
    ((start .empty).afterAll fortune).given.names = ["LUCK"] ∧
      ((start .empty).afterAll fortune).env.manifest.names = ["MOOD"] ∧
      ((start .empty).afterAll fortune).env.write (some "mayor") "LUCK" (.value (.int 7)) =
        .error (.scope ⟨"LUCK", .undeclared⟩) ∧
      ¬ ((start .empty).afterAll fortune).Follows := by
  refine ⟨rfl, rfl, rfl, fun hfollows => ?_⟩
  exact absurd (congrArg Manifest.names hfollows.same) (by decide)

end Adoption

end Parley
