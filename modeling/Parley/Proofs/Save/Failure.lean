import Parley.Proofs.Save.Loading

/-!
# Saves and Removals That Fail

A slot has two files, and a save or a removal turns to the one with the state first. If it then
fails at the description, it is reported as failed, but the state in the slot has been replaced, or
is gone. What a slot offers to a load is therefore the same after a failed call only where the first
half of the call changed nothing that a load can see.

* `Archive.SameLoads`: loads of a slot come to the same, into any quest state;
* `Archive.save_failed` and `Archive.delete_failed`: how far a call came that failed;
* `Archive.failed_call_keeps_slot_iff`: when a failed call keeps what its slot offers to loads.
-/

namespace Parley.Archive

variable {a b : Archive} {slot : Slot} {s : SavedState} {t : FileTree}

/-! ## Loads of a slot -/

/-- The answer of a load into other quest state, and what that quest state is then. -/
def loadInto (a : Archive) (slot : Slot) (env : Environment) (validate : Bool) :
    Except SaveFault Bool × Environment :=
  ((Archive.load { a with env } slot validate).1, (Archive.load { a with env } slot validate).2.env)

/-- Loads of a slot come to the same in both archives, into any quest state, with a check or without
one. -/
def SameLoads (a b : Archive) (slot : Slot) : Prop :=
  ∀ env validate, b.loadInto slot env validate = a.loadInto slot env validate

/-- What a load comes to for the saved state that it takes. -/
def outcome (env : Environment) :
    Except SaveFault (Option SavedState) → Except SaveFault Bool × Environment
  | .error fault => (.error fault, env)
  | .ok none => (.ok false, env)
  | .ok (some s) => (.ok true, env.restore s.snapshot)

theorem loadInto_eq (a : Archive) (slot : Slot) (env : Environment) (validate : Bool) :
    a.loadInto slot env validate = outcome env (a.stateAt slot validate) := by
  have hcomes := Archive.comes_load { a with env } slot validate
  rw [stateAt_congr (a := a) (b := { a with env }) rfl rfl rfl rfl] at hcomes
  rw [loadInto]
  revert hcomes
  rcases a.stateAt slot validate with fault | (- | s)
  · exact fun ⟨hload, hquiet⟩ => Prod.ext hload hquiet.env
  · exact fun ⟨hload, hquiet⟩ => Prod.ext hload hquiet.env
  · exact fun ⟨hload, hquiet⟩ => Prod.ext hload hquiet.env

/-- Loads look at nothing but the files and the settings. -/
theorem loadInto_congr (h : Agrees a b) (slot : Slot) (env : Environment) (validate : Bool) :
    b.loadInto slot env validate = a.loadInto slot env validate := by
  rw [loadInto_eq, loadInto_eq, stateAt_congr h.tree h.directory h.limits h.records]

theorem sameLoads_of_agrees (h : Agrees a b) (slot : Slot) : SameLoads a b slot :=
  loadInto_congr h slot

/-! ## How far a call came -/

/-- A save writes this state to the file of the slot, which changes the files to these; whether it
then writes the description too is left open. -/
structure Writes (a : Archive) (slot : Slot) (s : SavedState) (t : FileTree) : Prop where
  saved : SavedState.ofEnvironment a.env a.records = .ok s
  writable : canWrite slot s = true
  written : a.tree.write (a.slotPath slot) (asciiBytes ((Json.object (savedFields s)).indented 0)) =
    .ok t

/-- A removal takes away the file with the state of the slot, which changes the files to these;
whether it then takes away the description too is left open. -/
def Removes (a : Archive) (slot : Slot) (t : FileTree) : Prop :=
  a.tree.remove (a.slotPath slot) = .ok t

/-- A state that was written is loaded, whatever became of the description. -/
theorem Writes.loadInto (h : a.Writes slot s t) {t' : FileTree}
    (hfind : t'.find (a.slotPath slot) =
      .ok (.file (asciiBytes ((Json.object (savedFields s)).indented 0))))
    (hb : Agrees { a with tree := t' } b) (env : Environment) (validate : Bool) :
    b.loadInto slot env validate = (.ok true, env.restore s.snapshot) := by
  have hreadable := isReadable_savedFields (isShort_fields_of_canWrite h.writable) a.limits
  have hholds : HoldsJson { a with tree := t' } slot (.object (savedFields s)) := by
    rw [HoldsJson, slotPath_congr (a := a) (b := { a with tree := t' }) rfl]
    exact holdsJson_asciiBytes hreadable hfind
  have hintact : (validate && isCorrupted (savedFields s)) = false := by
    rw [isCorrupted_savedFields, Bool.and_false]
  have hs : SavedState.ofJson (.object (withoutChecksum (savedFields s))) a.records = .ok s := by
    rw [withoutChecksum_savedFields, SavedState.ofJson_fields]
  rw [loadInto_congr hb, loadInto_eq, stateAt_of_holdsJson hholds hintact hs]
  rfl

theorem Removes.loadInto (h : a.Removes slot t) (hb : Agrees { a with tree := t } b)
    (hslot : slot.isOverlong = false) (env : Environment) (validate : Bool) :
    b.loadInto slot env validate = (.ok false, env) := by
  rw [loadInto_congr hb, loadInto_eq, stateAt, isSaved, hslot, if_neg Bool.false_ne_true,
    slotPath_congr (a := a) (b := { a with tree := t }) rfl, FileTree.pathExists_of_remove h]
  rfl

/-- A save writes no other state for what was announced and noted. -/
theorem writes_congr (h : Agrees a b) : b.Writes slot s t ↔ a.Writes slot s t := by
  constructor
  · rintro ⟨hsaved, hwritable, hwritten⟩
    rw [h.env, h.records] at hsaved
    rw [h.tree, slotPath_congr h.directory] at hwritten
    exact ⟨hsaved, hwritable, hwritten⟩
  · rintro ⟨hsaved, hwritable, hwritten⟩
    refine ⟨?_, hwritable, ?_⟩
    · rw [h.env, h.records, hsaved]
    · rw [h.tree, slotPath_congr h.directory, hwritten]

/-- A save that fails did not write the state, or it wrote the state and left it in its file. -/
theorem save_failed {name : Json} (h : (a.save slot name).1 = false) :
    (Agrees a (a.save slot name).2 ∧ ∀ s t, ¬ a.Writes slot s t) ∨
      ∃ s t t', a.Writes slot s t ∧ t'.find (a.slotPath slot) =
          .ok (.file (asciiBytes ((Json.object (savedFields s)).indented 0))) ∧
        Agrees { a with tree := t' } (a.save slot name).2 := by
  have hstart := agrees_announce a .saveStarted slot.written none
  simp only [← writes_congr hstart, ← slotPath_congr hstart.directory]
  have hagain : ∀ t, Agrees { a with tree := t } { a.announce .saveStarted slot.written with tree := t } :=
    fun _ => ⟨hstart.env, rfl, hstart.directory, hstart.now, hstart.limits, hstart.records⟩
  revert h
  rw [save]
  generalize a.announce .saveStarted slot.written none = started at *
  cases hform : SavedState.ofEnvironment started.env started.records with
  | error e =>
    refine fun _ => .inl ⟨hstart.trans (agrees_failSave _ _ _), fun s t hwrites => ?_⟩
    cases hform.symm.trans hwrites.saved
  | ok s =>
    dsimp only
    cases hcan : canWrite slot s with
    | false =>
      rw [Bool.not_false, if_pos rfl]
      refine fun _ => .inl ⟨hstart.trans (agrees_failSave _ _ _), fun s' t hwrites => ?_⟩
      cases hform.symm.trans hwrites.saved
      exact Bool.noConfusion (hcan.symm.trans hwrites.writable)
    | true =>
      have hshort := (isShort_savedFields s).trans (isShort_fields_of_canWrite hcan)
      rw [Bool.not_true, if_neg Bool.false_ne_true]
      dsimp only [writeJson]
      rw [written_of_isShort hshort]
      cases hwrite : started.tree.write (started.slotPath slot)
          (asciiBytes ((Json.object (savedFields s)).indented 0)) with
      | error e =>
        refine fun _ => .inl ⟨hstart.trans (agrees_failSave _ _ _), fun s' t hwrites => ?_⟩
        cases hform.symm.trans hwrites.saved
        cases hwrite.symm.trans hwrites.written
      | ok t =>
        -- The state is written. As the save fails, not all of the description is.
        dsimp only [Except.map]
        rw [metadataPath_congr (a := started) (b := { started with tree := t }) rfl]
        cases hwrite' : t.write (started.metadataPath slot) _ with
        | error e =>
          intro _
          exact .inr ⟨s, t, t, ⟨hform, hcan, hwrite⟩, FileTree.find_of_write hwrite,
            (hagain t).trans (agrees_failSave _ _ _)⟩
        | ok t' =>
          dsimp only
          split
          · exact fun h => absurd h.symm Bool.false_ne_true
          · intro _
            exact .inr ⟨s, t, t', ⟨hform, hcan, hwrite⟩, find_of_writes hwrite hwrite',
              (hagain t').trans (agrees_failSave _ _ _)⟩

/-- A removal that fails did not take the state away, or it took the state away and no more. -/
theorem delete_failed (h : (a.delete slot).1 = .ok false) :
    slot.isOverlong = false ∧ ((Agrees a (a.delete slot).2 ∧ ∀ t, ¬ a.Removes slot t) ∨
      ∃ t, a.Removes slot t ∧ Agrees { a with tree := t } (a.delete slot).2) := by
  rw [delete] at h ⊢
  cases hslot : slot.isOverlong with
  | true =>
    rw [hslot] at h
    cases h
  | false =>
    rw [hslot, if_neg Bool.false_ne_true] at h
    rw [if_neg Bool.false_ne_true]
    refine ⟨rfl, ?_⟩
    have hfailed : (a.deleteFiles slot).1 = false := Except.ok.inj h
    dsimp only
    rw [deleteFiles] at hfailed ⊢
    revert hfailed
    cases hremove : a.tree.remove (a.slotPath slot) with
    | error e =>
      refine fun _ => .inl ⟨⟨rfl, rfl, rfl, rfl, rfl, rfl⟩, fun t ht => ?_⟩
      cases hremove.symm.trans ht
    | ok t =>
      intro hfailed
      refine .inr ⟨t, hremove, ?_⟩
      revert hfailed
      dsimp only
      cases t.remove _ with
      | error e => exact fun _ => ⟨rfl, rfl, rfl, rfl, rfl, rfl⟩
      | ok t' => exact fun h => absurd h.symm Bool.false_ne_true

/-! ## What a failed call leaves -/

/-- Loads of a slot after a save that failed come to the same as before it exactly if they came to
what the save writes to the file of the state, in case that it can write it. After a removal that
failed they come to the same exactly if there was nothing to be loaded, in case that the file of the
state can be removed. -/
theorem failed_call_keeps_slot_iff (a : Archive) (slot : Slot) :
    (∀ name, (a.save slot name).1 = false →
      (SameLoads a (a.save slot name).2 slot ↔ ∀ s t, a.Writes slot s t →
        ∀ env validate, a.loadInto slot env validate = (.ok true, env.restore s.snapshot))) ∧
    ((a.delete slot).1 = .ok false →
      (SameLoads a (a.delete slot).2 slot ↔ ∀ t, a.Removes slot t →
        ∀ env validate, a.loadInto slot env validate = (.ok false, env))) := by
  refine ⟨fun name hsave => ?_, fun hdelete => ?_⟩
  · rcases save_failed hsave with ⟨hagrees, hnone⟩ | ⟨s, t, t', hwrites, hfind, hagrees⟩
    · exact ⟨fun _ s t h => absurd h (hnone s t), fun _ => sameLoads_of_agrees hagrees slot⟩
    · constructor
      · intro hsame s' t' hwrites' env validate
        obtain rfl : s = s' := Except.ok.inj (hwrites.saved.symm.trans hwrites'.saved)
        rw [← hsame, hwrites.loadInto hfind hagrees]
      · intro hloads env validate
        rw [hwrites.loadInto hfind hagrees, hloads s t hwrites]
  · obtain ⟨hslot, ⟨hagrees, hnone⟩ | ⟨t, hremoves, hagrees⟩⟩ := delete_failed hdelete
    · exact ⟨fun _ t h => absurd h (hnone t), fun _ => sameLoads_of_agrees hagrees slot⟩
    · constructor
      · intro hsame t' _ env validate
        rw [← hsame, hremoves.loadInto hagrees hslot]
      · intro hloads env validate
        rw [hremoves.loadInto hagrees hslot, hloads t hremoves]

/-- An archive with a directory where the file with the state of its first slot would be. -/
def occupied : Archive :=
  { camp with tree := { nodes := OrderedMap.empty.insert "save_00.json" .directory } }

/-- Neither call gets as far as to change a file. -/
theorem failed_call_keeps_slot_iff_of_occupied :
    (occupied.save { number := 0 }).1 = false ∧
      SameLoads occupied (occupied.save { number := 0 }).2 { number := 0 } ∧
      (occupied.delete { number := 0 }).1 = .ok false ∧
      SameLoads occupied (occupied.delete { number := 0 }).2 { number := 0 } := by
  have hsave : (occupied.save { number := 0 }).1 = false := by with_unfolding_all rfl
  have hdelete : (occupied.delete { number := 0 }).1 = .ok false := by with_unfolding_all rfl
  have hwrite : ∀ bytes, occupied.tree.write (occupied.slotPath { number := 0 }) bytes =
      .error .isDirectory := fun _ => by with_unfolding_all rfl
  have hremove : occupied.tree.remove (occupied.slotPath { number := 0 }) =
      .error .isDirectory := by
    with_unfolding_all rfl
  obtain ⟨hsaves, hdeletes⟩ := failed_call_keeps_slot_iff occupied { number := 0 }
  refine ⟨hsave, (hsaves _ hsave).2 fun s t h => ?_, hdelete, (hdeletes hdelete).2 fun t h => ?_⟩
  · cases (hwrite _).symm.trans h.written
  · cases hremove.symm.trans h

/-- An archive with gold saved in its first slot, and a directory where the description would be. -/
def blocked : Archive :=
  { camp with tree := { nodes := (OrderedMap.empty.insert "save_00.json"
    (.file (asciiBytes (purse.indented 0)))).insert "save_00_meta.json" .directory } }

/-- A save that fails at the description has replaced the gold by nothing, and a removal that fails
there has taken it away: the save is not loaded any more. -/
theorem slot_changed_of_blocked :
    (blocked.save { number := 0 }).1 = false ∧
      ¬ SameLoads blocked (blocked.save { number := 0 }).2 { number := 0 } ∧
      (blocked.delete { number := 0 }).1 = .ok false ∧
      ¬ SameLoads blocked (blocked.delete { number := 0 }).2 { number := 0 } := by
  have hsave : (blocked.save { number := 0 }).1 = false := by with_unfolding_all rfl
  have hdelete : (blocked.delete { number := 0 }).1 = .ok false := by with_unfolding_all rfl
  have hbefore : (blocked.loadInto { number := 0 } blocked.env true).1 = .ok true ∧
      (blocked.loadInto { number := 0 } blocked.env true).2.globals.get? "GOLD" =
        some (.value (.int 5)) := by
    have hfind : blocked.tree.find (blocked.slotPath { number := 0 }) =
        .ok (.file (asciiBytes (purse.indented 0))) := by
      with_unfolding_all rfl
    have hholds : blocked.HoldsJson { number := 0 } purse :=
      holdsJson_asciiBytes isReadable_purse hfind
    rw [loadInto_eq, stateAt_of_holdsJson hholds rfl rfl]
    exact ⟨rfl, rfl⟩
  refine ⟨hsave, fun hsame => ?_, hdelete, fun hsame => ?_⟩
  · rw [← hsame] at hbefore
    have hwrite : ∀ bytes, blocked.tree.write (blocked.slotPath { number := 0 }) bytes =
        .ok (blocked.tree.insert ["save_00.json"] (.file bytes)) := by
      with_unfolding_all exact fun _ => rfl
    rcases save_failed hsave with ⟨-, hnone⟩ | ⟨s, t, t', hwrites, hfind, hagrees⟩
    · exact hnone _ _ ⟨SavedState.ofEnvironment_of isScripted_camp _, rfl, hwrite _⟩
    · -- There was no gold to be saved.
      obtain rfl := Except.ok.inj
        (hwrites.saved.symm.trans (SavedState.ofEnvironment_of isScripted_camp _))
      rw [hwrites.loadInto hfind hagrees] at hbefore
      cases hbefore.2
  · rw [← hsame] at hbefore
    have hremove : blocked.tree.remove (blocked.slotPath { number := 0 }) =
        .ok { blocked.tree with nodes := blocked.tree.nodes.erase "save_00.json" } := by
      with_unfolding_all rfl
    obtain ⟨hslot, ⟨-, hnone⟩ | ⟨t, hremoves, hagrees⟩⟩ := delete_failed hdelete
    · exact hnone _ hremove
    · rw [hremoves.loadInto hagrees hslot] at hbefore
      cases hbefore.1

end Parley.Archive
