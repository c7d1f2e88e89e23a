import Parley.Proofs.Save.Reading
import Parley.Proofs.Save.State

/-!
# Slots as a Map

Whatever is written, saved, loaded and removed, a slot holds what was last saved to it: loading it
brings back the quest state of that moment, and nothing that is done to other slots matters. A slot
whose files the file system does not take cannot be saved to at all, and neither can quest state that
holds an integer with too many digits; a save that fails for one of these leaves the slot as it was.

* `Archive.lastSave`: the last save to a slot that was not removed, read off the calls;
* `Archive.Holds`: the invariant, which ties the files of all slots to their last saves;
* `Holds.perform`: no call breaks it;
* `slot_holds_last_save`: what saving, loading, checking and listing a slot then come to.
-/

namespace Parley

/-- A save of quest state under a name. -/
structure SlotSave where
  name : String
  env : Environment

namespace Archive

variable {a a' : Archive} {directory now : String} {here : List String}
  {kept : Nat → Option SlotSave} {slot : Nat}

/-! ## Calls and what they should leave -/

/-- What is done with quest state and its saves. -/
inductive Call
  | write (viewer : Option String) (name : String) (x : Stored)
  | save (slot : Nat) (name : String)
  | load (slot : Nat) (validate : Bool)
  | delete (slot : Nat)

/-- The archive after a call, be it refused or not. -/
def Call.perform (a : Archive) : Call → Archive
  | .write viewer name x =>
    match a.env.write viewer name x with
    | .ok env => { a with env }
    | .error _ => a
  | .save slot name => (a.save { number := slot } (.str name)).2
  | .load slot validate => (a.load { number := slot } validate).2
  | .delete slot => (a.delete { number := slot }).2

/-- The archive after calls. -/
def performAll (a : Archive) (calls : List Call) : Archive :=
  calls.foldl Call.perform a

/-- A call replaces or removes the save of a slot. A save of quest state that cannot be written does
not. -/
def Call.Changes (a : Archive) (slot : Nat) : Call → Prop
  | .save slot' _ => slot' = slot ∧ a.env.IsWritable
  | .delete slot' => slot' = slot
  | .write .. => False
  | .load .. => False

open scoped Classical in
/-- The saves that there should be after a call. -/
noncomputable def Call.record (a : Archive) (kept : Nat → Option SlotSave) : Call → Nat → Option SlotSave
  | .save slot name =>
    if a.env.IsWritable then Function.update kept slot (some ⟨name, a.env⟩) else kept
  | .delete slot => Function.update kept slot none
  | .write .. => kept
  | .load .. => kept

/-- The saves that there should be after calls. -/
noncomputable def recordAll : Archive → (Nat → Option SlotSave) → List Call → Nat → Option SlotSave
  | _, kept, [] => kept
  | a, kept, call :: rest => recordAll (call.perform a) (call.record a kept) rest

/-- The last save to a slot in a course of calls, unless it was removed. -/
noncomputable def lastSave (a : Archive) (calls : List Call) (slot : Nat) : Option SlotSave :=
  a.recordAll (fun _ => none) calls slot

/-- No call in a course changes the save of a slot. -/
def Untouched (a : Archive) (slot : Nat) : List Call → Prop
  | [] => True
  | call :: rest => ¬ call.Changes a slot ∧ Untouched (call.perform a) slot rest

theorem record_of_not_changes {call : Call} (h : ¬ call.Changes a slot) :
    call.record a kept slot = kept slot := by
  cases call with
  | write viewer name x => rfl
  | load slot' validate => rfl
  | delete slot' => exact Function.update_of_ne (fun hs => h hs.symm) _ _
  | save slot' name =>
    rw [Call.record]
    split
    · next hwritable => exact Function.update_of_ne (fun hs => h ⟨hs.symm, hwritable⟩) _ _
    · rfl

/-- A save that there should be after calls was there before, or is the last one made by them. -/
theorem recordAll_eq_some_iff {calls : List Call} {s : SlotSave} :
    a.recordAll kept calls slot = some s ↔
      (kept slot = some s ∧ a.Untouched slot calls) ∨
      ∃ before after, calls = before ++ .save slot s.name :: after ∧
        s.env = (a.performAll before).env ∧ s.env.IsWritable ∧
        ((Call.save slot s.name).perform (a.performAll before)).Untouched slot after := by
  -- The archive and the saves change with every call, so both are general in the induction.
  induction calls generalizing a kept with
  | nil => simp [recordAll, Untouched]
  | cons call rest ih =>
    rw [recordAll, ih, Untouched]
    constructor
    · rintro (⟨hrecord, hrest⟩ | ⟨before, after, rfl, henv, hwritable, hafter⟩)
      · by_cases hcall : call.Changes a slot
        · -- The call itself is the last save: a removal would have left nothing.
          cases call with
          | write viewer name x => exact hcall.elim
          | load slot' validate => exact hcall.elim
          | save slot' name =>
            obtain ⟨rfl, hwritable⟩ := hcall
            rw [Call.record, if_pos hwritable, Function.update_self] at hrecord
            obtain rfl := Option.some.inj hrecord
            exact .inr ⟨[], rest, rfl, rfl, hwritable, hrest⟩
          | delete slot' =>
            obtain rfl : slot' = slot := hcall
            rw [Call.record, Function.update_self] at hrecord
            cases hrecord
        · rw [record_of_not_changes hcall] at hrecord
          exact .inl ⟨hrecord, hcall, hrest⟩
      · -- The last save is among the later calls.
        exact .inr ⟨call :: before, after, rfl, henv, hwritable, hafter⟩
    · rintro (⟨hkept, hcall, hrest⟩ | ⟨before, after, hcalls, henv, hwritable, hafter⟩)
      · exact .inl ⟨(record_of_not_changes hcall).trans hkept, hrest⟩
      · cases before with
        -- No call before the last save: it is the first one, made on the archive as it was.
        | nil =>
          obtain ⟨rfl, rfl⟩ := List.cons.inj hcalls
          obtain ⟨name, env⟩ := s
          obtain rfl : env = a.env := henv
          refine .inl ⟨?_, hafter⟩
          rw [Call.record, if_pos hwritable, Function.update_self]
        | cons first before =>
          obtain ⟨rfl, rfl⟩ := List.cons.inj hcalls
          exact .inr ⟨before, after, rfl, henv, hwritable, hafter⟩

/-- The last save to a slot is one of quest state that could be written, and that no other such save to
it and no removal comes after. -/
theorem lastSave_eq_some_iff {calls : List Call} {s : SlotSave} :
    a.lastSave calls slot = some s ↔ ∃ before after, calls = before ++ .save slot s.name :: after ∧
      s.env = (a.performAll before).env ∧ s.env.IsWritable ∧
      ((Call.save slot s.name).perform (a.performAll before)).Untouched slot after := by
  -- There were no saves at the start, so the first alternative is void.
  rw [lastSave, recordAll_eq_some_iff]
  simp

/-! ## What the files hold -/

/-- The document in a file of a slot. -/
def document (now : String) (s : SlotSave) : SlotFile → Json
  | .state _ => .object (savedFields (.of s.env))
  | .description slot =>
    .object [("slot", .int slot), ("name", .str s.name), ("timestamp", .str now),
      ("variable_count", .int (SavedState.of s.env).variableCount)]

/-- The bytes in a file of a slot with a save, or without. -/
def content (now : String) (s : Option SlotSave) (f : SlotFile) : Option (List UInt8) :=
  s.map fun s => asciiBytes ((document now s f).indented 0)

/-- Quest state is scripted, now and in all saves, and the files hold the saves, which could be
written. -/
structure Holds (a : Archive) (directory now : String) (here : List String)
    (kept : Nat → Option SlotSave) : Prop where
  setting : a.directory = directory ∧ a.now = now
  scripted : a.env.IsScripted
  saved : ∀ slot, ∀ s ∈ kept slot, s.env.IsScripted ∧ s.env.IsWritable
  files : a.tree.Keeps directory here fun f => content now (kept f.slot) f

theorem isShort_document {s : SlotSave} {f : SlotFile} (h : s.env.IsWritable)
    (hslot : ({ number := f.slot } : Slot).isOverlong = false) (now : String) :
    (document now s f).isShort = true := by
  cases f with
  | state slot =>
    rw [document, isShort_savedFields, SavedState.isShort_fields_of]
    exact ⟨h.globals, h.speakers⟩
  | description slot =>
    have hnumber : Text.isOverlong (Text.ofInt slot) = false := hslot
    simp [document, Json.isShort, Json.fieldsShort, SavedState.variableCount_of, hnumber, h.count]

/-- What is in the file of a slot that the file system takes can be read back. -/
theorem isReadable_document {s : SlotSave} {f : SlotFile} (h : s.env.IsWritable) (now : String)
    (htakes : FileTree.Takes directory f.name) (limits : Limits) :
    (document now s f).IsReadable limits := by
  have hshort := isShort_document h (SlotFile.isOverlong_of_takes htakes) now
  cases f with
  | state slot => exact isReadable_savedFields ((isShort_savedFields _).symm.trans hshort) limits
  | description slot =>
    have hnames : ["slot", "name", "timestamp", "variable_count"].Nodup := by decide
    exact ⟨⟨hnames, trivial, trivial, trivial, trivial, trivial⟩, hshort,
      Nat.le_trans (by decide : 1 ≤ 3) limits.three_le_documents⟩

section Update

variable {t : FileTree} {s : Option SlotSave}

/-- With both files of a slot replaced, the files hold the other saves and the new one. -/
theorem keeps_both (h : t.Keeps directory here
    (Function.update (Function.update (fun f => content now (kept f.slot) f) (.state slot)
      (content now s (.state slot))) (.description slot) (content now s (.description slot)))) :
    t.Keeps directory here fun f => content now (Function.update kept slot s f.slot) f := by
  refine h.congr fun f _ => ?_
  by_cases hslot : f.slot = slot
  · subst hslot
    rw [Function.update_self]
    -- A file of the slot itself: the outer update is the description, the inner one the state.
    cases f with
    | state n => rw [Function.update_of_ne (by simp), SlotFile.slot, Function.update_self]
    | description n => rw [SlotFile.slot, Function.update_self]
  · have hstate : f ≠ .state slot := fun hf => hslot (congrArg SlotFile.slot hf)
    have hdescription : f ≠ .description slot := fun hf => hslot (congrArg SlotFile.slot hf)
    rw [Function.update_of_ne hslot, Function.update_of_ne hdescription,
      Function.update_of_ne hstate]

/-- The description need not be replaced if the file system does not take it. -/
theorem keeps_state (hdescription : ¬ FileTree.Takes directory (SlotFile.description slot).name)
    (h : t.Keeps directory here (Function.update (fun f => content now (kept f.slot) f)
      (.state slot) (content now s (.state slot)))) :
    t.Keeps directory here fun f => content now (Function.update kept slot s f.slot) f := by
  refine keeps_both (h.congr fun f htakes => Function.update_of_ne ?_ _ _)
  rintro rfl
  exact hdescription htakes

/-- No file need be replaced if the file system does not take the first one: the other one has the
longer name. -/
theorem keeps_neither (hstate : ¬ FileTree.Takes directory (SlotFile.state slot).name)
    (h : t.Keeps directory here fun f => content now (kept f.slot) f) :
    t.Keeps directory here fun f => content now (Function.update kept slot s f.slot) f := by
  refine keeps_state (fun htakes => hstate (SlotFile.takes_state htakes))
    (h.congr fun f htakes => Function.update_of_ne ?_ _ _)
  rintro rfl
  exact hstate htakes

end Update

/-- What is announced and noted is not part of what an archive holds. -/
theorem Holds.congr (h : a.Holds directory now here kept) (h' : Agrees a a') :
    a'.Holds directory now here kept := by
  refine ⟨⟨h'.directory.trans h.setting.1, h'.now.trans h.setting.2⟩, ?_, h.saved, ?_⟩
  · rw [h'.env]
    exact h.scripted
  · rw [h'.tree]
    exact h.files

theorem Holds.update {t : FileTree} {s : Option SlotSave} (h : a.Holds directory now here kept)
    (hs : ∀ x ∈ s, x.env.IsScripted ∧ x.env.IsWritable)
    (hfiles : t.Keeps directory here fun f => content now (Function.update kept slot s f.slot) f) :
    Holds { a with tree := t } directory now here (Function.update kept slot s) := by
  refine ⟨h.setting, h.scripted, fun slot' x hx => ?_, hfiles⟩
  -- The new save brings its own script values, the others had theirs before.
  by_cases hslot : slot' = slot
  · rw [hslot, Function.update_self] at hx
    exact hs x hx
  · rw [Function.update_of_ne hslot] at hx
    exact h.saved slot' x hx

/-! ## One call -/

theorem agrees_failSave (a : Archive) (written : Json) (reason : String) :
    Agrees a (a.failSave written reason).2 := by
  have h := agrees_announce (a.note (.saveFailed reason)) .saveFailed written (some (.other reason))
  exact ⟨h.env, h.tree, h.directory, h.now, h.limits, h.records⟩

/-- The file system takes both files of a slot. -/
def Fits (a : Archive) (slot : Nat) : Prop :=
  FileTree.Takes a.directory (SlotFile.state slot).name ∧
    FileTree.Takes a.directory (SlotFile.description slot).name

/-- A save whose numbers can be written writes both files of the slot, the description last. -/
theorem save_eq (h : a.env.IsScripted)
    (hwritable : canWrite { number := slot } (.of a.env) = true) (name : String) :
    ∃ b, Agrees a b ∧ a.save { number := slot } (.str name) =
      match b.tree.write (Path.join b.directory (SlotFile.state slot).name)
        (asciiBytes ((document b.now ⟨name, b.env⟩ (.state slot)).indented 0)) with
      | .error e => b.failSave (.int slot) e.message
      | .ok t =>
        match t.write (Path.join b.directory (SlotFile.description slot).name)
          (asciiBytes ((document b.now ⟨name, b.env⟩ (.description slot)).indented 0)) with
        | .error e => ({ b with tree := t } : Archive).failSave (.int slot) e.message
        | .ok t => (true, ({ b with tree := t, currentSlot := some (.int slot) } : Archive).announce
            .saveCompleted (.int slot)) := by
  have hstart := agrees_announce a .saveStarted (.int slot) none
  refine ⟨_, hstart, ?_⟩
  rw [Archive.save]
  dsimp only
  -- From here on the archive is the announced one, whatever it announced.
  rw [← hstart.env] at h hwritable
  generalize a.announce .saveStarted (.int slot) none = b at *
  obtain ⟨hvalues, hslot⟩ := (canWrite_iff _ _).1 hwritable
  have hstate := isShort_document (s := ⟨name, b.env⟩) (f := .state slot) hvalues hslot b.now
  have hdescription :=
    isShort_document (s := ⟨name, b.env⟩) (f := .description slot) hvalues hslot b.now
  rw [SavedState.ofEnvironment_of h, slotPath_eq]
  dsimp only [writeJson, document] at hstate ⊢
  rw [hwritable, Bool.not_true, if_neg Bool.false_ne_true, written_of_isShort hstate]
  cases b.tree.write (Path.join b.directory (SlotFile.state slot).name)
      (asciiBytes ((Json.object (savedFields (.of b.env))).indented 0)) with
  | error e => rfl
  | ok t =>
    -- The state is written; the description is written to the tree that this left.
    dsimp only [Except.map, metadataJson]
    rw [metadataPath_eq]
    dsimp only [document] at hdescription ⊢
    rw [written_of_isShort hdescription]
    generalize t.write _ _ = written
    cases written with
    | error e => rfl
    | ok t => exact if_pos hdescription

/-- A save with a number that cannot be written fails before it touches a file. -/
theorem save_refused (h : a.env.IsScripted)
    (hwritable : canWrite { number := slot } (.of a.env) = false) (name : String) :
    ∃ b, Agrees a b ∧ a.save { number := slot } (.str name) = (false, b) := by
  have hstart := agrees_announce a .saveStarted (.int slot) none
  rw [← hstart.env] at h hwritable
  rw [Archive.save]
  dsimp only
  generalize a.announce .saveStarted (.int slot) none = b at *
  have hend := agrees_failSave b (.int slot) (Text.TooManyDigits.message {})
  rw [SavedState.ofEnvironment_of h]
  dsimp only
  rw [hwritable, Bool.not_false, if_pos rfl]
  exact ⟨_, hstart.trans hend, rfl⟩

/-- A save whose numbers cannot be written fails, and what was held stays held. -/
theorem Holds.save_of_refused (h : a.Holds directory now here kept) (slot : Nat) (name : String)
    (hcan : canWrite { number := slot } (.of a.env) = false) :
    ((a.save { number := slot } (.str name)).1 = true ↔ a.env.IsWritable ∧ a.Fits slot) ∧
      (a.save { number := slot } (.str name)).2.Holds directory now here
        ((Call.save slot name).record a kept) := by
  obtain ⟨b, hb, hsave⟩ := save_refused h.scripted hcan name
  have hwritable : ¬ (a.env.IsWritable ∧ ({ number := slot } : Slot).isOverlong = false) := by
    rw [← canWrite_iff, hcan]
    exact Bool.false_ne_true
  rw [Call.record, hsave]
  refine ⟨⟨nofun, fun ⟨henv, hfits⟩ => ?_⟩, ?_⟩
  · exact absurd ⟨henv, SlotFile.isOverlong_of_takes hfits.1⟩ hwritable
  · obtain ⟨rfl, rfl⟩ := h.setting
    refine Holds.congr ?_ hb
    split
    · next henv =>
      -- Quest state can be written, so it is the slot that has too long a number for any file.
      have hstate : ¬ FileTree.Takes a.directory (SlotFile.state slot).name :=
        fun htakes => hwritable ⟨henv, SlotFile.isOverlong_of_takes htakes⟩
      exact h.update (fun x hx => Option.some.inj hx ▸ ⟨h.scripted, henv⟩)
        (keeps_neither hstate h.files)
    · exact h

/-- A save whose numbers can be written is held as far as the file system takes its files. -/
theorem Holds.save_of_canWrite (h : a.Holds directory now here kept) (slot : Nat) (name : String)
    (hcan : canWrite { number := slot } (.of a.env) = true) :
    ((a.save { number := slot } (.str name)).1 = true ↔ a.env.IsWritable ∧ a.Fits slot) ∧
      (a.save { number := slot } (.str name)).2.Holds directory now here
        ((Call.save slot name).record a kept) := by
  obtain ⟨b, hb, hsave⟩ := save_eq h.scripted hcan name
  have hwritable := ((canWrite_iff _ _).1 hcan).1
  have hheld := h.congr hb
  obtain ⟨rfl, rfl⟩ := hheld.setting
  rw [Call.record, if_pos hwritable, hsave, and_iff_right hwritable, Fits, ← hb.directory]
  rw [← hb.env] at hwritable ⊢
  have hnew : ∀ x ∈ some (SlotSave.mk name b.env), x.env.IsScripted ∧ x.env.IsWritable :=
    fun x hx => Option.some.inj hx ▸ ⟨hheld.scripted, hwritable⟩
  -- Either both files are written, or only the state, or none.
  rcases hheld.files.write (.state slot) _ with
    ⟨t₁, hstate, hwrite₁, hfiles₁⟩ | ⟨hstate, e, hwrite₁⟩
  · rw [hwrite₁]
    dsimp only
    rcases hfiles₁.write (.description slot) _ with
      ⟨t₂, hdescription, hwrite₂, hfiles₂⟩ | ⟨hdescription, e, hwrite₂⟩
    · rw [hwrite₂]
      refine ⟨⟨fun _ => ⟨hstate, hdescription⟩, fun _ => rfl⟩, ?_⟩
      -- Both files are written, and the end of the save is announced.
      have hend := agrees_announce { b with tree := t₂, currentSlot := some (.int slot) }
        .saveCompleted (.int slot) none
      exact (hheld.update hnew (keeps_both hfiles₂)).congr
        ⟨hend.env, hend.tree, hend.directory, hend.now, hend.limits, hend.records⟩
    · rw [hwrite₂]
      -- The state is written, but the name of the description is too long.
      refine ⟨⟨fun hsaved => Bool.noConfusion hsaved,
        fun hfits => absurd hfits.2 hdescription⟩, ?_⟩
      exact (hheld.update hnew (keeps_state hdescription hfiles₁)).congr (agrees_failSave _ _ _)
  · rw [hwrite₁]
    -- Not even the state is written.
    refine ⟨⟨fun hsaved => Bool.noConfusion hsaved, fun hfits => absurd hfits.1 hstate⟩, ?_⟩
    exact (hheld.update hnew (keeps_neither hstate hheld.files)).congr (agrees_failSave _ _ _)

/-- A save succeeds if its numbers can be written and the file system takes the files, and is held as
far as it does. -/
theorem Holds.save (h : a.Holds directory now here kept) (slot : Nat) (name : String) :
    ((a.save { number := slot } (.str name)).1 = true ↔ a.env.IsWritable ∧ a.Fits slot) ∧
      (a.save { number := slot } (.str name)).2.Holds directory now here
        ((Call.save slot name).record a kept) := by
  cases hcan : canWrite { number := slot } (.of a.env) with
  | false => exact h.save_of_refused slot name hcan
  | true => exact h.save_of_canWrite slot name hcan

theorem Holds.delete (h : a.Holds directory now here kept) (slot : Nat) :
    (a.delete { number := slot }).2.Holds directory now here (Function.update kept slot none) := by
  have hnone : ∀ x ∈ (none : Option SlotSave), x.env.IsScripted ∧ x.env.IsWritable :=
    fun x hx => nomatch hx
  obtain ⟨rfl, rfl⟩ := h.setting
  rw [Archive.delete]
  split
  · next hlong =>
    -- There is no file of a slot whose number is that long.
    have hstate : ¬ FileTree.Takes a.directory (SlotFile.state slot).name := by
      intro htakes
      exact Bool.noConfusion (hlong.symm.trans (SlotFile.isOverlong_of_takes htakes))
    exact (h.update hnone (keeps_neither hstate h.files)).congr (.refl a)
  · dsimp only
    rw [deleteFiles, slotPath_eq]
    rcases h.files.remove (.state slot) with ⟨t₁, hstate, hremove₁, hfiles₁⟩ | ⟨hstate, e, hremove₁⟩
    · rw [hremove₁]
      dsimp only
      rw [metadataPath_eq]
      rcases hfiles₁.remove (.description slot) with
        ⟨t₂, hdescription, hremove₂, hfiles₂⟩ | ⟨hdescription, e, hremove₂⟩
      · rw [hremove₂]
        exact h.update hnone (keeps_both hfiles₂)
      · rw [hremove₂]
        exact (h.update hnone (keeps_state hdescription hfiles₁)).congr ⟨rfl, rfl, rfl, rfl, rfl, rfl⟩
    · rw [hremove₁]
      exact (h.update hnone (keeps_neither hstate h.files)).congr ⟨rfl, rfl, rfl, rfl, rfl, rfl⟩

/-- The file of a held save is read as its fields. -/
theorem Holds.readJson (h : a.Holds directory now here kept) {f : SlotFile} {s : SlotSave}
    (htakes : FileTree.Takes a.directory f.name) (hs : kept f.slot = some s) :
    a.tree.readJson (Path.join a.directory f.name) a.limits = .ok (document a.now s f) := by
  obtain ⟨rfl, rfl⟩ := h.setting
  refine readJson_asciiBytes (isReadable_document (h.saved f.slot s hs).2 a.now htakes a.limits) ?_
  rw [h.files.find htakes, hs]
  rfl

theorem Holds.pathExists (h : a.Holds directory now here kept) {f : SlotFile}
    (htakes : FileTree.Takes a.directory f.name) :
    a.tree.pathExists (Path.join a.directory f.name) = .ok (kept f.slot).isSome := by
  obtain ⟨rfl, rfl⟩ := h.setting
  rw [h.files.pathExists htakes]
  cases kept f.slot <;> rfl

theorem Holds.isSaved (h : a.Holds directory now here kept)
    (htakes : FileTree.Takes a.directory (SlotFile.state slot).name) :
    a.isSaved { number := slot } = .ok (kept slot).isSome := by
  have hslot : ({ number := slot } : Slot).isOverlong = false := SlotFile.isOverlong_of_takes htakes
  rw [Archive.isSaved, hslot, if_neg Bool.false_ne_true, slotPath_eq, h.pathExists htakes]
  rfl

theorem Holds.load_none (h : a.Holds directory now here kept) (validate : Bool)
    (htakes : FileTree.Takes a.directory (SlotFile.state slot).name) (hs : kept slot = none) :
    a.load { number := slot } validate = (.ok false, a) := by
  rw [Archive.load, h.isSaved htakes, hs]
  rfl

/-- Loading a held save puts its quest state back. -/
theorem Holds.load_some {s : SlotSave} (h : a.Holds directory now here kept) (validate : Bool)
    (htakes : FileTree.Takes a.directory (SlotFile.state slot).name) (hs : kept slot = some s) :
    ∃ b, a.load { number := slot } validate = (.ok true, b) ∧
      Agrees { a with env := a.env.restore s.env.snapshot } b := by
  have hstart := agrees_announce a .loadStarted (.int slot) none
  have hread := (h.congr hstart).readJson (f := .state slot) (by rwa [hstart.directory]) hs
  -- The checksum takes no part in what is restored.
  have hform : ∀ v, SavedState.ofJson (.object (withoutChecksum (savedFields (.of s.env)))) v =
      .ok (.of s.env) := by
    intro v
    rw [withoutChecksum_savedFields, SavedState.ofJson_fields]
  rw [Archive.load, h.isSaved htakes, hs]
  dsimp only [Option.isSome_some]
  generalize a.announce .loadStarted (.int slot) none = b at *
  have hend := agrees_announce
    { b with env := b.env.restore s.env.snapshot, currentSlot := some (.int slot) }
    .loadCompleted (.int slot) none
  refine ⟨_, ?_, ⟨hend.env.trans ?_, hend.tree.trans hstart.tree,
    hend.directory.trans hstart.directory, hend.now.trans hstart.now,
    hend.limits.trans hstart.limits, hend.records.trans hstart.records⟩⟩
  · -- The checksum matches, so it makes no difference whether it is looked at.
    rw [loadFile, slotPath_eq, hread]
    dsimp only [document]
    rw [isCorrupted_savedFields, Bool.and_false, if_neg (by decide), restoreFields, hform]
    dsimp only
    rw [SavedState.snapshot_of (h.saved slot s hs).1]
  · rw [hstart.env]

/-- A slot whose file the file system does not take cannot be loaded. -/
theorem Holds.load_error (h : a.Holds directory now here kept) (validate : Bool)
    (htakes : ¬ FileTree.Takes a.directory (SlotFile.state slot).name) :
    ∃ fault, a.load { number := slot } validate = (.error fault, a) := by
  obtain ⟨rfl, rfl⟩ := h.setting
  rw [Archive.load, Archive.isSaved, slotPath_eq, h.files.pathExists_error htakes]
  cases ({ number := slot } : Slot).isOverlong <;> exact ⟨_, rfl⟩

theorem isScripted_restore {env : Environment} (other : Environment) (h : env.IsScripted) :
    (other.restore env.snapshot).IsScripted :=
  ⟨h.globals, h.speakers⟩

theorem Holds.load (h : a.Holds directory now here kept) (slot : Nat) (validate : Bool) :
    (a.load { number := slot } validate).2.Holds directory now here kept := by
  by_cases htakes : FileTree.Takes a.directory (SlotFile.state slot).name
  · cases hs : kept slot with
    | none =>
      rw [h.load_none validate htakes hs]
      exact h
    | some s =>
      -- The state that is put back was scripted when it was saved.
      obtain ⟨b, hload, hb⟩ := h.load_some validate htakes hs
      have hheld : Holds { a with env := a.env.restore s.env.snapshot } directory now here kept :=
        ⟨h.setting, isScripted_restore a.env (h.saved slot s hs).1, h.saved, h.files⟩
      rw [hload]
      exact hheld.congr hb
  · obtain ⟨fault, hload⟩ := h.load_error validate htakes
    rw [hload]
    exact h

theorem Holds.validate (h : a.Holds directory now here kept)
    (htakes : FileTree.Takes a.directory (SlotFile.state slot).name) :
    a.validate { number := slot } = .ok (kept slot).isSome := by
  rw [Archive.validate, h.isSaved htakes]
  cases hs : kept slot with
  | none => rfl
  | some s =>
    dsimp only [Option.isSome_some]
    rw [slotPath_eq, h.readJson htakes hs]
    dsimp only [document]
    rw [isCorrupted_savedFields]
    rfl

/-! ## Descriptions -/

/-- What is listed of a save. -/
def listing (now : String) (slot : Nat) (s : SlotSave) : SaveMetadata :=
  ⟨.int slot, .str s.name, .str now, .int s.env.variableCount⟩

theorem Holds.readMetadata (h : a.Holds directory now here kept)
    (htakes : FileTree.Takes a.directory (SlotFile.description slot).name) :
    a.readMetadata { number := slot } = (.ok ((kept slot).map (listing a.now slot)), a) := by
  rw [Archive.readMetadata, metadataPath_eq, h.pathExists htakes, SlotFile.slot]
  cases hs : kept slot with
  | none => rfl
  | some s =>
    dsimp only [Option.isSome_some]
    rw [h.readJson htakes hs]
    dsimp only [document]
    rw [SavedState.variableCount_of]
    rfl

theorem Holds.readSlots (h : a.Holds directory now here kept) {slots : List Nat}
    (htakes : ∀ slot ∈ slots, FileTree.Takes a.directory (SlotFile.description slot).name) :
    a.readSlots slots = (.ok (slots.map fun slot => (kept slot).map (listing a.now slot)), a) := by
  induction slots with
  | nil => rfl
  | cons slot rest ih =>
    obtain ⟨hslot, hrest⟩ := List.forall_mem_cons.1 htakes
    rw [Archive.readSlots, h.readMetadata hslot]
    dsimp only
    rw [ih hrest]
    rfl

/-- If the file system takes one listed slot, all listed slots are described. -/
theorem Holds.slots (h : a.Holds directory now here kept) (hslot : slot < slotCount)
    (hfits : a.Fits slot) :
    a.slots.1 = .ok ((List.range slotCount).map fun n => (kept n).map (listing a.now n)) := by
  have htakes : ∀ n ∈ List.range slotCount,
      FileTree.Takes a.directory (SlotFile.description n).name :=
    fun n hn => SlotFile.takes_listed hslot (List.mem_range.1 hn) hfits.2
  rw [Archive.slots, h.readSlots htakes]

/-! ## Courses of calls -/

/-- No call breaks the invariant. -/
theorem Holds.perform (h : a.Holds directory now here kept) (call : Call) :
    (call.perform a).Holds directory now here (call.record a kept) := by
  cases call with
  | write viewer name x =>
    show Holds (match a.env.write viewer name x with
      | .ok env => { a with env }
      | .error _ => a) directory now here kept
    -- A refused write leaves the archive as it is.
    cases hwrite : a.env.write viewer name x with
    | error fault => exact h
    | ok env => exact ⟨h.setting, h.scripted.write hwrite, h.saved, h.files⟩
  | save slot name => exact (h.save slot name).2
  | load slot validate => exact h.load slot validate
  | delete slot => exact h.delete slot

theorem Holds.performAll (h : a.Holds directory now here kept) (calls : List Call) :
    (a.performAll calls).Holds directory now here (a.recordAll kept calls) := by
  induction calls generalizing a kept with
  | nil => exact h
  | cons call rest ih => exact ih (h.perform call)

theorem holds_of_isEmptyDirectory (hscripted : a.env.IsScripted)
    (hempty : a.tree.IsEmptyDirectory a.directory) :
    ∃ here, a.Holds a.directory a.now here fun _ => none := by
  obtain ⟨here, hfiles⟩ := hempty.keeps
  have hnone : ∀ slot : Nat, ∀ s ∈ (none : Option SlotSave),
      s.env.IsScripted ∧ s.env.IsWritable :=
    fun slot s hs => nomatch hs
  exact ⟨here, ⟨rfl, rfl⟩, hscripted, hnone, hfiles⟩

/-- After any calls on an archive that was empty at the start, every slot whose files the file system
takes can be saved to exactly if the numbers in quest state can be written; it can be loaded exactly if
quest state that can be written was saved to it and not removed since, and then quest state is what it
was at the last such save; it is valid in the same cases; and in these it is listed with the name and
the count of variables of that save, if slots of its number are listed. -/
theorem slot_holds_last_save (a : Archive) (hscripted : a.env.IsScripted)
    (hempty : a.tree.IsEmptyDirectory a.directory) (calls : List Call) (slot : Nat)
    (hfits : a.Fits slot) :
    (∀ name, ((a.performAll calls).save { number := slot } (.str name)).1 = true ↔
        (a.performAll calls).env.IsWritable) ∧
      (∀ validate, ((a.performAll calls).load { number := slot } validate).1 =
        .ok (a.lastSave calls slot).isSome) ∧
      (∀ validate, ∀ s ∈ a.lastSave calls slot,
        ((a.performAll calls).load { number := slot } validate).2.env =
          (a.performAll calls).env.restore s.env.snapshot) ∧
      (a.performAll calls).validate { number := slot } = .ok (a.lastSave calls slot).isSome ∧
      (slot < slotCount → ∃ listed, (a.performAll calls).slots.1 = .ok listed ∧
        listed[slot]? = some ((a.lastSave calls slot).map (listing a.now slot))) := by
  obtain ⟨here, hstart⟩ := holds_of_isEmptyDirectory hscripted hempty
  have h := hstart.performAll calls
  obtain ⟨hdirectory, hnow⟩ := h.setting
  -- The calls move neither the directory nor the clock.
  have hfits' : (a.performAll calls).Fits slot := by
    rw [Fits, hdirectory]
    exact hfits
  refine ⟨fun name => (h.save slot name).1.trans (and_iff_left hfits'), ?_, ?_,
    h.validate hfits'.1, ?_⟩
  · intro validate
    cases hs : a.lastSave calls slot with
    | none => rw [h.load_none validate hfits'.1 hs]; rfl
    | some s =>
      obtain ⟨b, hload, -⟩ := h.load_some validate hfits'.1 hs
      rw [hload]
      rfl
  · intro validate s hs
    obtain ⟨b, hload, hb⟩ := h.load_some validate hfits'.1 hs
    rw [hload]
    exact hb.env
  · intro hslot
    refine ⟨_, h.slots hslot hfits', ?_⟩
    rw [List.getElem?_map, List.getElem?_range hslot, hnow]
    rfl

/-- An archive in an empty directory, with gold to be counted. -/
def camp : Archive where
  env := { manifest := Manifest.empty.declare (.make "GOLD" .global .int) }
  tree := {}
  directory := "."
  now := "noon"

theorem isScripted_camp : camp.env.IsScripted :=
  ⟨Variables.isScripted_empty, fun _ _ hm => nomatch hm⟩

theorem slot_holds_last_save_of_camp :
    camp.env.IsScripted ∧ camp.tree.IsEmptyDirectory camp.directory ∧ camp.Fits 3 ∧
      let a := camp.performAll [.write none "GOLD" (.value (.int 5)), .save 3 "Rich",
        .write none "GOLD" (.value (.int 0)), .save 4 "Poor", .delete 4]
      (a.load { number := (3 : Nat) }).1 = .ok true ∧
        (a.load { number := (3 : Nat) }).2.env.globals.get? "GOLD" = some (.value (.int 5)) := by
  have hempty : camp.tree.IsEmptyDirectory camp.directory := FileTree.isEmptyDirectory_root
  have hfits : camp.Fits 3 := by
    unfold Fits FileTree.Takes
    decide +kernel
  refine ⟨isScripted_camp, hempty, hfits, ?_⟩
  have hlast : camp.lastSave [.write none "GOLD" (.value (.int 5)), .save 3 "Rich",
      .write none "GOLD" (.value (.int 0)), .save 4 "Poor", .delete 4] 3 =
      some ⟨"Rich", (camp.performAll [.write none "GOLD" (.value (.int 5))]).env⟩ := by
    -- Five pieces of gold can be written, and what comes later is done to another slot.
    have hwritable : (camp.performAll [.write none "GOLD" (.value (.int 5))]).env.IsWritable :=
      ((canWrite_iff { number := 3 } _).1 rfl).1
    refine lastSave_eq_some_iff.2 ⟨[.write none "GOLD" (.value (.int 5))],
      [.write none "GOLD" (.value (.int 0)), .save 4 "Poor", .delete 4], rfl, rfl, hwritable, ?_⟩
    simp [Untouched, Call.Changes]
  obtain ⟨-, hload, henv, -, -⟩ := slot_holds_last_save camp isScripted_camp hempty _ 3 hfits
  refine ⟨(hload true).trans (by rw [hlast]; rfl), ?_⟩
  rw [henv true _ hlast]
  rfl

/-- A save fails where the name of a file would be too long, and where there is more gold than can be
written. -/
theorem save_fails_of_long_name :
    camp.env.IsScripted ∧ camp.tree.IsEmptyDirectory camp.directory ∧
      (camp.save { number := (10 ^ 241 : Nat) } (.str "Far")).1 = false ∧
      ((camp.performAll [.write none "GOLD" (.value (.int Text.largeNumber))]).save
        { number := (0 : Nat) } (.str "Rich")).1 = false := by
  have hempty : camp.tree.IsEmptyDirectory camp.directory := FileTree.isEmptyDirectory_root
  obtain ⟨here, hheld⟩ := holds_of_isEmptyDirectory isScripted_camp hempty
  have hlong : ¬ camp.Fits (10 ^ 241) :=
    fun hfits => SlotFile.not_takes_of_le (Nat.le_refl _) hfits.2
  have hgold : (camp.performAll [.write none "GOLD" (.value (.int Text.largeNumber))]).env.globals.get?
      "GOLD" = some (.value (.int Text.largeNumber)) := rfl
  refine ⟨isScripted_camp, hempty, ?_, ?_⟩
  · rw [← Bool.not_eq_true, (hheld.save (10 ^ 241) "Far").1]
    exact fun h => hlong h.2
  · have hrich := hheld.performAll [.write none "GOLD" (.value (.int Text.largeNumber))]
    rw [← Bool.not_eq_true, (hrich.save 0 "Rich").1]
    rintro ⟨hwritable, -⟩
    have hshort := hwritable.globals "GOLD" Text.largeNumber hgold
    rw [Text.isOverlong_ofInt_largeNumber] at hshort
    cases hshort

end Archive

end Parley
