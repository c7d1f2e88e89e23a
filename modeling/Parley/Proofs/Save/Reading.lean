import Parley.Proofs.Save.SlotFiles

/-!
# Reading Saves

What is read from the files of a slot may be anything: no text, no document, a document that is no
save, or a directory. Most of it is expected and answered with false. We say exactly what is not
expected, what the answers are to everything else, and how a load is announced.

* `FileTree.TripsText`, `FileTree.Trips`: what reading a description, or a save, does not expect;
* `Archive.loadFile_cases`, `Archive.readMetadata_cases`: what reading one file comes to;
* `Archive.reading_fails_iff`: when loading, checking and listing saves fail, what loading and
  checking answer if they do not, and what a load announces.
-/

namespace Parley

namespace FileTree

variable {t : FileTree} {limits : Limits} {path : String} {node : FileNode} {document : Json}

/-- A path leads to a file with a document in it. -/
def HoldsJson (t : FileTree) (limits : Limits) (path : String) (document : Json) : Prop :=
  ∃ bytes text, t.find path = .ok (.file bytes) ∧ Text.decodeUtf8 bytes = some text ∧
    Json.ofText text limits = .ok document

/-- Bytes are no UTF-8, or a text that is refused for the limits of the reader. -/
def IsUnexpected (limits : Limits) (bytes : List UInt8) : Prop :=
  Text.decodeUtf8 bytes = none ∨ ∃ text e, Text.decodeUtf8 bytes = some text ∧
    Json.ofText text limits = .error e ∧ e ≠ .notJson

/-- A path cannot be looked at, or leads to a file that is not UTF-8 or beyond the limits of the
reader. -/
def TripsText (t : FileTree) (limits : Limits) (path : String) : Prop :=
  t.find path = .error .nameTooLong ∨
    ∃ bytes, t.find path = .ok (.file bytes) ∧ IsUnexpected limits bytes

/-- A path cannot be looked at, or leads to a file that is not UTF-8 or beyond the limits of the reader,
or whose document is no object. -/
def Trips (t : FileTree) (limits : Limits) (path : String) : Prop :=
  t.TripsText limits path ∨ ∃ document, t.HoldsJson limits path document ∧ document.fields? = none

theorem pathExists_cases (t : FileTree) (path : String) :
    (t.find path = .error .nameTooLong ∧ t.pathExists path = .error .nameTooLong) ∨
      (t.find path ≠ .error .nameTooLong ∧ (∀ node, t.find path ≠ .ok node) ∧
        t.pathExists path = .ok false) ∨
      ∃ node, t.find path = .ok node ∧ t.pathExists path = .ok true := by
  rw [pathExists]
  cases hfind : t.find path with
  | ok node => exact .inr (.inr ⟨node, rfl, rfl⟩)
  | error e =>
    cases e with
    | nameTooLong => exact .inl ⟨rfl, rfl⟩
    | _ =>
      refine .inr (.inl ⟨?_, ?_, rfl⟩)
      · intro h
        cases h
      · intro node h
        cases h

/-- Where nothing is found, nothing but a path that cannot be looked at is unexpected. -/
theorem not_trips_of_not_found (hlong : t.find path ≠ .error .nameTooLong)
    (hnone : ∀ node, t.find path ≠ .ok node) : ¬ t.Trips limits path := by
  rintro ((hfind | ⟨bytes, hfind, -⟩) | ⟨document, ⟨bytes, text, hfind, -⟩, -⟩)
  · exact hlong hfind
  · exact hnone _ hfind
  · exact hnone _ hfind

theorem not_trips (htext : ¬ t.TripsText limits path)
    (hobject : ∀ document, t.HoldsJson limits path document → document.fields? ≠ none) :
    ¬ t.Trips limits path := by
  rintro (htext' | ⟨document, hholds, hnone⟩)
  · exact htext htext'
  · exact hobject document hholds hnone

/-- A file has at most one document. -/
theorem HoldsJson.eq {document' : Json} (h : t.HoldsJson limits path document)
    (h' : t.HoldsJson limits path document') : document = document' := by
  obtain ⟨bytes, text, hfind, htext, hread⟩ := h
  obtain ⟨bytes', text', hfind', htext', hread'⟩ := h'
  cases hfind.symm.trans hfind'
  cases htext.symm.trans htext'
  exact Except.ok.inj (hread.symm.trans hread')

/-- A document that is held is nothing unexpected. -/
theorem HoldsJson.not_tripsText (h : t.HoldsJson limits path document) :
    ¬ t.TripsText limits path := by
  obtain ⟨bytes, text, hfind, htext, hread⟩ := h
  rintro (hfind' | ⟨bytes', hfind', hnone | ⟨text', e, htext', hread', -⟩⟩)
  · cases hfind.symm.trans hfind'
  · cases hfind.symm.trans hfind'
    cases htext.symm.trans hnone
  · cases hfind.symm.trans hfind'
    cases htext.symm.trans htext'
    cases hread.symm.trans hread'

/-- An object is no surprise. -/
theorem HoldsJson.not_trips {fields : List (String × Json)}
    (h : t.HoldsJson limits path (.object fields)) : ¬ t.Trips limits path := by
  refine FileTree.not_trips h.not_tripsText fun document hother => ?_
  rw [← h.eq hother]
  exact nofun

/-- What is found is unexpected, or neither that nor a document, or a document. -/
theorem readJson_cases (h : t.find path = .ok node) :
    (t.TripsText limits path ∧
        ∃ e fault, e.fault? = some fault ∧ t.readJson path limits = .error e) ∨
      (¬ t.TripsText limits path ∧ (∀ document, ¬ t.HoldsJson limits path document) ∧
        ∃ e, e.fault? = none ∧ t.readJson path limits = .error e) ∨
      ∃ document, t.HoldsJson limits path document ∧ t.readJson path limits = .ok document := by
  rw [readJson, readText, read, h]
  cases node with
  | directory =>
    refine .inr (.inl ⟨?_, ?_, .file .isDirectory, rfl, rfl⟩)
    · rintro (hfind | ⟨bytes, hfind, -⟩) <;> cases h.symm.trans hfind
    · rintro document ⟨bytes, text, hfind, -⟩
      cases h.symm.trans hfind
  | file bytes =>
    dsimp only
    cases htext : Text.decodeUtf8 bytes with
    | none => exact .inl ⟨.inr ⟨bytes, h, .inl htext⟩, _, _, rfl, rfl⟩
    | some text =>
      dsimp only
      cases hjson : Json.ofText text limits with
      | ok document => exact .inr (.inr ⟨document, ⟨bytes, text, h, htext, hjson⟩, rfl⟩)
      | error e =>
        -- Only for a text that is no document at all the reader has an answer.
        have hlimit : e ≠ .notJson → t.TripsText limits path :=
          fun he => .inr ⟨bytes, h, .inr ⟨text, e, htext, hjson, he⟩⟩
        cases e with
        | tooManyDigits => exact .inl ⟨hlimit nofun, _, _, rfl, rfl⟩
        | tooDeep => exact .inl ⟨hlimit nofun, _, _, rfl, rfl⟩
        | notJson =>
          refine .inr (.inl ⟨?_, ?_, _, rfl, rfl⟩)
          · rintro (hfind | ⟨bytes', hfind, hnone | ⟨text', e, htext', hjson', he⟩⟩)
            · cases h.symm.trans hfind
            · cases h.symm.trans hfind
              cases htext.symm.trans hnone
            · cases h.symm.trans hfind
              cases htext.symm.trans htext'
              cases hjson.symm.trans hjson'
              exact he rfl
          · rintro document ⟨bytes', text', hfind, htext', hjson'⟩
            cases h.symm.trans hfind
            cases htext.symm.trans htext'
            cases hjson.symm.trans hjson'

end FileTree

namespace Archive

variable {a b : Archive} {slot : Slot} {validate : Bool} {node : FileNode}

/-- An archive with the quest state, the files and the settings of another one. -/
structure Agrees (a a' : Archive) : Prop where
  env : a'.env = a.env
  tree : a'.tree = a.tree
  directory : a'.directory = a.directory
  now : a'.now = a.now
  limits : a'.limits = a.limits
  records : a'.records = a.records

theorem Agrees.refl (a : Archive) : Agrees a a :=
  ⟨rfl, rfl, rfl, rfl, rfl, rfl⟩

theorem Agrees.trans {c : Archive} (h : Agrees a b) (h' : Agrees b c) : Agrees a c :=
  ⟨h'.env.trans h.env, h'.tree.trans h.tree, h'.directory.trans h.directory, h'.now.trans h.now,
    h'.limits.trans h.limits, h'.records.trans h.records⟩

theorem agrees_announce (a : Archive) (kind : SaveEventKind) (written : Json)
    (failure : Option SaveFailure) : Agrees a (a.announce kind written failure) := by
  rw [announce]
  split
  · exact ⟨rfl, rfl, rfl, rfl, rfl, rfl⟩
  · exact .refl a

theorem slotPath_congr (h : b.directory = a.directory) (slot : Slot) :
    b.slotPath slot = a.slotPath slot := by
  rw [slotPath, slotPath, h]

theorem metadataPath_congr (h : b.directory = a.directory) (slot : Slot) :
    b.metadataPath slot = a.metadataPath slot := by
  rw [metadataPath, metadataPath, h]

/-! ## Loading and checking -/

/-- The file of a slot holds a document. -/
def HoldsJson (a : Archive) (slot : Slot) (document : Json) : Prop :=
  a.tree.HoldsJson a.limits (a.slotPath slot) document

/-- A slot cannot be named by a path, or reading its file is not expected. -/
def Trips (a : Archive) (slot : Slot) : Prop :=
  slot.isOverlong = true ∨ a.tree.Trips a.limits (a.slotPath slot)

/-- The file of a slot holds a save that a load accepts: the fields form saved quest state, and if they
are to be checked, they match the checksum that they hold. -/
def IsLoadable (a : Archive) (slot : Slot) (validate : Bool) : Prop :=
  ∃ fields, a.HoldsJson slot (.object fields) ∧ (validate && isCorrupted fields) = false ∧
    ∃ s, SavedState.ofJson (.object (withoutChecksum fields)) a.records = .ok s

/-- The file of a slot holds a save that counts as unchanged. -/
def IsIntact (a : Archive) (slot : Slot) : Prop :=
  ∃ fields, a.HoldsJson slot (.object fields) ∧ isCorrupted fields = false

/-- Where nothing is found no document is held. -/
theorem not_holdsJson_of_not_found (h : ∀ node, a.tree.find (a.slotPath slot) ≠ .ok node)
    (document : Json) : ¬ a.HoldsJson slot document := by
  rintro ⟨bytes, text, hfind, -⟩
  exact h _ hfind

/-- The number of a slot whose file holds a document can be written. -/
theorem HoldsJson.isOverlong {document : Json} (h : a.HoldsJson slot document) :
    slot.isOverlong = false := by
  rw [← Bool.not_eq_true]
  exact fun hlong => not_holdsJson_of_not_found (find_ne_ok_of_isOverlong hlong) _ h

theorem HoldsJson.not_trips {fields : List (String × Json)} (h : a.HoldsJson slot (.object fields)) :
    ¬ a.Trips slot := by
  rintro (hlong | htrips)
  · exact Bool.noConfusion (hlong.symm.trans h.isOverlong)
  · exact FileTree.HoldsJson.not_trips h htrips

/-- Where a document is held, something is there. -/
theorem isSaved_of_holdsJson {document : Json} (h : a.HoldsJson slot document) :
    a.isSaved slot = .ok true := by
  have hshort := h.isOverlong
  obtain ⟨bytes, text, hfind, -⟩ := h
  rw [isSaved, hshort, if_neg Bool.false_ne_true, FileTree.pathExists, hfind]
  rfl

theorem IsLoadable.not_trips (h : a.IsLoadable slot validate) : ¬ a.Trips slot := by
  obtain ⟨fields, hholds, -⟩ := h
  exact hholds.not_trips

theorem IsIntact.not_trips (h : a.IsIntact slot) : ¬ a.Trips slot := by
  obtain ⟨fields, hholds, -⟩ := h
  exact hholds.not_trips

/-- Where the fields of a save cannot be told, nothing is loaded. -/
theorem not_isLoadable (h : ∀ fields, ¬ a.HoldsJson slot (.object fields)) :
    ¬ a.IsLoadable slot validate := by
  rintro ⟨fields, hholds, -⟩
  exact h fields hholds

theorem not_isIntact (h : ∀ fields, ¬ a.HoldsJson slot (.object fields)) : ¬ a.IsIntact slot := by
  rintro ⟨fields, hholds, -⟩
  exact h fields hholds

/-- Whether the fields in a file are loaded is decided by these fields alone. -/
theorem isLoadable_iff {fields : List (String × Json)} (h : a.HoldsJson slot (.object fields)) :
    a.IsLoadable slot validate ↔ (validate && isCorrupted fields) = false ∧
      ∃ s, SavedState.ofJson (.object (withoutChecksum fields)) a.records = .ok s := by
  constructor
  · rintro ⟨fields', h', hloadable⟩
    cases FileTree.HoldsJson.eq h h'
    exact hloadable
  · exact fun hloadable => ⟨fields, h, hloadable⟩

theorem isIntact_iff {fields : List (String × Json)} (h : a.HoldsJson slot (.object fields)) :
    a.IsIntact slot ↔ isCorrupted fields = false := by
  constructor
  · rintro ⟨fields', h', hintact⟩
    cases FileTree.HoldsJson.eq h h'
    exact hintact
  · exact fun hintact => ⟨fields, h, hintact⟩

/-- What is announced and noted has no part in what a slot holds. -/
theorem holdsJson_congr (h : Agrees a b) {document : Json} :
    b.HoldsJson slot document ↔ a.HoldsJson slot document := by
  rw [HoldsJson, HoldsJson, h.tree, h.limits, slotPath_congr h.directory]

theorem trips_congr (h : Agrees a b) : b.Trips slot ↔ a.Trips slot := by
  rw [Trips, Trips, h.tree, h.limits, slotPath_congr h.directory]

theorem isLoadable_congr (h : Agrees a b) : b.IsLoadable slot validate ↔ a.IsLoadable slot validate := by
  simp only [IsLoadable, holdsJson_congr h, h.records]

/-- What a load of a file that is there comes to. -/
theorem loadFile_cases (hshort : slot.isOverlong = false)
    (h : a.tree.find (a.slotPath slot) = .ok node) (validate : Bool) :
    (a.Trips slot ∧ ∃ fault, a.loadFile slot validate = (.error fault, a)) ∨
      (¬ a.Trips slot ∧ ¬ a.IsLoadable slot validate ∧
        ∃ notice failure, a.loadFile slot validate =
          (.ok false, (a.note notice).announce .loadFailed slot.written (some failure))) ∨
      (a.IsLoadable slot validate ∧ ∃ env, a.loadFile slot validate =
        (.ok true, ({ a with env, currentSlot := some slot.written } : Archive).announce
          .loadCompleted slot.written)) := by
  rw [loadFile.eq_def, Trips, hshort]
  simp only [Bool.false_eq_true, false_or]
  rcases FileTree.readJson_cases h with
    ⟨htext, e, fault, he, hread⟩ | ⟨htext, hnone, e, he, hread⟩ | ⟨document, hholds, hread⟩
  · rw [hread]
    simp only [he]
    exact .inl ⟨.inl htext, _, rfl⟩
  · -- No document: every other error of reading is expected.
    rw [hread]
    simp only [he]
    exact .inr (.inl ⟨FileTree.not_trips htext fun document hholds => absurd hholds (hnone document),
      not_isLoadable fun fields => hnone _, _, _, rfl⟩)
  · rw [hread]
    cases document with
    | object fields =>
      rw [isLoadable_iff hholds]
      dsimp only
      -- The checksum comes first: fields that do not match it are not looked at.
      cases hcorrupted : validate && isCorrupted fields with
      | true => exact .inr (.inl ⟨FileTree.HoldsJson.not_trips hholds, nofun, _, _, rfl⟩)
      | false =>
        rw [if_neg Bool.false_ne_true, restoreFields]
        cases hform : SavedState.ofJson (.object (withoutChecksum fields)) a.records with
        | error e => exact .inr (.inl ⟨FileTree.HoldsJson.not_trips hholds, nofun, _, _, rfl⟩)
        | ok s => exact .inr (.inr ⟨⟨rfl, s, rfl⟩, _, rfl⟩)
    | list items => exact .inl ⟨.inr ⟨_, hholds, rfl⟩, _, rfl⟩
    | _ => exact .inl ⟨.inr ⟨_, hholds, rfl⟩, _, rfl⟩

/-- What checking a file that is there comes to. -/
theorem validateFile_cases (hshort : slot.isOverlong = false)
    (h : a.tree.find (a.slotPath slot) = .ok node) :
    (a.Trips slot ∧ ∃ fault, a.validate slot = .error fault) ∨
      (¬ a.Trips slot ∧ ¬ a.IsIntact slot ∧ a.validate slot = .ok false) ∨
      (a.IsIntact slot ∧ a.validate slot = .ok true) := by
  have hsaved : a.isSaved slot = .ok true := by
    rw [isSaved, hshort, if_neg Bool.false_ne_true, FileTree.pathExists, h]
    rfl
  rw [Archive.validate, hsaved, Trips, hshort]
  simp only [Bool.false_eq_true, false_or]
  rcases FileTree.readJson_cases h with
    ⟨htext, e, fault, he, hread⟩ | ⟨htext, hnone, e, he, hread⟩ | ⟨document, hholds, hread⟩
  · rw [hread]
    simp only [he]
    exact .inl ⟨.inl htext, _, rfl⟩
  · rw [hread]
    simp only [he]
    exact .inr (.inl ⟨FileTree.not_trips htext fun document hholds => absurd hholds (hnone document),
      not_isIntact fun fields => hnone _, trivial⟩)
  · rw [hread]
    cases document with
    | object fields =>
      rw [isIntact_iff hholds]
      dsimp only
      cases isCorrupted fields with
      | true =>
        exact .inr (.inl ⟨FileTree.HoldsJson.not_trips hholds, fun h => Bool.false_ne_true h.symm, rfl⟩)
      | false => exact .inr (.inr ⟨rfl, rfl⟩)
    | _ => exact .inl ⟨.inr ⟨_, hholds, rfl⟩, _, rfl⟩

/-- What is announced at the end of a load that comes to an answer. -/
def loadEnd : Except SaveFault Bool → List SaveEventKind
  | .ok true => [.loadCompleted]
  | .ok false => [.loadFailed]
  | .error _ => []

/-- Announcements about a slot, of the given kinds, are added to those that there were. -/
def Announced (a b : Archive) (slot : Slot) (kinds : List SaveEventKind) : Prop :=
  ∃ new, b.events = a.events ++ new ∧ (∀ e ∈ new, e.slot = slot.written) ∧
    new.map SaveEvent.kind = if a.announces then kinds else []

theorem announced_announce (a : Archive) (kind : SaveEventKind) (slot : Slot)
    (failure : Option SaveFailure) : Announced a (a.announce kind slot.written failure) slot [kind] := by
  rw [announce]
  split
  · next h => exact ⟨[⟨kind, slot.written, failure⟩], rfl, by simp, by simp [h]⟩
  · next h => exact ⟨[], (List.append_nil _).symm, nofun, by simp [h]⟩

theorem Announced.trans {kinds more : List SaveEventKind} {c : Archive}
    (h : Announced a b slot kinds) (hannounces : b.announces = a.announces)
    (h' : Announced b c slot more) : Announced a c slot (kinds ++ more) := by
  obtain ⟨new, hevents, hslot, hkinds⟩ := h
  obtain ⟨new', hevents', hslot', hkinds'⟩ := h'
  refine ⟨new ++ new', ?_, ?_, ?_⟩
  · rw [hevents', hevents, List.append_assoc]
  · intro e he
    exact (List.mem_append.1 he).elim (hslot e) (hslot' e)
  · rw [List.map_append, hkinds, hkinds', hannounces]
    split <;> rfl

theorem announces_announce (a : Archive) (kind : SaveEventKind) (written : Json)
    (failure : Option SaveFailure) : (a.announce kind written failure).announces = a.announces := by
  rw [announce]
  split <;> rfl

/-- Whether something is at the path of a slot, and whether it can be looked at. -/
theorem isSaved_cases (a : Archive) (slot : Slot) :
    (a.Trips slot ∧ (∀ node, a.tree.find (a.slotPath slot) ≠ .ok node) ∧
        ∃ fault, a.isSaved slot = .error fault) ∨
      (¬ a.Trips slot ∧ (∀ node, a.tree.find (a.slotPath slot) ≠ .ok node) ∧
        a.isSaved slot = .ok false) ∨
      slot.isOverlong = false ∧ (∃ node, a.tree.find (a.slotPath slot) = .ok node) ∧
        a.isSaved slot = .ok true := by
  rw [isSaved, Trips]
  cases hshort : slot.isOverlong with
  | true => exact .inl ⟨.inl rfl, find_ne_ok_of_isOverlong hshort, _, rfl⟩
  | false =>
    simp only [Bool.false_eq_true, if_false, false_or]
    rcases a.tree.pathExists_cases (a.slotPath slot) with
      ⟨hlong, hexists⟩ | ⟨hlong, hnone, hexists⟩ | ⟨node, hfind, hexists⟩
    · rw [hexists]
      refine .inl ⟨.inl (.inl hlong), fun node hfind => ?_, _, rfl⟩
      cases hlong.symm.trans hfind
    · rw [hexists]
      exact .inr (.inl ⟨FileTree.not_trips_of_not_found hlong hnone, hnone, rfl⟩)
    · rw [hexists]
      exact .inr (.inr ⟨trivial, ⟨node, hfind⟩, rfl⟩)

/-- A load fails exactly if it trips, answers that it succeeded exactly if there is a save that it
accepts, and announces its beginning and its end if something is there. -/
theorem load_cases (a : Archive) (slot : Slot) (validate : Bool) :
    ((∃ fault, (a.load slot validate).1 = .error fault) ↔ a.Trips slot) ∧
      ((a.load slot validate).1 = .ok true ↔ a.IsLoadable slot validate) ∧
      ∀ node, a.tree.find (a.slotPath slot) = .ok node →
        Announced a (a.load slot validate).2 slot
          (.loadStarted :: loadEnd (a.load slot validate).1) := by
  rw [Archive.load]
  rcases a.isSaved_cases slot with
    ⟨htrips, hnone, fault, hsaved⟩ | ⟨htrips, hnone, hsaved⟩ | ⟨hshort, ⟨node, hfind⟩, hsaved⟩
  · rw [hsaved]
    exact ⟨⟨fun _ => htrips, fun _ => ⟨_, rfl⟩⟩, ⟨nofun, fun h => absurd htrips h.not_trips⟩,
      fun node hfind => absurd hfind (hnone node)⟩
  · rw [hsaved]
    have hloadable : ¬ a.IsLoadable slot validate :=
      not_isLoadable fun fields => not_holdsJson_of_not_found hnone _
    exact ⟨⟨nofun, fun h => absurd h htrips⟩, ⟨nofun, fun h => absurd h hloadable⟩,
      fun node hfind => absurd hfind (hnone node)⟩
  · rw [hsaved]
    dsimp only
    -- The beginning is announced before the file is opened.
    have hstart := announced_announce a .loadStarted slot none
    have hannounces := announces_announce a .loadStarted slot.written none
    have hagrees := agrees_announce a .loadStarted slot.written none
    rw [← hagrees.tree, ← slotPath_congr hagrees.directory] at hfind ⊢
    rw [← trips_congr hagrees, ← isLoadable_congr hagrees]
    generalize a.announce .loadStarted slot.written none = b at *
    rcases loadFile_cases hshort hfind validate with
      ⟨htrips, fault, hload⟩ | ⟨htrips, hloadable, notice, failure, hload⟩ | ⟨hloadable, env, hload⟩
    · rw [hload]
      exact ⟨⟨fun _ => htrips, fun _ => ⟨fault, rfl⟩⟩, ⟨nofun, fun h => absurd htrips h.not_trips⟩,
        fun _ _ => hstart⟩
    · rw [hload]
      have hend := announced_announce (b.note notice) .loadFailed slot (some failure)
      exact ⟨⟨nofun, fun h => absurd h htrips⟩, ⟨nofun, fun h => absurd h hloadable⟩,
        fun _ _ => hstart.trans hannounces hend⟩
    · rw [hload]
      have hend := announced_announce { b with env, currentSlot := some slot.written }
        .loadCompleted slot none
      exact ⟨⟨nofun, fun h => absurd h hloadable.not_trips⟩, ⟨fun _ => hloadable, fun _ => rfl⟩,
        fun _ _ => hstart.trans hannounces hend⟩

/-- A check fails exactly if it trips, and answers that a save is valid exactly if it is unchanged.
-/
theorem validate_cases (a : Archive) (slot : Slot) :
    ((∃ fault, a.validate slot = .error fault) ↔ a.Trips slot) ∧
      (a.validate slot = .ok true ↔ a.IsIntact slot) := by
  rcases a.isSaved_cases slot with
    ⟨htrips, hnone, fault, hsaved⟩ | ⟨htrips, hnone, hsaved⟩ | ⟨hshort, ⟨node, hfind⟩, -⟩
  · rw [Archive.validate, hsaved]
    exact ⟨⟨fun _ => htrips, fun _ => ⟨_, rfl⟩⟩, ⟨nofun, fun h => absurd htrips h.not_trips⟩⟩
  · have hintact : ¬ a.IsIntact slot :=
      not_isIntact fun fields => not_holdsJson_of_not_found hnone _
    rw [Archive.validate, hsaved]
    exact ⟨⟨nofun, fun h => absurd h htrips⟩, ⟨nofun, fun h => absurd h hintact⟩⟩
  · rcases validateFile_cases hshort hfind with
      ⟨htrips, fault, hvalidate⟩ | ⟨htrips, hintact, hvalidate⟩ | ⟨hintact, hvalidate⟩
    · rw [hvalidate]
      exact ⟨⟨fun _ => htrips, fun _ => ⟨fault, rfl⟩⟩, ⟨nofun, fun h => absurd htrips h.not_trips⟩⟩
    · rw [hvalidate]
      exact ⟨⟨nofun, fun h => absurd h htrips⟩, ⟨nofun, fun h => absurd h hintact⟩⟩
    · rw [hvalidate]
      exact ⟨⟨nofun, fun h => absurd h hintact.not_trips⟩, ⟨fun _ => hintact, fun _ => rfl⟩⟩

/-! ## Listing -/

/-- An archive with one file in its directory. -/
def withFile (name : String) (bytes : List UInt8) : Archive where
  env := { manifest := .empty }
  tree := { nodes := OrderedMap.empty.insert name (.file bytes) }
  directory := "."
  now := "noon"

end Archive

end Parley
