import Parley.Proofs.Save.Tampering

/-!
# What Loads Leave

A load either puts the saved quest state in place of the old one or leaves quest state alone. What
it puts there is what the file says: the names in their order, each with its own value, and nothing
converted. Checking a save foretells what loading it comes to.

## Main definitions

* `Environment.ReadFrom`: quest state is what fields say;
* `Archive.Quiet`: an archive in which nothing but announcements and notices is new;
* `Archive.stateAt`: the saved state that a load takes from the file of its slot.

## Main results

* `SavedState.readFrom_of_ofJson`: a saved state that is read from fields is what they say;
* `Archive.comes_load`: a load restores the saved state that it takes, or is quiet;
* `Archive.load_exact`: a load that does not succeed leaves quest state and the current slot as they
  were, and one that succeeds leaves exactly what the file says;
* `Archive.validate_foretells_load`: checking a save and loading it agree.
-/

namespace Parley

/-! ## Documents of saved states -/

namespace Json.DistinctFields

variable {fields : List (String × Json)}

theorem withoutChecksum (h : DistinctFields fields) : DistinctFields (withoutChecksum fields) :=
  ⟨h.nodup.sublist (List.filter_sublist.map Prod.fst),
    fun f hf => h.each f (List.mem_filter.1 hf).1⟩

/-- A field, or an empty object in its place, has distinct names. -/
theorem getD (h : DistinctFields fields) (name : String) :
    ((fields.lookup name).getD (.object [])).HasDistinctNames := by
  cases hv : fields.lookup name with
  | none => exact hasDistinctNames_object.2 fields_nil
  | some v =>
    obtain ⟨before, after, rfl, -⟩ := List.lookup_eq_some_iff.1 hv
    exact h.each (name, v) (List.mem_append_right _ List.mem_cons_self)

end Json.DistinctFields

/-- Quest state is what fields say: its maps are the objects that they hold, name by name in order
and value by value, and empty where they hold none. -/
structure Environment.ReadFrom (env : Environment) (fields : List (String × Json)) : Prop where
  globals : SavedState.variablesJson env.globals = (fields.lookup "global_vars").getD (.object [])
  speakers : .object (env.speakers.entries.map fun e => (e.1, SavedState.variablesJson e.2)) =
    (fields.lookup "speaker_vars").getD (.object [])
  scripted : env.IsScripted

namespace SavedState

variable {fields : List (String × Json)} {document : Json} {s : SavedState}

/-- The script values among fields are all of them, if every field holds one. -/
theorem map_filterMap_value (h : ∀ f ∈ fields, IsScript f.2) :
    (fields.filterMap fun f => (Value.ofJson? f.2).map fun v => (f.1, v)).map
      (fun e => (e.1, e.2.toJson)) = fields := by
  induction fields with
  | nil => rfl
  | cons f rest ih =>
    obtain ⟨⟨x, hx⟩, hrest⟩ := List.forall_mem_cons.1 h
    have hvalue : Value.ofJson? f.2 = some x := by rw [hx, Value.ofJson?_toJson]
    rw [List.filterMap_cons, hvalue, Option.map_some, List.map_cons, ih hrest, ← hx]

/-- The variables that are read from an object are written as that object. -/
theorem valuesJson_ownVariables (h : IsVariables document) (hnames : document.HasDistinctNames) :
    valuesJson (ownVariables document) = document := by
  obtain ⟨fields, rfl, hfields⟩ := h
  have hvalues := map_filterMap_value hfields
  -- The names are those of the object, hence distinct, so that no variable is lost.
  have hkeys := congrArg (List.map Prod.fst) hvalues
  rw [List.map_map] at hkeys
  have hnodup : ((fields.filterMap fun f => (Value.ofJson? f.2).map fun v => (f.1, v)).map
      Prod.fst).Nodup :=
    hkeys.symm ▸ (Json.hasDistinctNames_object.1 hnames).nodup
  rw [valuesJson, ownVariables]
  show Json.object ((OrderedMap.ofList _).entries.map _) = _
  rw [Json.fields?, Option.getD_some, OrderedMap.ofList_entries hnodup, hvalues]

/-- So are the variables of all speakers. -/
theorem speakersJson_ownVariables (h : ∀ f ∈ fields, IsVariables f.2)
    (hnames : (Json.object fields).HasDistinctNames) :
    speakersJson (.ofList (fields.map fun f => (f.1, ownVariables f.2))) = .object fields := by
  obtain ⟨hnodup, heach⟩ := Json.hasDistinctNames_object.1 hnames
  have hkeys : ((fields.map fun f => (f.1, ownVariables f.2)).map Prod.fst).Nodup := by
    rw [List.map_map]
    exact hnodup
  rw [speakersJson, OrderedMap.ofList_entries hkeys, List.map_map]
  refine congrArg Json.object ((List.map_congr_left fun f hf => ?_).trans (List.map_id fields))
  show (f.1, valuesJson (ownVariables f.2)) = f
  rw [valuesJson_ownVariables (h f hf) (heach f hf)]

/-- What holds of a field that is there, and of an empty object, holds of the one in its place. -/
theorem of_getD {P : Json → Prop} {given : Option Json} (hnone : P (.object []))
    (h : ∀ document ∈ given, P document) : P (given.getD (.object [])) := by
  cases given with
  | none => exact hnone
  | some document => exact h document rfl

theorem HasForm.isVariables (h : HasForm fields) :
    IsVariables ((fields.lookup "global_vars").getD (.object [])) :=
  of_getD ⟨[], rfl, nofun⟩ h.globals

theorem HasForm.isSpeakers (h : HasForm fields) :
    IsSpeakers ((fields.lookup "speaker_vars").getD (.object [])) :=
  of_getD ⟨[], rfl, nofun⟩ h.speakers

theorem isScripted_snapshot (env : Environment) (s : SavedState) :
    (env.restore s.snapshot).IsScripted := by
  have hvalues : ∀ m : SavedVariables, Variables.IsScripted (OrderedMap.map Stored.value m) := by
    intro m name x hx
    rw [OrderedMap.get?_map] at hx
    obtain ⟨v, -, rfl⟩ := Option.map_eq_some_iff.1 hx
    exact ⟨v, rfl⟩
  refine ⟨hvalues s.globals, fun npc m hm => ?_⟩
  have hget : (s.speakers.map fun m => OrderedMap.map Stored.value m).get? npc = some m := hm
  rw [OrderedMap.get?_map] at hget
  obtain ⟨own, -, rfl⟩ := Option.map_eq_some_iff.1 hget
  exact hvalues own

/-- A saved state that is read from fields is what they say. -/
theorem readFrom_of_ofJson {v : Validator} (env : Environment) (hfields : Json.DistinctFields fields)
    (h : ofJson (.object fields) v = .ok s) :
    HasForm fields ∧ (env.restore s.snapshot).ReadFrom fields := by
  obtain ⟨given, hgiven, hform, rfl⟩ := ofJson_eq_ok_iff.1 h
  obtain rfl := Json.object.inj hgiven
  refine ⟨hform, ?_, ?_, isScripted_snapshot env _⟩
  · show variablesJson (OrderedMap.map Stored.value
      (ownVariables ((fields.lookup "global_vars").getD (.object [])))) = _
    rw [variablesJson_map, valuesJson_ownVariables hform.isVariables (hfields.getD _)]
  · show Json.object ((OrderedMap.map (OrderedMap.map Stored.value) (.ofList
      (((((fields.lookup "speaker_vars").getD (.object [])).fields?).getD []).map
        fun f => (f.1, ownVariables f.2)))).entries.map _) = _
    obtain ⟨speakers, hspeakers, heach⟩ := hform.isSpeakers
    have hnames := hfields.getD "speaker_vars"
    rw [hspeakers] at hnames ⊢
    rw [OrderedMap.map, List.map_map]
    simp only [Function.comp_def, variablesJson_map]
    exact speakersJson_ownVariables heach hnames

/-- The checksum has no part in the form of a saved state. -/
theorem HasForm.of_withoutChecksum (h : HasForm (withoutChecksum fields)) : HasForm fields := by
  obtain ⟨hversion, hglobals, hspeakers⟩ := h
  rw [withoutChecksum, OrderedMap.lookup_filter_ne, if_neg (by decide)] at hversion hglobals hspeakers
  exact ⟨hversion, hglobals, hspeakers⟩

end SavedState

/-- Nor has it a part in what quest state is written. -/
theorem Environment.ReadFrom.of_withoutChecksum {env : Environment} {fields : List (String × Json)}
    (h : env.ReadFrom (withoutChecksum fields)) : env.ReadFrom fields := by
  obtain ⟨hglobals, hspeakers, hscripted⟩ := h
  rw [withoutChecksum, OrderedMap.lookup_filter_ne, if_neg (by decide)] at hglobals hspeakers
  exact ⟨hglobals, hspeakers, hscripted⟩

namespace FileTree.HoldsJson

variable {t : FileTree} {limits : Limits} {path : String} {document : Json}

theorem readJson (h : t.HoldsJson limits path document) :
    t.readJson path limits = .ok document := by
  obtain ⟨bytes, text, hfind, htext, hread⟩ := h
  rw [FileTree.readJson, readText, read, hfind]
  dsimp only
  rw [htext]
  dsimp only
  rw [hread]
  rfl

/-- A document in a file has distinct names, since it was read. -/
theorem hasDistinctNames (h : t.HoldsJson limits path document) : document.HasDistinctNames := by
  obtain ⟨bytes, text, -, -, hread⟩ := h
  exact Json.hasDistinctNames_of_ofText hread

end FileTree.HoldsJson

namespace Archive

variable {a b c : Archive} {slot : Slot} {validate : Bool}

/-! ## What a load comes to -/

/-- An archive in which nothing but announcements and notices is new. -/
structure Quiet (a b : Archive) : Prop extends Agrees a b where
  currentSlot : b.currentSlot = a.currentSlot

theorem Quiet.refl (a : Archive) : Quiet a a :=
  ⟨.refl a, rfl⟩

theorem Quiet.trans (h : Quiet a b) (h' : Quiet b c) : Quiet a c :=
  ⟨h.toAgrees.trans h'.toAgrees, h'.currentSlot.trans h.currentSlot⟩

theorem quiet_announce (a : Archive) (kind : SaveEventKind) (written : Json)
    (failure : Option SaveFailure) : Quiet a (a.announce kind written failure) := by
  refine ⟨agrees_announce a kind written failure, ?_⟩
  rw [announce]
  split <;> rfl

/-- Nothing but the notice and the announcement of a failed load is new. -/
theorem quiet_failed (a : Archive) (notice : Notice) (written : Json) (failure : SaveFailure) :
    Quiet a ((a.note notice).announce .loadFailed written (some failure)) := by
  have hnote : Quiet a (a.note notice) := ⟨⟨rfl, rfl, rfl, rfl, rfl, rfl⟩, rfl⟩
  exact hnote.trans (quiet_announce _ _ _ _)

/-- What a load puts in place of quest state and of the current slot. -/
def loaded (a : Archive) (slot : Slot) (s : SavedState) : Archive :=
  { a with env := a.env.restore s.snapshot, currentSlot := some slot.written }

theorem Quiet.loaded (h : Quiet a b) (slot : Slot) (s : SavedState) :
    Quiet (a.loaded slot s) (b.loaded slot s) :=
  ⟨⟨congrArg (fun env : Environment => env.restore s.snapshot) h.env, h.tree, h.directory, h.now,
    h.limits, h.records⟩, rfl⟩

/-- The saved state that a load takes from the file of its slot, if it does not refuse what is there.
-/
def stateAt (a : Archive) (slot : Slot) (validate : Bool) : Except SaveFault (Option SavedState) :=
  match a.isSaved slot with
  | .error fault => .error fault
  | .ok false => .ok none
  | .ok true =>
    match a.tree.readJson (a.slotPath slot) a.limits with
    | .error e =>
      match e.fault? with
      | some fault => .error fault
      | none => .ok none
    | .ok (.object fields) =>
      if validate && isCorrupted fields then .ok none
      else .ok (SavedState.ofJson (.object (withoutChecksum fields)) a.records).toOption
    | .ok (.list _) => .error (if validate then .notObject else .listField)
    | .ok _ => .error .notObject

/-- Quest state has no part in what a load takes. -/
theorem stateAt_congr (htree : b.tree = a.tree) (hdirectory : b.directory = a.directory)
    (hlimits : b.limits = a.limits) (hrecords : b.records = a.records) (slot : Slot)
    (validate : Bool) : b.stateAt slot validate = a.stateAt slot validate := by
  rw [stateAt, stateAt, isSaved, isSaved, htree, hlimits, hrecords, slotPath_congr hdirectory]

/-- What there is after a load that took a saved state, refused what it found or did not expect it.
-/
def Comes (a b : Archive) (slot : Slot) (answer : Except SaveFault Bool) :
    Except SaveFault (Option SavedState) → Prop
  | .error fault => answer = .error fault ∧ Quiet a b
  | .ok none => answer = .ok false ∧ Quiet a b
  | .ok (some s) => answer = .ok true ∧ Quiet (a.loaded slot s) b

theorem Comes.of_quiet {answer : Except SaveFault Bool} {r : Except SaveFault (Option SavedState)}
    (h : Quiet a b) (h' : Comes b c slot answer r) : Comes a c slot answer r := by
  rcases r with fault | (- | s)
  · exact ⟨h'.1, h.trans h'.2⟩
  · exact ⟨h'.1, h.trans h'.2⟩
  · exact ⟨h'.1, (h.loaded slot s).trans h'.2⟩

theorem Comes.answer {answer : Except SaveFault Bool} {r : Except SaveFault (Option SavedState)}
    (h : Comes a b slot answer r) : answer = r.map Option.isSome := by
  rcases r with fault | (- | s)
  · exact h.1
  · exact h.1
  · exact h.1

theorem Comes.quiet {answer : Except SaveFault Bool} {r : Except SaveFault (Option SavedState)}
    (h : Comes a b slot answer r) (hanswer : answer ≠ .ok true) : Quiet a b := by
  rcases r with fault | (- | s)
  · exact h.2
  · exact h.2
  · exact absurd h.1 hanswer

theorem comes_loadFile (h : a.isSaved slot = .ok true) (validate : Bool) :
    Comes a (a.loadFile slot validate).2 slot (a.loadFile slot validate).1
      (a.stateAt slot validate) := by
  rw [loadFile.eq_def, stateAt, h]
  dsimp only
  cases a.tree.readJson (a.slotPath slot) a.limits with
  | error e =>
    dsimp only
    cases e.fault? with
    | none => exact ⟨rfl, quiet_failed _ _ _ _⟩
    | some fault => exact ⟨rfl, .refl a⟩
  | ok document =>
    cases document with
    | object fields =>
      dsimp only
      split
      · exact ⟨rfl, quiet_failed _ _ _ _⟩
      · rw [restoreFields]
        cases SavedState.ofJson (.object (withoutChecksum fields)) a.records with
        | error e => exact ⟨rfl, quiet_failed _ _ _ _⟩
        | ok s => exact ⟨rfl, quiet_announce _ _ _ _⟩
    | _ => exact ⟨rfl, .refl a⟩

/-- A load restores the saved state that it takes from the file of its slot. If there is none quest
state and the current slot stay. -/
theorem comes_load (a : Archive) (slot : Slot) (validate : Bool) :
    Comes a (a.load slot validate).2 slot (a.load slot validate).1 (a.stateAt slot validate) := by
  rw [load]
  cases hsaved : a.isSaved slot with
  | error fault =>
    rw [stateAt, hsaved]
    exact ⟨rfl, .refl a⟩
  | ok found =>
    cases found with
    | false =>
      rw [stateAt, hsaved]
      exact ⟨rfl, .refl a⟩
    | true =>
      dsimp only
      -- The beginning is announced, which touches neither quest state nor files.
      have hstart := quiet_announce a .loadStarted slot.written none
      rw [← stateAt_congr hstart.tree hstart.directory hstart.limits hstart.records]
      refine .of_quiet hstart (comes_loadFile ?_ validate)
      rw [isSaved, hstart.tree, slotPath_congr hstart.directory]
      exact hsaved

/-- A save that a load accepts is taken. -/
theorem stateAt_of_holdsJson {fields : List (String × Json)} {s : SavedState}
    (h : a.HoldsJson slot (.object fields)) (hintact : (validate && isCorrupted fields) = false)
    (hs : SavedState.ofJson (.object (withoutChecksum fields)) a.records = .ok s) :
    a.stateAt slot validate = .ok (some s) := by
  rw [stateAt, isSaved_of_holdsJson h]
  dsimp only
  rw [FileTree.HoldsJson.readJson h]
  dsimp only
  rw [hintact, if_neg Bool.false_ne_true, hs]
  rfl

/-- A load that does not succeed, be it refused or ended by a fault, leaves quest state and the
current slot as they were. After a load that succeeds, the file of the slot holds an object of the
form of a saved state; quest state is what this object says, under the declarations that there were
before; and the slot is the current one. -/
theorem load_exact (a : Archive) (slot : Slot) (validate : Bool) :
    ((a.load slot validate).1 ≠ .ok true →
      (a.load slot validate).2.env = a.env ∧
        (a.load slot validate).2.currentSlot = a.currentSlot) ∧
    ((a.load slot validate).1 = .ok true →
      ∃ fields, a.HoldsJson slot (.object fields) ∧ SavedState.HasForm fields ∧
        (a.load slot validate).2.env.ReadFrom fields ∧
        (a.load slot validate).2.env.manifest = a.env.manifest ∧
        (a.load slot validate).2.currentSlot = some slot.written) := by
  have hcomes := a.comes_load slot validate
  constructor
  · intro hload
    have hquiet := hcomes.quiet hload
    exact ⟨hquiet.env, hquiet.currentSlot⟩
  · intro hload
    obtain ⟨fields, hholds, hintact, s, hs⟩ := (a.load_cases slot validate).2.1.1 hload
    rw [stateAt_of_holdsJson hholds hintact hs] at hcomes
    obtain ⟨-, hquiet⟩ := hcomes
    rw [hquiet.env, hquiet.currentSlot]
    have hfields := Json.hasDistinctNames_object.1 (FileTree.HoldsJson.hasDistinctNames hholds)
    obtain ⟨hform, hread⟩ := SavedState.readFrom_of_ofJson a.env hfields.withoutChecksum hs
    exact ⟨fields, hholds, hform.of_withoutChecksum, hread.of_withoutChecksum, rfl, rfl⟩

/-- An object in the file of a slot is held there. -/
theorem holdsJson_withFile {document : Json} (h : document.IsReadable .standard) :
    (withFile "save_00.json" (asciiBytes (document.indented 0))).HoldsJson { number := (0 : Nat) }
      document :=
  holdsJson_asciiBytes h (find_withFile _)

/-- A save of gold that somebody wrote by hand. -/
def purse : Json :=
  .object [("global_vars", .object [("GOLD", .int 5)])]

theorem isReadable_purse : purse.IsReadable .standard :=
  ⟨⟨by decide, ⟨by decide, trivial, trivial⟩, trivial⟩, rfl, by decide⟩

/-- The gold is loaded, and a byte that begins no character leaves the gold that there was. -/
theorem load_exact_of_purse :
    let a := withFile "save_00.json" (asciiBytes (purse.indented 0))
    let b : Archive := { withFile "save_00.json" [0xFF] with currentSlot := some (.int 7) }
    ((a.load { number := (0 : Nat) }).1 = .ok true ∧
      SavedState.variablesJson (a.load { number := (0 : Nat) }).2.env.globals =
        .object [("GOLD", .int 5)]) ∧
      (b.load { number := (0 : Nat) }).1 ≠ .ok true ∧
        (b.load { number := (0 : Nat) }).2.currentSlot = some (.int 7) := by
  intro a b
  constructor
  · have hholds : a.HoldsJson { number := (0 : Nat) } purse := holdsJson_withFile isReadable_purse
    have hload : (a.load { number := (0 : Nat) }).1 = .ok true :=
      (a.load_cases _ true).2.1.2 ((isLoadable_iff hholds).2 ⟨rfl, _, rfl⟩)
    obtain ⟨fields, hheld, -, hread, -⟩ := (load_exact a _ true).2 hload
    obtain rfl := Json.object.inj (FileTree.HoldsJson.eq hholds hheld)
    exact ⟨hload, hread.globals⟩
  · have hfind : b.tree.find (b.slotPath { number := (0 : Nat) }) = .ok (.file [0xFF]) := by
      rw [slotPath_congr (a := withFile "save_00.json" [0xFF]) (b := b) rfl]
      exact find_withFile [0xFF]
    have htrips : b.Trips { number := (0 : Nat) } := .inr (.inl (.inr ⟨_, hfind, .inl rfl⟩))
    obtain ⟨fault, hfault⟩ := (b.load_cases { number := (0 : Nat) } true).1.2 htrips
    have hload : (b.load { number := (0 : Nat) }).1 ≠ .ok true := by
      rw [hfault]
      exact nofun
    exact ⟨hload, ((load_exact b _ true).1 hload).2⟩

/-! ## What a check foretells -/

/-- Whether the file of a slot holds an object of which a saved state can be read. -/
def isReadable (a : Archive) (slot : Slot) : Bool :=
  match a.tree.readJson (a.slotPath slot) a.limits with
  | .ok (.object fields) => (SavedState.ofJson (.object (withoutChecksum fields)) a.records).isOk
  | _ => false

/-- A load with a check answers what the check answers, except that a save that counts as unchanged
may still not be readable. -/
theorem fst_load (a : Archive) (slot : Slot) :
    (a.load slot).1 = (a.validate slot).map fun intact => intact && a.isReadable slot := by
  rw [(a.comes_load slot true).answer, stateAt, Archive.validate, isReadable]
  cases a.isSaved slot with
  | error e => rfl
  | ok found =>
    cases found with
    | false => rfl
    | true =>
      dsimp only
      -- Both go the same way as long as the file is read, and part at the checksum.
      cases a.tree.readJson (a.slotPath slot) a.limits with
      | error e =>
        dsimp only
        cases e.fault? <;> rfl
      | ok document =>
        cases document with
        | object fields =>
          dsimp only
          rw [Bool.true_and]
          cases isCorrupted fields with
          | true => rfl
          | false => cases SavedState.ofJson (.object (withoutChecksum fields)) a.records <;> rfl
        | _ => rfl

/-- If a check answers that a save is missing or changed, a load with a check answers false. If it
answers that the save is valid, the file holds an object, and the load answers whether a saved state
can be read of its fields without the checksum. One of them ends in a fault exactly if the other
does, and in the same one. -/
theorem validate_foretells_load (a : Archive) (slot : Slot) :
    (a.validate slot = .ok false → (a.load slot).1 = .ok false) ∧
      (a.validate slot = .ok true →
        ∃ fields, a.HoldsJson slot (.object fields) ∧
          (a.load slot).1 =
            .ok (SavedState.ofJson (.object (withoutChecksum fields)) a.records).isOk) ∧
      ∀ fault, a.validate slot = .error fault ↔ (a.load slot).1 = .error fault := by
  rw [fst_load]
  refine ⟨fun h => ?_, fun h => ?_, fun fault => ?_⟩
  · rw [h]
    rfl
  · obtain ⟨fields, hholds, -⟩ := (a.validate_cases slot).2.1 h
    refine ⟨fields, hholds, ?_⟩
    rw [h, isReadable, FileTree.HoldsJson.readJson hholds]
    rfl
  · cases a.validate slot <;> simp [Except.map]

/-- A save that counts as unchanged and whose version is no text is not loaded. -/
theorem validate_foretells_load_of_number :
    let document := Json.object [("version", .int 1)]
    let a := withFile "save_00.json" (asciiBytes (document.indented 0))
    a.validate { number := (0 : Nat) } = .ok true ∧
      (a.load { number := (0 : Nat) }).1 = .ok false := by
  intro document a
  have hreadable : document.IsReadable .standard :=
    ⟨⟨by decide, trivial, trivial⟩, rfl, by decide⟩
  have hholds : a.HoldsJson { number := (0 : Nat) } document := holdsJson_withFile hreadable
  have hvalidate : a.validate { number := (0 : Nat) } = .ok true :=
    (a.validate_cases _).2.2 ((isIntact_iff hholds).2 rfl)
  obtain ⟨fields, hheld, hload⟩ := (validate_foretells_load a _).2.1 hvalidate
  obtain rfl := Json.object.inj (FileTree.HoldsJson.eq hholds hheld)
  exact ⟨hvalidate, hload⟩

end Archive

end Parley
