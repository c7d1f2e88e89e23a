import Parley.Proofs.Json.Results
import Parley.Proofs.Json.RoundTrip
import Parley.Proofs.State.Scripted
import Parley.Save.Archive

/-!
# Saved States Read Back

Quest state that holds script values only has a saved form, and the document of a saved form is read
back as that form. Both go through the validator of records, of which only the laws are used.

* `Validator.Keeps`: the documents of a type, which the validator leaves as they are;
* `SavedState.build_eq_ok_iff`: which documents are records of a saved state, and what these are;
* `SavedState.ofEnvironment_of`: scripted quest state can be saved;
* `SavedState.ofJson_fields`: its document is read back, every value with its type;
* `isCorrupted_savedFields`: the checksum in the file of a slot matches the fields read back.
-/

namespace Parley

/-! ## What a validator keeps -/

namespace Validator

variable {v : Validator} {type : FieldType} {P : Json → Prop}

/-- The validator takes exactly some documents for ones of a type, and leaves them as they are. -/
def Keeps (v : Validator) (type : FieldType) (P : Json → Prop) : Prop :=
  ∀ document value, v.check type document = some value ↔ value = document ∧ P document

theorem keeps_text (v : Validator) : v.Keeps .text fun document => ∃ text, document = .str text := by
  intro document value
  rw [v.check_text]
  cases document <;> simp [Json.str?, eq_comm]

/-- A map is kept if its values are. -/
theorem Keeps.mapOf (h : v.Keeps type P) :
    v.Keeps (.mapOf type) fun document =>
      ∃ fields, document = .object fields ∧ ∀ f ∈ fields, P f.2 := by
  -- The fields are looked at one by one, and each stays what it is.
  have hfields : ∀ given made : List (String × Json),
      (given.mapM fun g => (v.check type g.2).map (g.1, ·)) = some made ↔
        made = given ∧ ∀ g ∈ given, P g.2 := by
    intro given
    induction given with
    | nil => simp [eq_comm]
    | cons g rest ih =>
      intro made
      simp only [List.mapM_cons, Option.bind_eq_bind, Option.bind_eq_some_iff, Option.map_eq_some_iff,
        h g.2, ih, Option.pure_def, Option.some.injEq, List.forall_mem_cons]
      constructor
      · rintro ⟨_, ⟨_, ⟨rfl, hg⟩, rfl⟩, _, ⟨rfl, hrest⟩, rfl⟩
        exact ⟨rfl, hg, hrest⟩
      · rintro ⟨rfl, hg, hrest⟩
        exact ⟨_, ⟨_, ⟨rfl, hg⟩, rfl⟩, _, ⟨rfl, hrest⟩, rfl⟩
  intro document value
  rw [v.check_mapOf]
  cases document with
  | object given =>
    simp only [Json.fields?, Option.bind_some, Option.map_eq_some_iff, hfields, Json.object.injEq,
      exists_eq_left']
    constructor
    · rintro ⟨_, ⟨rfl, hgiven⟩, rfl⟩
      exact ⟨rfl, hgiven⟩
    · rintro ⟨rfl, hgiven⟩
      exact ⟨_, ⟨rfl, hgiven⟩, rfl⟩
  | _ => simp [Json.fields?]

/-- A field of a kept type holds what was given, or its initial value. -/
theorem Keeps.field (h : v.Keeps type P) {given : Option Json} {initial value : Json} :
    given.elim (some initial) (v.check type) = some value ↔
      value = given.getD initial ∧ ∀ document ∈ given, P document := by
  cases given with
  | none => simp [eq_comm]
  | some document => simp [h document value]

end Validator

/-! ## The saved form of quest state -/

/-- The script value that is stored. -/
def Stored.script (x : Stored) : Value :=
  x.value?.getD default

theorem Variables.IsScripted.map_script {m : Variables} (h : m.IsScripted) :
    (OrderedMap.map Stored.script m).map Stored.value = m := by
  rw [OrderedMap.map_map]
  refine OrderedMap.map_eq_self fun name x hx => ?_
  obtain ⟨v, rfl⟩ := h name x hx
  rfl

namespace SavedState

/-- The document for saved variables. -/
def valuesJson (m : SavedVariables) : Json :=
  .object (m.entries.map fun e => (e.1, e.2.toJson))

/-- The document for the saved variables of all speakers. -/
def speakersJson (speakers : OrderedMap SavedVariables) : Json :=
  .object (speakers.entries.map fun e => (e.1, valuesJson e.2))

theorem fields_eq (s : SavedState) :
    s.fields = [("version", .str s.version), ("global_vars", valuesJson s.globals),
      ("speaker_vars", speakersJson s.speakers)] := rfl

/-- A document is a script value. -/
def IsScript (document : Json) : Prop :=
  ∃ x : Value, document = x.toJson

/-- A document holds the variables of one owner: an object in which every value is a script value. -/
def IsVariables (document : Json) : Prop :=
  ∃ fields, document = .object fields ∧ ∀ f ∈ fields, IsScript f.2

/-- A document holds the variables of speakers: an object of such objects. -/
def IsSpeakers (document : Json) : Prop :=
  ∃ fields, document = .object fields ∧ ∀ f ∈ fields, IsVariables f.2

/-- Fields have the form of a saved state: a version that they hold is a text, and the maps that
they hold are objects in which every value is a script value. -/
structure HasForm (fields : List (String × Json)) : Prop where
  version : ∀ document ∈ fields.lookup "version", ∃ text, document = .str text
  globals : ∀ document ∈ fields.lookup "global_vars", IsVariables document
  speakers : ∀ document ∈ fields.lookup "speaker_vars", IsSpeakers document

theorem isVariables_valuesJson (m : SavedVariables) : IsVariables (valuesJson m) := by
  refine ⟨_, rfl, fun f hf => ?_⟩
  obtain ⟨e, -, rfl⟩ := List.mem_map.1 hf
  exact ⟨e.2, rfl⟩

theorem isSpeakers_speakersJson (speakers : OrderedMap SavedVariables) :
    IsSpeakers (speakersJson speakers) := by
  refine ⟨_, rfl, fun f hf => ?_⟩
  obtain ⟨e, -, rfl⟩ := List.mem_map.1 hf
  exact isVariables_valuesJson e.2

variable {v : Validator}

/-- The saved values are the script values. -/
theorem keeps_valueType (v : Validator) : v.Keeps valueType IsScript := by
  have hone : ∀ {type : FieldType} {document value : Json}, type ∈ [FieldType.bool, .int, .text] →
      v.check type document = some value → value = document ∧ IsScript document := by
    intro type document value htype h
    simp only [List.mem_cons, List.not_mem_nil, or_false] at htype
    rcases htype with rfl | rfl | rfl
    · rw [v.check_bool] at h
      cases document <;> cases h
      exact ⟨rfl, .bool _, rfl⟩
    · rw [v.check_int] at h
      cases document <;> cases h
      exact ⟨rfl, .int _, rfl⟩
    · rw [v.check_text] at h
      cases document <;> cases h
      exact ⟨rfl, .str _, rfl⟩
  have hall : ∀ x : Value, ∃ type ∈ [FieldType.bool, .int, .text],
      (v.check type x.toJson).isSome = true := by
    intro x
    cases x with
    | bool b => exact ⟨.bool, by simp, by rw [v.check_bool]; rfl⟩
    | int n => exact ⟨.int, by simp, by rw [v.check_int]; rfl⟩
    | str s => exact ⟨.text, by simp, by rw [v.check_text]; rfl⟩
  intro document value
  constructor
  · intro h
    obtain ⟨type, htype, hvalue⟩ := v.check_oneOf _ _ _ h
    exact hone htype hvalue
  · rintro ⟨rfl, x, rfl⟩
    -- The document is not refused, and what is made of it by one of the types is the document.
    obtain ⟨made, hmade⟩ := Option.isSome_iff_exists.1 (v.isSome_check_oneOf _ _ (hall x))
    obtain ⟨type, htype, hvalue⟩ := v.check_oneOf _ _ _ hmade
    rw [valueType, hmade, (hone htype hvalue).1]

theorem keeps_variablesType (v : Validator) : v.Keeps variablesType IsVariables :=
  (keeps_valueType v).mapOf

theorem keeps_speakersType (v : Validator) : v.Keeps (.mapOf variablesType) IsSpeakers :=
  (keeps_variablesType v).mapOf

/-- The record of a saved state that fields of its form write. -/
def recordOf (fields : List (String × Json)) : List (String × Json) :=
  [("version", (fields.lookup "version").getD (.str "1.0")),
    ("global_vars", (fields.lookup "global_vars").getD (.object [])),
    ("speaker_vars", (fields.lookup "speaker_vars").getD (.object []))]

/-- Exactly the objects of its form are records of a saved state. Nothing in them is converted, and
what is not given is empty. -/
theorem build_eq_ok_iff {document : Json} {record : List (String × Json)} :
    v.build rule document = .ok record ↔
      ∃ given, document = .object given ∧ HasForm given ∧ record = recordOf given := by
  have hobject : ∀ given, document.fields? = some given ↔ document = .object given := by
    intro given
    cases document <;> simp [Json.fields?]
  rw [v.build_eq_ok_iff]
  refine exists_congr fun given => and_congr (hobject given) ?_
  -- Other fields are ignored, and the three of the rule are looked at in turn.
  simp only [rule, Bool.false_eq_true, false_implies, true_and, List.mapM_cons, List.mapM_nil,
    Option.bind_eq_bind, Option.bind_eq_some_iff, Option.map_eq_some_iff,
    (Validator.keeps_text v).field, (keeps_variablesType v).field, (keeps_speakersType v).field,
    Option.pure_def, Option.some.injEq]
  constructor
  · rintro ⟨_, ⟨_, ⟨rfl, h₁⟩, rfl⟩, _, ⟨_, ⟨_, ⟨rfl, h₂⟩, rfl⟩, _, ⟨_, ⟨_, ⟨rfl, h₃⟩, rfl⟩, _, rfl, rfl⟩,
      rfl⟩, rfl⟩
    exact ⟨⟨h₁, h₂, h₃⟩, rfl⟩
  · rintro ⟨h, rfl⟩
    exact ⟨_, ⟨_, ⟨rfl, h.version⟩, rfl⟩, _, ⟨_, ⟨_, ⟨rfl, h.globals⟩, rfl⟩, _,
      ⟨_, ⟨_, ⟨rfl, h.speakers⟩, rfl⟩, _, rfl, rfl⟩, rfl⟩, rfl⟩

/-- A saved state is read exactly from an object of its form. -/
theorem ofJson_eq_ok_iff {document : Json} {s : SavedState} :
    ofJson document v = .ok s ↔
      ∃ given, document = .object given ∧ HasForm given ∧ s = ofRecord (recordOf given) := by
  rw [ofJson]
  constructor
  · intro h
    cases hbuild : v.build rule document with
    | error e =>
      rw [hbuild] at h
      cases h
    | ok record =>
      rw [hbuild] at h
      obtain ⟨given, rfl, hform, rfl⟩ := build_eq_ok_iff.1 hbuild
      exact ⟨given, rfl, hform, (Except.ok.inj h).symm⟩
  · rintro ⟨given, rfl, hform, rfl⟩
    rw [build_eq_ok_iff.2 ⟨given, rfl, hform, rfl⟩]
    rfl

theorem ownVariables_valuesJson (m : SavedVariables) : ownVariables (valuesJson m) = m := by
  -- Every value is found again under its name, so no entry is dropped.
  have hentries : ((valuesJson m).fields?.getD []).filterMap
      (fun f => (Value.ofJson? f.2).map fun v => (f.1, v)) = m.entries := by
    rw [valuesJson, Json.fields?, Option.getD_some, List.filterMap_map]
    show m.entries.filterMap
      (fun e => (Value.ofJson? e.2.toJson).map fun v => (e.1, v)) = m.entries
    simp only [Value.ofJson?_toJson, Option.map_some]
    exact List.filterMap_some
  refine OrderedMap.ext ?_
  rw [ownVariables, hentries, OrderedMap.ofList_entries m.nodup]

/-- The fields of a saved form say all of it. -/
theorem ofRecord_fields (s : SavedState) : ofRecord s.fields = s := by
  have hspeakers : OrderedMap.ofList ((s.speakers.entries.map fun e => (e.1, valuesJson e.2)).map
      fun f => (f.1, ownVariables f.2)) = s.speakers := by
    rw [List.map_map]
    simp only [Function.comp_def, ownVariables_valuesJson, List.map_id']
    exact OrderedMap.ext (OrderedMap.ofList_entries s.speakers.nodup)
  -- Field by field: the version is a text, and the variables come back in order.
  show SavedState.mk s.version (ownVariables (valuesJson s.globals)) (OrderedMap.ofList _) = s
  rw [ownVariables_valuesJson]
  exact congrArg (SavedState.mk s.version s.globals) hspeakers

theorem hasForm_fields (s : SavedState) : HasForm s.fields := by
  constructor
  · rintro _ ⟨⟩
    exact ⟨_, rfl⟩
  · rintro _ ⟨⟩
    exact isVariables_valuesJson _
  · rintro _ ⟨⟩
    exact isSpeakers_speakersJson _

/-- The document of a saved form is read back as that form. -/
theorem ofJson_fields (s : SavedState) (v : Validator) : ofJson (.object s.fields) v = .ok s :=
  ofJson_eq_ok_iff.2 ⟨_, rfl, hasForm_fields s, (ofRecord_fields s).symm⟩

/-- Quest state in the form in which it is saved, provided that it holds script values only. -/
def of (env : Environment) : SavedState where
  globals := env.globals.map Stored.script
  speakers := env.speakers.map fun m => OrderedMap.map Stored.script m

/-- The saved form of scripted quest state has all of it, in order. -/
theorem snapshot_of {env : Environment} (h : env.IsScripted) :
    (of env).snapshot = env.snapshot := by
  have hspeakers : (env.speakers.map fun m => OrderedMap.map Stored.script m).map
      (fun m => m.map Stored.value) = env.speakers := by
    rw [OrderedMap.map_map]
    exact OrderedMap.map_eq_self fun npc m hm => (h.speakers npc m hm).map_script
  show Snapshot.mk _ _ = Snapshot.mk _ _
  rw [← hspeakers, ← h.globals.map_script]
  rfl

theorem variablesJson_map (m : SavedVariables) :
    variablesJson (m.map Stored.value) = valuesJson m := by
  rw [variablesJson, valuesJson, OrderedMap.map, List.map_map]
  rfl

/-- Scripted quest state can be saved. -/
theorem ofEnvironment_of {env : Environment} (h : env.IsScripted) (v : Validator) :
    ofEnvironment env v = .ok (of env) := by
  -- Both documents are those of the saved form, read off its snapshot.
  have hsnapshot := snapshot_of h
  have hglobals : variablesJson env.globals = valuesJson (of env).globals := by
    rw [← variablesJson_map]
    exact congrArg (fun s => variablesJson s.globals) hsnapshot.symm
  have hspeakers : Json.object (env.speakers.entries.map fun e => (e.1, variablesJson e.2)) =
      speakersJson (of env).speakers := by
    have hentries : env.speakers = (of env).speakers.map fun m => m.map Stored.value :=
      congrArg Snapshot.speakers hsnapshot.symm
    rw [hentries, OrderedMap.map, List.map_map, speakersJson]
    simp only [Function.comp_def, variablesJson_map]
  -- The version is not given, and the one that is supplied is the current one.
  have hform : HasForm [("global_vars", valuesJson (of env).globals),
      ("speaker_vars", speakersJson (of env).speakers)] := by
    constructor
    · rintro _ ⟨⟩
    · rintro _ ⟨⟩
      exact isVariables_valuesJson _
    · rintro _ ⟨⟩
      exact isSpeakers_speakersJson _
  rw [ofEnvironment, hglobals, hspeakers]
  exact ofJson_eq_ok_iff.2 ⟨_, rfl, hform, (ofRecord_fields (of env)).symm⟩

theorem fieldsPlain_values (entries : List (String × Value)) :
    Json.FieldsPlain (entries.map fun e => (e.1, e.2.toJson)) := by
  induction entries with
  | nil => exact trivial
  | cons e rest ih =>
    obtain ⟨name, v⟩ := e
    refine ⟨?_, ih⟩
    cases v <;> exact trivial

theorem isPlain_valuesJson (m : SavedVariables) : (valuesJson m).IsPlain := by
  refine ⟨?_, fieldsPlain_values m.entries⟩
  rw [List.map_map]
  exact m.nodup

theorem fieldsPlain_speakers (entries : List (String × SavedVariables)) :
    Json.FieldsPlain (entries.map fun e => (e.1, valuesJson e.2)) := by
  induction entries with
  | nil => exact trivial
  | cons e rest ih => exact ⟨isPlain_valuesJson e.2, ih⟩

theorem depth_valuesJson (m : SavedVariables) : (valuesJson m).depth ≤ 1 := by
  refine Nat.succ_le_succ (Json.fieldsDepth_le fun f hf => ?_)
  obtain ⟨e, -, rfl⟩ := List.mem_map.1 hf
  obtain ⟨name, x⟩ := e
  cases x <;> exact Nat.le_refl 0

theorem depth_speakersJson (speakers : OrderedMap SavedVariables) :
    (speakersJson speakers).depth ≤ 2 := by
  refine Nat.succ_le_succ (Json.fieldsDepth_le fun f hf => ?_)
  obtain ⟨e, -, rfl⟩ := List.mem_map.1 hf
  exact depth_valuesJson e.2

theorem isPlain_speakersJson (speakers : OrderedMap SavedVariables) :
    (speakersJson speakers).IsPlain := by
  refine ⟨?_, fieldsPlain_speakers speakers.entries⟩
  rw [List.map_map]
  exact speakers.nodup

end SavedState

/-! ## Numbers that can be written -/

/-- No integer among variables has too many digits. -/
def Variables.IsShort (m : Variables) : Prop :=
  ∀ name n, OrderedMap.get? m name = some (.value (.int n)) →
    Text.isOverlong (Text.ofInt n) = false

/-- The count of variables in quest state. -/
def Environment.variableCount (env : Environment) : Nat :=
  env.speakers.entries.foldr (fun e total => e.2.size + total) env.globals.size

/-- All numbers of quest state can be written: the integers that it holds and the count of variables. -/
structure Environment.IsWritable (env : Environment) : Prop where
  globals : env.globals.IsShort
  speakers : ∀ npc m, env.speakers.get? npc = some m → Variables.IsShort m
  count : Text.isOverlong (Text.ofInt env.variableCount) = false

namespace SavedState

theorem isShort_script (x : Stored) :
    x.script.toJson.isShort = true ↔
      ∀ n, x = .value (.int n) → Text.isOverlong (Text.ofInt n) = false := by
  cases x with
  | foreign document =>
    refine ⟨fun _ n h => ?_, fun _ => rfl⟩
    cases h
  | value v =>
    cases v with
    | int n => simp [Stored.script, Stored.value?, Value.toJson, Json.isShort]
    | _ =>
      refine ⟨fun _ n h => ?_, fun _ => rfl⟩
      cases h

/-- The document for the variables of an owner can be written if their integers can. -/
theorem isShort_valuesJson (m : Variables) :
    (valuesJson (OrderedMap.map Stored.script m)).isShort = true ↔ m.IsShort := by
  rw [valuesJson, Json.isShort, Json.fieldsShort_iff, OrderedMap.map, Variables.IsShort]
  simp only [List.map_map, List.forall_mem_map, Function.comp_def, isShort_script]
  constructor
  · intro h name n hname
    exact h _ (OrderedMap.get?_eq_some_iff.1 hname) n rfl
  · rintro h ⟨name, x⟩ he n rfl
    exact h name n (OrderedMap.get?_eq_some_iff.2 he)

theorem foldr_size_map {α β : Type} (f : OrderedMap α → OrderedMap β)
    (hf : ∀ m, (f m).size = m.size) (entries : List (String × OrderedMap α)) (n : Nat) :
    (entries.map fun e => (e.1, f e.2)).foldr (fun e total => e.2.size + total) n =
      entries.foldr (fun e total => e.2.size + total) n := by
  induction entries with
  | nil => rfl
  | cons e rest ih => rw [List.map_cons, List.foldr_cons, List.foldr_cons, ih, hf]

theorem variableCount_of (env : Environment) : (of env).variableCount = env.variableCount := by
  have hsize : ∀ m : Variables, (OrderedMap.map Stored.script m).size = m.size := by
    intro m
    exact List.length_map _
  have hglobals : (of env).globals.size = env.globals.size := hsize env.globals
  rw [variableCount, Environment.variableCount, hglobals]
  exact foldr_size_map _ hsize env.speakers.entries env.globals.size

/-- The fields of quest state can be written exactly if its integers can. -/
theorem isShort_fields_of (env : Environment) :
    (Json.object (of env).fields).isShort = true ↔
      env.globals.IsShort ∧ ∀ npc m, env.speakers.get? npc = some m → Variables.IsShort m := by
  have hspeakers : (speakersJson (of env).speakers).isShort = true ↔
      ∀ npc m, env.speakers.get? npc = some m → Variables.IsShort m := by
    have hentries : (of env).speakers.entries =
        env.speakers.entries.map fun e => (e.1, OrderedMap.map Stored.script e.2) := rfl
    rw [speakersJson, Json.isShort, Json.fieldsShort_iff, hentries]
    simp only [List.map_map, List.forall_mem_map, Function.comp_def, isShort_valuesJson]
    constructor
    · exact fun h npc m hnpc => h _ (OrderedMap.get?_eq_some_iff.1 hnpc)
    · exact fun h e he => h e.1 e.2 (OrderedMap.get?_eq_some_iff.2 he)
  rw [Json.isShort, Json.fieldsShort_iff, fields_eq]
  simp only [List.forall_mem_cons, hspeakers]
  rw [of, isShort_valuesJson]
  exact ⟨fun h => ⟨h.2.1, h.2.2.1⟩, fun h => ⟨rfl, h.1, h.2, nofun⟩⟩

end SavedState

theorem Archive.isShort_fields_of_canWrite {slot : Slot} {s : SavedState}
    (h : canWrite slot s = true) : (Json.object s.fields).isShort = true := by
  rw [canWrite, Bool.and_eq_true, Bool.and_eq_true] at h
  exact h.1.1

/-- A save of quest state to a slot is not refused for its numbers exactly if they and the number of the
slot can be written. -/
theorem Archive.canWrite_iff (slot : Slot) (env : Environment) :
    canWrite slot (.of env) = true ↔ env.IsWritable ∧ slot.isOverlong = false := by
  rw [canWrite, Bool.and_eq_true, Bool.and_eq_true, SavedState.isShort_fields_of,
    SavedState.variableCount_of, Json.isShort, Bool.not_eq_true', Bool.not_eq_true']
  exact ⟨fun ⟨⟨h, hcount⟩, hslot⟩ => ⟨⟨h.1, h.2, hcount⟩, hslot⟩,
    fun ⟨h, hslot⟩ => ⟨⟨⟨h.globals, h.speakers⟩, h.count⟩, hslot⟩⟩

/-! ## The files of a slot -/

namespace Archive

/-- The checksum goes and comes without a change to the other fields. -/
theorem withoutChecksum_savedFields (s : SavedState) :
    withoutChecksum (savedFields s) = s.fields := by
  rw [savedFields, SavedState.fields_eq]
  rfl

/-- Saved fields hold the checksum of the others. -/
theorem lookup_savedFields (s : SavedState) :
    (savedFields s).lookup checksumField = some (.str (checksum s.fields)) := by
  rw [savedFields, SavedState.fields_eq]
  rfl

/-- The checksum of saved fields matches the fields that are read back with it. -/
theorem isCorrupted_savedFields (s : SavedState) : isCorrupted (savedFields s) = false := by
  -- The stored checksum is the one of the other fields, and these are all that is hashed.
  have hmatches : matchesChecksum (savedFields s) (.str (checksum s.fields)) = true := by
    rw [matchesChecksum, withoutChecksum_savedFields]
    exact beq_self_eq_true _
  rw [isCorrupted, lookup_savedFields]
  dsimp only
  rw [hmatches, Bool.not_true, Bool.and_false]

theorem isPlain_fields (s : SavedState) : (Json.object s.fields).IsPlain := by
  have hnames : ["version", "global_vars", "speaker_vars"].Nodup := by decide
  exact ⟨hnames, trivial, SavedState.isPlain_valuesJson s.globals,
    SavedState.isPlain_speakersJson s.speakers, trivial⟩

theorem isPlain_savedFields (s : SavedState) : (Json.object (savedFields s)).IsPlain := by
  have hnames : ["version", "global_vars", "speaker_vars", checksumField].Nodup := by decide
  exact ⟨hnames, trivial, SavedState.isPlain_valuesJson s.globals,
    SavedState.isPlain_speakersJson s.speakers, trivial, trivial⟩

/-- The file of a slot nests three objects. -/
theorem depth_savedFields (s : SavedState) : (Json.object (savedFields s)).depth ≤ 3 := by
  refine Nat.succ_le_succ (Json.fieldsDepth_le fun f hf => ?_)
  rw [savedFields, SavedState.fields_eq] at hf
  simp only [List.cons_append, List.nil_append, List.mem_cons, List.not_mem_nil, or_false] at hf
  rcases hf with rfl | rfl | rfl | rfl
  · exact Nat.zero_le 2
  · exact Nat.le_succ_of_le (SavedState.depth_valuesJson _)
  · exact SavedState.depth_speakersJson _
  · exact Nat.zero_le 2

/-- The checksum is a text, so that it has no part in whether the others can be written. -/
theorem isShort_savedFields (s : SavedState) :
    (Json.object (savedFields s)).isShort = (Json.object s.fields).isShort := by
  rw [Bool.eq_iff_iff]
  simp only [savedFields, Json.isShort, Json.fieldsShort_iff, List.mem_append, List.mem_singleton]
  exact ⟨fun h f hf => h f (.inl hf), fun h f hf => hf.elim (h f) fun hf => by rw [hf]; rfl⟩

/-- A saved state whose integers can be written can be read back. -/
theorem isReadable_savedFields {s : SavedState} (h : (Json.object s.fields).isShort = true)
    (limits : Limits) : (Json.object (savedFields s)).IsReadable limits :=
  ⟨isPlain_savedFields s, (isShort_savedFields s).trans h,
    Nat.le_trans (depth_savedFields s) limits.three_le_documents⟩

/-- All of it is written of a document whose integers can be converted. -/
theorem written_of_isShort {document : Json} (h : document.isShort = true) :
    document.written = document.indented 0 := by
  rw [Json.written, if_pos h]

/-- A document that the reader can hold is read back from the bytes that are written for it. -/
theorem readJson_asciiBytes {t : FileTree} {path : String} {limits : Limits} {document : Json}
    (h : document.IsReadable limits)
    (hfile : t.find path = .ok (.file (asciiBytes (document.indented 0)))) :
    t.readJson path limits = .ok document := by
  have hread : t.read path = .ok (asciiBytes (document.indented 0)) := by
    rw [FileTree.read, hfile]
  have htext : t.readText path = .ok (document.indented 0) := by
    rw [FileTree.readText, hread]
    dsimp only
    rw [asciiBytes, Json.decodeUtf8_indented h.plain 0]
  rw [FileTree.readJson, htext]
  dsimp only
  rw [Json.ofText_indented h]
  rfl

end Archive

end Parley
