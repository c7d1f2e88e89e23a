import Parley.Json.Reader

/-!
# Results of Reading

What is true of every document that is read. The reader gathers a document from its scalars, so that a
property of the scalars which lists and objects take over from what is in them is one of the document
(`IsInherited`). A reader keeps one field for each name, so the fields of every object have distinct
names, at every depth: a document says no more than the maps that are made of its objects. And its
integers can be converted, so that a document that was read can be written again.

* `of_ofText`: what is inherited by lists and objects and holds of scalars holds of documents;
* `hasDistinctNames_of_ofText`: a document that is read has distinct names everywhere;
* `isShort_of_ofText`: the integers of a document that is read can be converted.
-/

namespace Parley.Json

/-- A document that is neither a list nor an object. -/
def IsLeaf (v : Json) : Prop :=
  v.items? = none ∧ v.fields? = none

/-- The objects in a document, the document among them, have fields with distinct names. -/
inductive HasDistinctNames : Json → Prop
  | leaf {v : Json} (h : v.IsLeaf) : HasDistinctNames v
  | list {items : List Json} (h : ∀ v ∈ items, HasDistinctNames v) : HasDistinctNames (.list items)
  | object {fields : List (String × Json)} (hnodup : (fields.map Prod.fst).Nodup)
    (h : ∀ f ∈ fields, HasDistinctNames f.2) : HasDistinctNames (.object fields)

/-- Fields with distinct names whose documents have a property. -/
structure Fields (P : Json → Prop) (fields : List (String × Json)) : Prop where
  nodup : (fields.map Prod.fst).Nodup
  each : ∀ f ∈ fields, P f.2

/-- Fields with distinct names whose documents have distinct names in turn. -/
abbrev DistinctFields : List (String × Json) → Prop :=
  Fields HasDistinctNames

/-- A property that lists and objects have if what is in them has it. -/
structure IsInherited (P : Json → Prop) : Prop where
  list {items : List Json} : (∀ v ∈ items, P v) → P (.list items)
  object {fields : List (String × Json)} : Fields P fields → P (.object fields)

theorem hasDistinctNames_object {fields : List (String × Json)} :
    HasDistinctNames (.object fields) ↔ DistinctFields fields := by
  refine ⟨fun h => ?_, fun h => .object h.nodup h.each⟩
  cases h with
  | leaf hleaf => exact nomatch hleaf.2
  | object hnodup hfields => exact ⟨hnodup, hfields⟩

theorem isInherited_hasDistinctNames : IsInherited HasDistinctNames :=
  ⟨.list, hasDistinctNames_object.2⟩

theorem itemsShort_iff {items : List Json} : itemsShort items = true ↔ ∀ v ∈ items, v.isShort = true := by
  induction items with
  | nil => simp [itemsShort]
  | cons v rest ih => simp [itemsShort, ih]

theorem fieldsShort_iff {fields : List (String × Json)} :
    fieldsShort fields = true ↔ ∀ f ∈ fields, f.2.isShort = true := by
  induction fields with
  | nil => simp [fieldsShort]
  | cons f rest ih => simp [fieldsShort, ih]

theorem isInherited_isShort : IsInherited fun v => v.isShort = true :=
  ⟨itemsShort_iff.2, fun h => fieldsShort_iff.2 h.each⟩

/-! ## Scalars -/

namespace Token

theorem isLeaf_of_scalar? {s : List Char} {r : Json × List Char} (h : scalar? s = some r) :
    r.1.IsLeaf := by
  have hword : ∀ {s r}, word? s = some r → r.1.IsLeaf := by
    intro s r h
    obtain ⟨⟨word, value⟩, hmem, hvalue⟩ := List.exists_of_findSome?_eq_some h
    simp only [Option.ite_none_right_eq_some, Option.some.injEq] at hvalue
    obtain ⟨-, rfl⟩ := hvalue
    -- The words stand for nothing, truth values and unusual numbers.
    simp only [words, List.mem_cons, Prod.mk.injEq, List.not_mem_nil, or_false] at hmem
    rcases hmem with ⟨-, rfl⟩ | ⟨-, rfl⟩ | ⟨-, rfl⟩ | ⟨-, rfl⟩ | ⟨-, rfl⟩ | ⟨-, rfl⟩ <;>
      exact ⟨rfl, rfl⟩
  have hnumber : ∀ {negative s r}, unsignedNumber? negative s = some r → r.1.IsLeaf := by
    intro negative s r h
    rw [unsignedNumber?] at h
    dsimp only at h
    split at h
    · cases h
    · split at h
      · rw [← Option.some.inj h]
        exact ⟨rfl, rfl⟩
      · rw [← Option.some.inj h]
        exact ⟨rfl, rfl⟩
  rw [scalar?.eq_def] at h
  split at h
  · obtain ⟨units, -, hchars⟩ := Option.bind_eq_some_iff.1 h
    obtain ⟨chars, -, rfl⟩ := Option.map_eq_some_iff.1 hchars
    exact ⟨rfl, rfl⟩
  · split at h
    · next r' hr =>
      rw [← Option.some.inj h]
      exact hword hr
    · split at h
      · exact hnumber h
      · exact hnumber h

/-- Scalars that are neither lists nor objects, and whose integers can be converted. -/
def IsScalar (v : Json) : Prop :=
  v.IsLeaf ∧ v.isShort = true

/-- What is found in a text are scalars. -/
theorem isScalar_of_mem_ofTextAfter {seen : List Token} {s : List Char}
    (hseen : ∀ v, .scalar v ∈ seen → IsScalar v) {v : Json} (h : .scalar v ∈ ofTextAfter seen s) :
    IsScalar v := by
  fun_induction ofTextAfter seen s with
  | case1 seen => exact hseen v (List.mem_reverse.1 h)
  | case2 seen c rest hgap ih => exact ih hseen h
  | case3 seen c rest hgap t ht ih =>
    refine ih (fun w hw => ?_) h
    rcases List.mem_cons.1 hw with rfl | hw
    · -- No bracket or separator is a scalar.
      unfold punctuation? at ht
      split at ht <;> cases ht
    · exact hseen w hw
  | case4 seen c rest hgap hnone value rest' hscalar hshorter hshort ih =>
    refine ih (fun w hw => ?_) h
    rcases List.mem_cons.1 hw with hw | hw
    · cases hw
      exact ⟨isLeaf_of_scalar? hscalar, hshort⟩
    · exact hseen w hw
  -- The last token is no scalar.
  | case5 seen c rest hgap hnone value rest' hscalar hshorter hlong =>
    exact hseen v (by simpa using h)
  | case6 seen c rest hgap hnone hscalar => exact hseen v (by simpa using h)

/-- The scalars among the tokens of a text are neither lists nor objects, and short. -/
theorem isScalar_of_mem_ofText {s : List Char} {v : Json} (h : .scalar v ∈ ofText s) : IsScalar v :=
  isScalar_of_mem_ofTextAfter (fun _ hw => absurd hw List.not_mem_nil) h

end Token

/-! ## Lists and objects -/

section Inherited

variable {P : Json → Prop}

theorem fields_nil : Fields P [] :=
  ⟨List.nodup_nil, nofun⟩

/-- A field that is put among others keeps their names distinct. -/
theorem Fields.insertEntry {fields : List (String × Json)} {v : Json} (h : Fields P fields)
    (name : String) (hv : P v) : Fields P (insertEntry name v fields) := by
  refine ⟨nodup_insertEntry name v h.nodup, ?_⟩
  have hfields := h.each
  clear h
  induction fields with
  | nil =>
    intro f hf
    obtain rfl := List.mem_singleton.1 hf
    exact hv
  | cons e rest ih =>
    obtain ⟨he, hrest⟩ := List.forall_mem_cons.1 hfields
    rw [Parley.insertEntry]
    split
    · exact List.forall_mem_cons.2 ⟨hv, hrest⟩
    · exact List.forall_mem_cons.2 ⟨he, ih hrest⟩

/-- What has been read of an open list or object has a property. -/
def Frame.Has (P : Json → Prop) : Frame → Prop
  | .list items => ∀ v ∈ items, P v
  | .object fields _ => Fields P fields

/-- What has just been read has a property. -/
def Expecting.Has (P : Json → Prop) : Expecting → Prop
  | .name fields => Fields P fields
  | .colon fields _ => Fields P fields
  | .after v => P v
  | _ => True

/-- What is read from tokens has an inherited property that the scalars and what has been read so far
have. -/
theorem of_ofTokens (hP : IsInherited P) {room : Nat} {tokens : List Token} {frames : List Frame}
    {next : Expecting} {document : Json} (htokens : ∀ v, .scalar v ∈ tokens → P v)
    (hframes : ∀ f ∈ frames, f.Has P) (hnext : next.Has P)
    (h : ofTokens room tokens frames next = .ok document) : P document := by
  have htail : ∀ {t : Token} {rest : List Token}, (∀ v, .scalar v ∈ t :: rest → P v) →
      ∀ v, .scalar v ∈ rest → P v :=
    fun h v hv => h v (List.mem_cons_of_mem _ hv)
  fun_induction ofTokens room tokens frames next with
  | case1 value =>
    cases h
    exact hnext
  -- A scalar, in place of a document or as the first item of a list.
  | case2 value rest frames ih =>
    exact ih (htail htokens) hframes (htokens value List.mem_cons_self) h
  | case9 value rest frames ih =>
    exact ih (htail htokens) (List.forall_mem_cons.2 ⟨nofun, hframes⟩)
      (htokens value List.mem_cons_self) h
  -- A list or object begins.
  | case4 rest frames hroom ih | case6 rest frames hroom ih =>
    exact ih (htail htokens) hframes trivial h
  | case11 rest frames hroom ih | case13 rest frames hroom ih =>
    exact ih (htail htokens) (List.forall_mem_cons.2 ⟨nofun, hframes⟩) trivial h
  -- It ends at once.
  | case8 rest frames ih => exact ih (htail htokens) hframes (hP.list nofun) h
  | case15 rest frames ih => exact ih (htail htokens) hframes (hP.object fields_nil) h
  -- The name of a field, and the colon behind it.
  | case16 name rest frames ih => exact ih (htail htokens) hframes fields_nil h
  | case17 name rest frames fields ih => exact ih (htail htokens) hframes hnext h
  | case18 rest frames fields name ih =>
    exact ih (htail htokens) (List.forall_mem_cons.2 ⟨hnext, hframes⟩) trivial h
  -- An item of a list, and its end.
  | case19 rest items frames value ih =>
    obtain ⟨hitems, hframes⟩ := List.forall_mem_cons.1 hframes
    have hall : ∀ v ∈ value :: items, P v := List.forall_mem_cons.2 ⟨hnext, hitems⟩
    exact ih (htail htokens) (List.forall_mem_cons.2 ⟨hall, hframes⟩) trivial h
  | case20 rest items frames value ih =>
    obtain ⟨hitems, hframes⟩ := List.forall_mem_cons.1 hframes
    have hall : ∀ v ∈ value :: items, P v := List.forall_mem_cons.2 ⟨hnext, hitems⟩
    exact ih (htail htokens) hframes (hP.list fun v hv => hall v (List.mem_reverse.1 hv)) h
  -- A field of an object, and its end.
  | case21 rest fields name frames value ih =>
    obtain ⟨hfields, hframes⟩ := List.forall_mem_cons.1 hframes
    exact ih (htail htokens) hframes (Fields.insertEntry hfields name hnext) h
  | case22 rest fields name frames value ih =>
    obtain ⟨hfields, hframes⟩ := List.forall_mem_cons.1 hframes
    exact ih (htail htokens) hframes (hP.object (Fields.insertEntry hfields name hnext)) h
  -- Nothing is read where a limit is exceeded or something else is expected.
  | _ => cases h

/-- A property that scalars have, and that lists and objects take over from what is in them, holds of
every document that is read. -/
theorem of_ofText (hP : IsInherited P) (hscalar : ∀ v, Token.IsScalar v → P v) {s : List Char}
    {limits : Limits} {document : Json} (h : ofText s limits = .ok document) : P document := by
  have hnext : Expecting.Has P .value := trivial
  exact of_ofTokens hP (fun v hv => hscalar v (Token.isScalar_of_mem_ofText hv))
    (fun _ hf => absurd hf List.not_mem_nil) hnext h

end Inherited

variable {s : List Char} {limits : Limits} {document : Json}

/-- A document that is read has distinct names everywhere. -/
theorem hasDistinctNames_of_ofText (h : ofText s limits = .ok document) :
    document.HasDistinctNames :=
  of_ofText isInherited_hasDistinctNames (fun _ hv => .leaf hv.1) h

/-- The integers of a document that is read can be converted, so that it can be written again. -/
theorem isShort_of_ofText (h : ofText s limits = .ok document) : document.isShort = true :=
  of_ofText isInherited_isShort (fun _ hv => hv.2) h

end Parley.Json
