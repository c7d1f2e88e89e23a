/-!
# Insertion-Ordered Maps

Maps from names that remember the order in which names first came in: a new name goes last, a known
name keeps its place when it is written again, and a name that was erased and comes back goes last.
The names of a map are distinct, which is part of the type.
-/

namespace Parley

/-- The entries with `name` bound to `value`. -/
def insertEntry {β : Type} (name : String) (value : β) : List (String × β) → List (String × β)
  | [] => [(name, value)]
  | e :: rest => if e.1 = name then (name, value) :: rest else e :: insertEntry name value rest

theorem mem_keys_insertEntry {β : Type} {name k : String} {value : β} {entries : List (String × β)}
    (h : k ∈ (insertEntry name value entries).map Prod.fst) :
    k = name ∨ k ∈ entries.map Prod.fst := by
  induction entries with
  | nil => simpa [insertEntry] using h
  | cons e rest ih =>
    by_cases he : e.1 = name
    · simp only [insertEntry, he, ↓reduceIte, List.map_cons, List.mem_cons] at h ⊢
      exact h.imp_right .inr
    · simp only [insertEntry, he, ↓reduceIte, List.map_cons, List.mem_cons] at h ⊢
      rcases h with h | h
      · exact .inr (.inl h)
      · exact (ih h).imp_right .inr

theorem nodup_insertEntry {β : Type} (name : String) (value : β) {entries : List (String × β)}
    (h : (entries.map Prod.fst).Nodup) : ((insertEntry name value entries).map Prod.fst).Nodup := by
  induction entries with
  | nil => simp [insertEntry]
  | cons e rest ih =>
    simp only [List.map_cons, List.nodup_cons] at h
    by_cases he : e.1 = name
    · simp only [insertEntry, he, ↓reduceIte, List.map_cons, List.nodup_cons]
      exact he ▸ h
    · simp only [insertEntry, he, ↓reduceIte, List.map_cons, List.nodup_cons]
      refine ⟨fun hmem => ?_, ih h.2⟩
      rcases mem_keys_insertEntry hmem with hk | hk
      · exact he hk
      · exact h.1 hk

/-- A new name goes last. -/
theorem insertEntry_of_notMem {β : Type} {name : String} {entries : List (String × β)}
    (h : name ∉ entries.map Prod.fst) (value : β) :
    insertEntry name value entries = entries ++ [(name, value)] := by
  induction entries with
  | nil => rfl
  | cons e rest ih =>
    rw [List.map_cons, List.mem_cons, not_or] at h
    rw [insertEntry, if_neg (Ne.symm h.1), ih h.2]
    rfl

/-- Of two writes to a name the later one is left, in the place of the first. -/
theorem insertEntry_insertEntry {β : Type} (name : String) (u v : β)
    (entries : List (String × β)) :
    insertEntry name v (insertEntry name u entries) = insertEntry name v entries := by
  induction entries with
  | nil => simp [insertEntry]
  | cons e rest ih =>
    by_cases he : e.1 = name
    · simp [insertEntry, he]
    · simp [insertEntry, he, ih]

/-- A write of what is there already changes nothing. -/
theorem insertEntry_self {β : Type} {name : String} {value : β} {entries : List (String × β)}
    (h : entries.lookup name = some value) : insertEntry name value entries = entries := by
  induction entries with
  | nil => cases h
  | cons e rest ih =>
    by_cases he : e.1 = name
    · subst he
      rw [List.lookup_cons, beq_self_eq_true] at h
      obtain rfl : e.2 = value := Option.some.inj h
      rw [insertEntry, if_pos rfl]
    · rw [List.lookup_cons, beq_eq_false_iff_ne.2 (Ne.symm he)] at h
      rw [insertEntry, if_neg he, ih h]

/-- A write to a known name can be made before or after a write to another name. -/
theorem insertEntry_comm_of_mem {β : Type} {name k : String} {entries : List (String × β)}
    (hname : name ∈ entries.map Prod.fst) (hne : k ≠ name) (v w : β) :
    insertEntry name v (insertEntry k w entries) =
      insertEntry k w (insertEntry name v entries) := by
  induction entries with
  | nil => simp at hname
  | cons e rest ih =>
    -- The first entry may be the one of either name, but not of both.
    by_cases he : e.1 = name
    · have hk : name ≠ k := hne.symm
      simp [insertEntry, he, hk]
    · by_cases hk : e.1 = k
      · simp [insertEntry, hk, hne]
      · have hrest : name ∈ rest.map Prod.fst := by
          rw [List.map_cons, List.mem_cons] at hname
          exact hname.resolve_left (Ne.symm he)
        simp [insertEntry, he, hk, ih hrest]

/-- A map from names to values that remembers the order of its names. -/
structure OrderedMap (β : Type) where
  /-- The names with their values, in order. -/
  entries : List (String × β)
  /-- No name occurs twice. -/
  nodup : (entries.map Prod.fst).Nodup

namespace OrderedMap

variable {β : Type}

/-- The map without names. -/
def empty : OrderedMap β :=
  ⟨[], List.nodup_nil⟩

instance : Inhabited (OrderedMap β) := ⟨empty⟩

instance [DecidableEq β] : DecidableEq (OrderedMap β) := fun a b =>
  decidable_of_iff (a.entries = b.entries) (by cases a; cases b; simp)

@[ext]
theorem ext {a b : OrderedMap β} (h : a.entries = b.entries) : a = b := by
  cases a
  cases b
  simpa using h

/-- The names in order. -/
def keys (m : OrderedMap β) : List String :=
  m.entries.map Prod.fst

/-- The count of names. -/
def size (m : OrderedMap β) : Nat :=
  m.entries.length

/-- Whether a name is bound. -/
def contains (m : OrderedMap β) (name : String) : Bool :=
  m.keys.contains name

/-- The value of a name, if it is bound. -/
def get? (m : OrderedMap β) (name : String) : Option β :=
  m.entries.lookup name

/-- The map with a name bound to a value. -/
def insert (m : OrderedMap β) (name : String) (value : β) : OrderedMap β :=
  ⟨insertEntry name value m.entries, nodup_insertEntry name value m.nodup⟩

/-- The map without a name. -/
def erase (m : OrderedMap β) (name : String) : OrderedMap β :=
  ⟨m.entries.filter fun e => e.1 != name,
    m.nodup.sublist (List.filter_sublist.map Prod.fst)⟩

/-- The map that binds each name to the value it comes with last, in the order in which the names
come first. -/
def ofList (entries : List (String × β)) : OrderedMap β :=
  entries.foldl (fun m e => m.insert e.1 e.2) empty

/-- The map with every value changed by a function. -/
def map {γ : Type} (f : β → γ) (m : OrderedMap β) : OrderedMap γ :=
  ⟨m.entries.map fun e => (e.1, f e.2), by
    rw [List.map_map]
    exact m.nodup⟩

@[simp]
theorem get?_empty (name : String) : (empty : OrderedMap β).get? name = none := rfl

/-- A lookup takes the first entry of its name. -/
theorem lookup_entry (k key : String) (v : β) (rest : List (String × β)) :
    ((key, v) :: rest).lookup k = if k = key then some v else rest.lookup k := by
  rw [List.lookup_cons]
  by_cases h : k = key
  · rw [beq_iff_eq.2 h, if_pos h]
  · rw [beq_eq_false_iff_ne.2 h, if_neg h]

/-- A lookup of a name that no entry has finds nothing. -/
theorem lookup_eq_none_of_notMem {k : String} {entries : List (String × β)}
    (h : k ∉ entries.map Prod.fst) : entries.lookup k = none := by
  rw [List.lookup_eq_none_iff]
  intro e he
  rw [bne_iff_ne]
  rintro rfl
  exact h (List.mem_map_of_mem he)

theorem lookup_insertEntry (name k : String) (value : β) (entries : List (String × β)) :
    (insertEntry name value entries).lookup k =
      if k = name then some value else entries.lookup k := by
  induction entries with
  | nil => rw [insertEntry, lookup_entry]
  | cons e rest ih =>
    obtain ⟨key, v⟩ := e
    by_cases he : key = name
    · rw [insertEntry, if_pos he, lookup_entry, lookup_entry, he]
      by_cases h : k = name
      · rw [if_pos h, if_pos h]
      · rw [if_neg h, if_neg h, if_neg h]
    · rw [insertEntry, if_neg he, lookup_entry, lookup_entry, ih]
      by_cases h : k = key
      · have hne : k ≠ name := fun hk => he (h ▸ hk)
        rw [if_pos h, if_pos h, if_neg hne]
      · rw [if_neg h, if_neg h]

/-- A write is seen under its own name and under no other. -/
theorem get?_insert (m : OrderedMap β) (name k : String) (value : β) :
    (m.insert name value).get? k = if k = name then some value else m.get? k :=
  lookup_insertEntry name k value m.entries

theorem keys_insertEntry (name : String) (value : β) (entries : List (String × β)) :
    (insertEntry name value entries).map Prod.fst =
      if name ∈ entries.map Prod.fst then entries.map Prod.fst
      else entries.map Prod.fst ++ [name] := by
  induction entries with
  | nil => simp [insertEntry]
  | cons e rest ih =>
    by_cases he : e.1 = name
    · simp [insertEntry, he]
    · have : name ≠ e.1 := fun h => he h.symm
      by_cases hmem : name ∈ rest.map Prod.fst <;> simp_all [insertEntry]

/-- A known name keeps its place and a new one goes last. -/
theorem keys_insert (m : OrderedMap β) (name : String) (value : β) :
    (m.insert name value).keys = if name ∈ m.keys then m.keys else m.keys ++ [name] :=
  keys_insertEntry name value m.entries

/-- Of two writes to a name the later one is left. -/
theorem insert_insert (m : OrderedMap β) (name : String) (u v : β) :
    (m.insert name u).insert name v = m.insert name v :=
  ext (insertEntry_insertEntry name u v m.entries)

/-- A write of what is there already changes nothing. -/
theorem insert_self {m : OrderedMap β} {name : String} {value : β} (h : m.get? name = some value) :
    m.insert name value = m :=
  ext (insertEntry_self h)

/-- A write to a known name can be made before or after a write to another name. -/
theorem insert_comm_of_mem {m : OrderedMap β} {name k : String} (hname : name ∈ m.keys)
    (hne : k ≠ name) (v w : β) :
    (m.insert k w).insert name v = (m.insert name v).insert k w :=
  ext (insertEntry_comm_of_mem hname hne v w)

theorem lookup_filter_ne (name k : String) (entries : List (String × β)) :
    (entries.filter fun e => e.1 != name).lookup k =
      if k = name then none else entries.lookup k := by
  induction entries with
  | nil => rw [List.filter_nil, List.lookup_nil, ite_self]
  | cons e rest ih =>
    obtain ⟨key, v⟩ := e
    have hfilter : ((key, v) :: rest).filter (fun e => e.1 != name) =
        if key = name then rest.filter (fun e => e.1 != name)
        else (key, v) :: rest.filter (fun e => e.1 != name) := by
      by_cases he : key = name <;> simp [he]
    rw [hfilter]
    by_cases he : key = name
    · rw [if_pos he, ih, lookup_entry, he]
      by_cases h : k = name
      · rw [if_pos h, if_pos h]
      · rw [if_neg h, if_neg h, if_neg h]
    · rw [if_neg he, lookup_entry, lookup_entry, ih]
      by_cases h : k = key
      · have hne : k ≠ name := fun hk => he (h ▸ hk)
        rw [if_pos h, if_pos h, if_neg hne]
      · rw [if_neg h, if_neg h]

/-- An erased name is unbound and all others are left alone. -/
theorem get?_erase (m : OrderedMap β) (name k : String) :
    (m.erase name).get? k = if k = name then none else m.get? k :=
  lookup_filter_ne name k m.entries

/-- Names are bound to what the function makes of their values. -/
theorem get?_map {γ : Type} (f : β → γ) (m : OrderedMap β) (k : String) :
    (m.map f).get? k = (m.get? k).map f := by
  show (m.entries.map fun e => (e.1, f e.2)).lookup k = (m.entries.lookup k).map f
  induction m.entries with
  | nil => rfl
  | cons e rest ih =>
    obtain ⟨key, v⟩ := e
    rw [List.map_cons, lookup_entry, lookup_entry, ih]
    split <;> rfl

/-- The bound names are those that have a value. -/
theorem contains_eq_isSome (m : OrderedMap β) (k : String) :
    m.contains k = (m.get? k).isSome := by
  show (m.entries.map Prod.fst).contains k = (m.entries.lookup k).isSome
  induction m.entries with
  | nil => rfl
  | cons e rest ih =>
    obtain ⟨key, v⟩ := e
    rw [List.map_cons, List.contains_cons, lookup_entry, ih]
    by_cases h : k = key
    · rw [if_pos h, beq_iff_eq.2 h]
      rfl
    · rw [if_neg h, beq_eq_false_iff_ne.2 h]
      rfl

/-- A name is bound to a value exactly when it stands with it among the entries. -/
theorem get?_eq_some_iff {m : OrderedMap β} {k : String} {v : β} :
    m.get? k = some v ↔ (k, v) ∈ m.entries := by
  obtain ⟨entries, hnodup⟩ := m
  show entries.lookup k = some v ↔ (k, v) ∈ entries
  induction entries with
  | nil => simp
  | cons e rest ih =>
    obtain ⟨key, u⟩ := e
    rw [List.map_cons, List.nodup_cons] at hnodup
    rw [lookup_entry, List.mem_cons, Prod.mk.injEq]
    by_cases h : k = key
    · subst h
      have hrest : (k, v) ∉ rest := fun hmem => hnodup.1 (List.mem_map.2 ⟨(k, v), hmem, rfl⟩)
      simp [eq_comm, hrest]
    · simp [h, ih hnodup.2]

theorem map_map {γ δ : Type} (f : β → γ) (g : γ → δ) (m : OrderedMap β) :
    (m.map f).map g = m.map fun x => g (f x) := by
  refine ext ?_
  show (m.entries.map _).map _ = m.entries.map _
  rw [List.map_map]
  rfl

theorem map_eq_self {f : β → β} {m : OrderedMap β}
    (h : ∀ name x, m.get? name = some x → f x = x) : m.map f = m := by
  refine ext ?_
  show m.entries.map (fun e => (e.1, f e.2)) = m.entries
  refine (List.map_congr_left fun e he => ?_).trans (List.map_id m.entries)
  rw [h e.1 e.2 (get?_eq_some_iff.2 he)]
  rfl

/-- A map whose names are all new to another one goes behind it. -/
theorem foldl_insert_entries {entries : List (String × β)} {m : OrderedMap β}
    (h : ((m.entries ++ entries).map Prod.fst).Nodup) :
    (entries.foldl (fun m e => m.insert e.1 e.2) m).entries = m.entries ++ entries := by
  induction entries generalizing m with
  | nil => simp
  | cons e rest ih =>
    have hnew : e.1 ∉ m.entries.map Prod.fst := by
      intro hmem
      rw [List.map_append, List.map_cons] at h
      exact (List.nodup_append.1 h).2.2 _ hmem _ List.mem_cons_self rfl
    have hinsert : (m.insert e.1 e.2).entries = m.entries ++ [e] :=
      insertEntry_of_notMem hnew e.2
    rw [List.foldl_cons, ih (by rw [hinsert]; simpa using h), hinsert, List.append_assoc]
    rfl

/-- Entries with distinct names are the entries of their map. -/
theorem ofList_entries {entries : List (String × β)} (h : (entries.map Prod.fst).Nodup) :
    (ofList entries).entries = entries :=
  foldl_insert_entries (m := empty) h

theorem eraseDups_of_nodup {names : List String} (h : names.Nodup) : names.eraseDups = names := by
  induction names with
  | nil => rfl
  | cons name rest ih =>
    rw [List.nodup_cons] at h
    have hrest : rest.filter (fun k => !k == name) = rest := by
      refine List.filter_eq_self.2 fun k hk => ?_
      rw [Bool.not_eq_true', beq_eq_false_iff_ne]
      rintro rfl
      exact h.1 hk
    rw [List.eraseDups_cons, hrest, ih h.2]

theorem keys_foldl_insert (entries : List (String × β)) (m : OrderedMap β) :
    (entries.foldl (fun m e => m.insert e.1 e.2) m).keys =
      (m.keys ++ entries.map Prod.fst).eraseDups := by
  induction entries generalizing m with
  | nil =>
    rw [List.map_nil, List.append_nil]
    exact (eraseDups_of_nodup m.nodup).symm
  | cons e rest ih =>
    rw [List.foldl_cons, ih, keys_insert]
    split
    · -- A name that was there before comes in a second time and changes nothing.
      next hmem => simp [List.eraseDups_append, List.removeAll, hmem]
    · simp

theorem get?_foldl_insert (entries : List (String × β)) (m : OrderedMap β) (k : String) :
    (entries.foldl (fun m e => m.insert e.1 e.2) m).get? k =
      (entries.reverse.lookup k).or (m.get? k) := by
  induction entries generalizing m with
  | nil => rfl
  | cons e rest ih =>
    rw [List.foldl_cons, ih, get?_insert, List.reverse_cons, List.lookup_append, Option.or_assoc,
      lookup_entry, List.lookup_nil]
    split <;> rfl

/-- The names of a map made of entries are the names of the entries, each where it comes first. -/
theorem keys_ofList (entries : List (String × β)) :
    (ofList entries).keys = (entries.map Prod.fst).eraseDups :=
  keys_foldl_insert entries empty

/-- The value of a name in a map made of entries is the one that it comes with last. -/
theorem get?_ofList (entries : List (String × β)) (k : String) :
    (ofList entries).get? k = entries.reverse.lookup k := by
  rw [ofList, get?_foldl_insert, get?_empty, Option.or_none]

/-- No name is found twice, so that it can be looked for from either end. -/
theorem lookup_reverse_entries (m : OrderedMap β) (k : String) :
    m.entries.reverse.lookup k = m.get? k := by
  have hsame : ofList m.entries = m := ext (ofList_entries m.nodup)
  rw [← get?_ofList, hsame]

/-- A lookup among some of the values finds the value of the name, if that is one of them. -/
theorem lookup_filter_values (m : OrderedMap β) (p : β → Bool) (k : String) :
    (m.entries.filter fun e => p e.2).lookup k = (m.get? k).filter p := by
  let kept : OrderedMap β :=
    ⟨m.entries.filter fun e => p e.2, m.nodup.sublist (List.filter_sublist.map Prod.fst)⟩
  show kept.get? k = _
  refine Option.ext fun v => ?_
  rw [get?_eq_some_iff, List.mem_filter, ← get?_eq_some_iff, Option.filter_eq_some_iff]

end OrderedMap

end Parley
