import Parley.State.Stage

/-!
# Commits of Admitted Stages

A write is checked against the declarations alone, so a write that was allowed once stays allowed
for as long as the declarations stay. Let `m` be a manifest. We prove:

* `write_eq_ok_iff`: a write succeeds exactly when the declarations admit it (`Manifest.Admits`);
* `lookup_write`: it is then seen under its own name and under no other;
* `Stage.admitted_write`: a stage keeps nothing that the declarations do not admit
  (`Stage.Admitted`);
* `Stage.commit_of_admitted`: the commit of such a stage is never refused, and afterwards every
  variable reads as it did through the stage.
-/

namespace Parley

variable {viewer : Option String} {name : String}

/-- The declarations let a viewer write a value to a variable. -/
def Manifest.Admits (m : Manifest) (viewer : Option String) (name : String) (v : Value) : Prop :=
  ∃ d, m.get? name = some d ∧ v.type = d.type ∧ (d.scope = .speaker → viewer ≠ none)

namespace Environment

variable {env env' : Environment}

/-- A write passes its check exactly when it writes a script value of the declared type, in the name
of a speaker if the variable belongs to speakers. -/
theorem checkWrite_eq_ok_iff {x : Stored} {d : Declaration} {v : Value} :
    env.checkWrite viewer name x = .ok (d, v) ↔
      env.manifest.get? name = some d ∧ x = .value v ∧ v.type = d.type ∧
        (d.scope = .speaker → viewer ≠ none) := by
  rw [checkWrite]
  cases env.manifest.get? name with
  | none => simp
  | some declared =>
    cases x with
    | foreign document => simp
    | value u =>
      -- The two refusals of a declared script value: its type, and the lack of a speaker.
      by_cases htype : u.type = declared.type
      · by_cases hscope : declared.scope = .speaker ∧ viewer = none
        · simp only [htype, ne_eq, not_true_eq_false, if_false, hscope, and_self, if_true,
            reduceCtorEq, false_iff]
          rintro ⟨hd, -, -, hspeaker⟩
          cases hd
          exact hspeaker hscope.1
        · simp only [htype, ne_eq, not_true_eq_false, if_false, hscope, Except.ok.injEq,
            Prod.mk.injEq, Option.some.injEq, Stored.value.injEq]
          constructor
          · rintro ⟨rfl, rfl⟩
            exact ⟨rfl, rfl, htype, fun hs hv => hscope ⟨hs, hv⟩⟩
          · rintro ⟨rfl, rfl, -, -⟩
            exact ⟨rfl, rfl⟩
      · simp only [htype, ne_eq, not_false_eq_true, if_true, reduceCtorEq, false_iff]
        rintro ⟨hd, hv, hu, -⟩
        cases hd
        cases hv
        exact htype hu

/-- A write that succeeds stores its value where the declaration says. -/
theorem write_eq_ok_iff {x : Stored} :
    env.write viewer name x = .ok env' ↔
      ∃ d v, env.checkWrite viewer name x = .ok (d, v) ∧ env' = env.store viewer d name v := by
  rw [write]
  cases env.checkWrite viewer name x with
  | error fault => simp
  | ok checked =>
    obtain ⟨d, v⟩ := checked
    simp only [Except.ok.injEq, Prod.mk.injEq]
    exact ⟨fun h => ⟨d, v, ⟨rfl, rfl⟩, h.symm⟩, fun ⟨_, _, ⟨hd, hv⟩, h⟩ => by rw [h, hd, hv]⟩

/-- A write of a script value succeeds exactly when the declarations admit it. -/
theorem exists_write_iff {v : Value} :
    (∃ env', env.write viewer name (.value v) = .ok env') ↔
      env.manifest.Admits viewer name v := by
  constructor
  · rintro ⟨env', h⟩
    obtain ⟨d, u, hcheck, -⟩ := write_eq_ok_iff.1 h
    obtain ⟨hd, hv, htype, hspeaker⟩ := checkWrite_eq_ok_iff.1 hcheck
    cases hv
    exact ⟨d, hd, htype, hspeaker⟩
  · rintro ⟨d, hd, htype, hspeaker⟩
    exact ⟨_, write_eq_ok_iff.2 ⟨d, v, checkWrite_eq_ok_iff.2 ⟨hd, rfl, htype, hspeaker⟩, rfl⟩⟩

@[simp]
theorem store_manifest (env : Environment) (viewer : Option String) (d : Declaration)
    (name : String) (v : Value) : (env.store viewer d name v).manifest = env.manifest := by
  unfold store
  split <;> rfl

/-- A write leaves the declarations alone. -/
theorem write_manifest {x : Stored} (h : env.write viewer name x = .ok env') :
    env'.manifest = env.manifest := by
  obtain ⟨d, v, -, rfl⟩ := write_eq_ok_iff.1 h
  exact store_manifest env viewer d name v

/-- The variables of a speaker after those of some speaker are replaced. -/
theorem speakerVariables_insert (env : Environment) (npc k : String) (own : Variables) :
    ({ env with speakers := env.speakers.insert npc own } : Environment).speakerVariables k =
      if k = npc then own else env.speakerVariables k := by
  simp only [speakerVariables, OrderedMap.get?_insert]
  split <;> rfl

/-- A stored value is seen under its own name and under no other. -/
theorem lookup_store {d : Declaration} (hd : env.manifest.get? name = some d)
    (hspeaker : d.scope = .speaker → viewer ≠ none) (v : Value) (k : String) :
    (env.store viewer d name v).lookup viewer k =
      if k = name then some (.value v) else env.lookup viewer k := by
  -- Both scopes: a value is stored where the lookup of the same viewer looks for it.
  rw [lookup, lookup, store_manifest]
  cases hscope : d.scope with
  | global =>
    simp only [store, hscope, OrderedMap.get?_insert]
    by_cases hk : k = name
    · subst hk
      simp [hd, hscope]
    · simp only [hk, if_false]
      rfl
  | speaker =>
    cases viewer with
    | none => exact absurd rfl (hspeaker hscope)
    | some npc =>
      simp only [store, hscope]
      by_cases hk : k = name
      · subst hk
        simp [hd, hscope, speakerVariables_insert, OrderedMap.get?_insert]
      · rw [if_neg hk]
        -- Another variable of the speaker keeps its own entry, whatever its scope.
        cases env.manifest.get? k with
        | none => rfl
        | some other =>
          cases hother : other.scope <;>
            simp [hother, hk, speakerVariables_insert, OrderedMap.get?_insert]

/-- A write is seen under its own name and under no other. -/
theorem lookup_write {v : Value} (h : env.write viewer name (.value v) = .ok env') (k : String) :
    env'.lookup viewer k = if k = name then some (.value v) else env.lookup viewer k := by
  obtain ⟨d, u, hcheck, rfl⟩ := write_eq_ok_iff.1 h
  obtain ⟨hd, hv, -, hspeaker⟩ := checkWrite_eq_ok_iff.1 hcheck
  cases hv
  exact lookup_store hd hspeaker v k

/-- A global variable reads the same for everybody. -/
theorem lookup_global {d : Declaration} (hd : env.manifest.get? name = some d)
    (hscope : d.scope = .global) (viewer : Option String) :
    env.lookup viewer name = some ((env.globals.get? name).getD d.initial) := by
  simp [lookup, hd, hscope]

end Environment

namespace Stage

variable {stage stage' : Stage} {env env' : Environment} {m : Manifest}

/-- Every staged write is one that the declarations admit. -/
def Admitted (stage : Stage) (m : Manifest) : Prop :=
  ∀ name v, stage.pending.get? name = some v → m.Admits stage.viewer name v

/-- A stage without writes holds nothing that is not admitted. -/
theorem admitted_empty (viewer : Option String) (m : Manifest) :
    ({ viewer } : Stage).Admitted m := by
  intro name v h
  simp at h

/-- What is staged for an integer variable is an integer. -/
theorem Admitted.exists_int {d : Declaration} {v : Value} (h : stage.Admitted m)
    (hd : m.get? name = some d) (htype : d.type = .int)
    (hpending : stage.pending.get? name = some v) : ∃ n, v = .int n := by
  obtain ⟨declared, hdeclared, hv, -⟩ := h name v hpending
  rw [hd, Option.some.injEq] at hdeclared
  rw [← hdeclared, htype] at hv
  cases v with
  | int n => exact ⟨n, rfl⟩
  | bool b => cases hv
  | str s => cases hv

/-- Staging a write asks the same as making it. -/
theorem write_eq_ok_iff {x : Stored} :
    stage.write env name x = .ok stage' ↔
      ∃ d v, env.checkWrite stage.viewer name x = .ok (d, v) ∧
        stage' = { stage with pending := stage.pending.insert name v } := by
  rw [write]
  cases env.checkWrite stage.viewer name x with
  | error fault => simp
  | ok checked =>
    obtain ⟨d, v⟩ := checked
    simp only [Except.ok.injEq, Prod.mk.injEq]
    exact ⟨fun h => ⟨d, v, ⟨rfl, rfl⟩, h.symm⟩, fun ⟨_, _, ⟨_, hv⟩, h⟩ => by rw [h, hv]⟩

/-- A staged write stays in the name of the same viewer. -/
theorem write_viewer {x : Stored} (h : stage.write env name x = .ok stage') :
    stage'.viewer = stage.viewer := by
  obtain ⟨d, v, -, rfl⟩ := write_eq_ok_iff.1 h
  rfl

/-- A stage keeps nothing that the declarations do not admit. -/
theorem admitted_write {x : Stored} (hadmitted : stage.Admitted env.manifest)
    (h : stage.write env name x = .ok stage') : stage'.Admitted env.manifest := by
  obtain ⟨d, v, hcheck, rfl⟩ := write_eq_ok_iff.1 h
  obtain ⟨hd, -, htype, hspeaker⟩ := Environment.checkWrite_eq_ok_iff.1 hcheck
  intro k u hk
  rw [OrderedMap.get?_insert] at hk
  by_cases hname : k = name
  · rw [if_pos hname, Option.some.injEq] at hk
    subst hname
    subst hk
    exact ⟨d, hd, htype, hspeaker⟩
  · rw [if_neg hname] at hk
    exact hadmitted k u hk

/-- Admitted writes are all made, and then read as the last of them with their name. -/
theorem writeAll_of_admits {entries : List (String × Value)}
    (hnodup : (entries.map Prod.fst).Nodup)
    (hadmits : ∀ e ∈ entries, env.manifest.Admits viewer e.1 e.2) :
    ∃ env', writeAll viewer env entries = (.ok (), env') ∧ env'.manifest = env.manifest ∧
      ∀ k, env'.lookup viewer k =
        ((entries.lookup k).map Stored.value).or (env.lookup viewer k) := by
  induction entries generalizing env with
  | nil => exact ⟨env, rfl, rfl, fun k => by simp⟩
  | cons e rest ih =>
    obtain ⟨name, v⟩ := e
    rw [List.map_cons, List.nodup_cons] at hnodup
    obtain ⟨next, hnext⟩ := Environment.exists_write_iff.2 (hadmits (name, v) List.mem_cons_self)
    -- The first write leaves the declarations alone, so the rest is still admitted.
    have hmanifest := Environment.write_manifest hnext
    have hrest : ∀ e ∈ rest, next.manifest.Admits viewer e.1 e.2 := fun e he => by
      rw [hmanifest]
      exact hadmits e (List.mem_cons_of_mem _ he)
    obtain ⟨env', hall, hsame, hlookup⟩ := ih hnodup.2 hrest
    refine ⟨env', by rw [writeAll, hnext]; exact hall, hsame.trans hmanifest, fun k => ?_⟩
    rw [hlookup, Environment.lookup_write hnext, OrderedMap.lookup_entry]
    -- No later write has the name of the first one.
    by_cases hk : k = name
    · have hnone : rest.lookup k = none :=
        OrderedMap.lookup_eq_none_of_notMem (hk ▸ hnodup.1)
      rw [hnone, if_pos hk, if_pos hk]
      rfl
    · rw [if_neg hk, if_neg hk]

/-- The commit of a stage with admitted writes only is not refused. It lists all writes and empties
the stage, and every variable then reads as it did through the stage. -/
theorem commit_of_admitted (h : stage.Admitted env.manifest) :
    ∃ env', stage.commit env = (.ok stage.pending.entries, env', stage.discard) ∧
      env'.manifest = env.manifest ∧ ∀ k, env'.lookup stage.viewer k = stage.lookup env k := by
  have hadmits : ∀ e ∈ stage.pending.entries, env.manifest.Admits stage.viewer e.1 e.2 :=
    fun e he => h e.1 e.2 (OrderedMap.get?_eq_some_iff.2 he)
  obtain ⟨env', hall, hmanifest, hlookup⟩ := writeAll_of_admits stage.pending.nodup hadmits
  refine ⟨env', by rw [commit, hall], hmanifest, fun k => ?_⟩
  rw [hlookup, lookup]
  show ((stage.pending.get? k).map Stored.value).or _ = _
  cases stage.pending.get? k <;> rfl

/-- After the commit of such a stage a global variable reads for everybody as what was staged for it,
or else as before. -/
theorem lookup_commit_global {d : Declaration} (h : stage.Admitted env.manifest)
    (hd : env.manifest.get? name = some d) (hscope : d.scope = .global) (viewer : Option String) :
    (stage.commit env).2.1.lookup viewer name =
      ((stage.pending.get? name).map Stored.value).or (env.lookup viewer name) := by
  obtain ⟨env', hcommit, hmanifest, hlookup⟩ := commit_of_admitted h
  -- The owner of the stage sees what was staged, and all see the same of a global variable.
  have hd' : env'.manifest.get? name = some d := by rw [hmanifest, hd]
  rw [hcommit, Environment.lookup_global hd' hscope viewer,
    ← Environment.lookup_global hd' hscope stage.viewer, hlookup, lookup,
    Environment.lookup_global hd hscope viewer, Environment.lookup_global hd hscope stage.viewer]
  cases stage.pending.get? name <;> rfl

end Stage

end Parley
