import Parley.Proofs.State.Stage

/-!
# Stages Refine Direct Writes

Whoever reads and writes through a stage cannot tell it from quest state itself: each access is
answered as if all writes so far had been made at once. The state is only read meanwhile, since no
access to a stage answers another state. The commit then leaves what the direct writes would have
left, down to the order of the names in every map.

## Main definitions

* `Access` and `Access.Answer`: a write or a lookup, and what it is answered;
* `Environment.accessAll` and `Stage.accessAll`: accesses made directly and through a stage;
* `Stage.Shadows`: making the staged writes leads from one state to the other.

## Main results

* `Environment.store_comm`: a variable that is there can be written before or after any other one;
* `Stage.Shadows.access`: a single access keeps a stage and the directly written state together;
* `Stage.accessAll_commit`: so do any number of them, and then the commit.
-/

namespace Parley

/-- A use of quest state: a write, which may be refused, or a lookup. -/
inductive Access
  | write (name : String) (x : Stored)
  | read (name : String)

namespace Access

/-- What an access is answered. -/
inductive Answer
  | written
  | refused (fault : Fault)
  | found (x : Option Stored)

/-- The write that an access made, if it made one. -/
def made? : Access × Answer → Option (String × Value)
  | (.write name (.value v), .written) => some (name, v)
  | _ => none

end Access

variable {viewer : Option String} {name : String}

namespace Environment

variable {env : Environment} {d : Declaration}

/-- An access made directly, and the state after it. -/
def access (env : Environment) (viewer : Option String) : Access → Access.Answer × Environment
  | .write name x =>
    match env.write viewer name x with
    | .ok after => (.written, after)
    | .error fault => (.refused fault, env)
  | .read name => (.found (env.lookup viewer name), env)

/-- Accesses made directly one after the other. -/
def accessAll (viewer : Option String) : Environment → List Access →
    List Access.Answer × Environment
  | env, [] => ([], env)
  | env, a :: rest =>
    let (answer, env) := env.access viewer a
    let (answers, env) := accessAll viewer env rest
    (answer :: answers, env)

/-- A check looks at the declarations only. -/
theorem checkWrite_congr {a b : Environment} (h : a.manifest = b.manifest) (x : Stored) :
    a.checkWrite viewer name x = b.checkWrite viewer name x := by
  rw [checkWrite, checkWrite, h]

/-- The variables among which a write of a declared variable is stored. -/
def home (env : Environment) (viewer : Option String) (d : Declaration) : Variables :=
  match d.scope, viewer with
  | .global, _ => env.globals
  | .speaker, some npc => env.speakerVariables npc
  | .speaker, none => .empty

/-- Of two writes to a variable the later one is left. -/
theorem store_store (env : Environment) (viewer : Option String) (d : Declaration) (name : String)
    (u v : Value) :
    (env.store viewer d name u).store viewer d name v = env.store viewer d name v := by
  cases hscope : d.scope with
  | global => simp only [store, hscope, OrderedMap.insert_insert]
  | speaker =>
    cases viewer with
    | none => simp only [store, hscope]
    | some npc =>
      simp only [store, hscope, speakerVariables_insert, if_true, OrderedMap.insert_insert]

/-- A variable that is there can be written before or after any other one. -/
theorem store_comm {e : Declaration} {k : String} (hname : name ∈ (env.home viewer d).keys)
    (hne : k ≠ name) (v w : Value) :
    (env.store viewer e k w).store viewer d name v =
      (env.store viewer d name v).store viewer e k w := by
  cases hd : d.scope with
  | global =>
    simp only [home, hd] at hname
    cases he : e.scope with
    | global => simp only [store, hd, he, OrderedMap.insert_comm_of_mem hname hne]
    | speaker => cases viewer <;> simp only [store, hd, he, speakerVariables]
  | speaker =>
    cases viewer with
    | none => cases he : e.scope <;> simp only [store, hd, he]
    | some npc =>
      simp only [home, hd] at hname
      cases he : e.scope with
      | global => simp only [store, hd, he, speakerVariables]
      | speaker =>
        -- Both writes replace the variables of the same speaker.
        simp only [store, hd, he, speakerVariables_insert, if_true, OrderedMap.insert_insert,
          OrderedMap.insert_comm_of_mem hname hne]

/-- A write adds at most a name, and takes none away. -/
theorem mem_home_store {e : Declaration} {k : String} (hname : name ∈ (env.home viewer d).keys)
    (w : Value) : name ∈ ((env.store viewer e k w).home viewer d).keys := by
  have hinsert : ∀ (m : Variables) (x : Stored), name ∈ m.keys → name ∈ (m.insert k x).keys := by
    intro m x hmem
    rw [OrderedMap.keys_insert]
    split
    · exact hmem
    · exact List.mem_append_left _ hmem
  cases hd : d.scope with
  | global =>
    simp only [home, hd] at hname ⊢
    cases he : e.scope with
    | global => simpa only [store, he] using hinsert _ _ hname
    | speaker => cases viewer <;> simpa only [store, he] using hname
  | speaker =>
    cases viewer with
    | none => simp only [home, hd] at hname ⊢; exact hname
    | some npc =>
      simp only [home, hd] at hname ⊢
      cases he : e.scope with
      | global =>
        simp only [store, he]
        exact hname
      | speaker =>
        simpa only [store, he, speakerVariables_insert, if_true] using hinsert _ _ hname

/-- A write puts its variable there. -/
theorem mem_home_store_self (hspeaker : d.scope = .speaker → viewer ≠ none) (name : String)
    (v : Value) : name ∈ ((env.store viewer d name v).home viewer d).keys := by
  have hinsert : ∀ (m : Variables) (x : Stored), name ∈ (m.insert name x).keys := by
    intro m x
    rw [OrderedMap.keys_insert]
    split
    · assumption
    · exact List.mem_append_right _ List.mem_cons_self
  cases hd : d.scope with
  | global => simp only [home, store, hd, hinsert]
  | speaker =>
    cases viewer with
    | none => exact absurd rfl (hspeaker hd)
    | some npc => simp only [home, store, hd, speakerVariables_insert, if_true, hinsert]

end Environment

namespace Stage

variable {env direct : Environment} {stage : Stage} {d : Declaration} {v : Value}

/-- An access made through a stage, and the stage after it. -/
def access (stage : Stage) (env : Environment) : Access → Access.Answer × Stage
  | .write name x =>
    match stage.write env name x with
    | .ok after => (.written, after)
    | .error fault => (.refused fault, stage)
  | .read name => (.found (stage.lookup env name), stage)

/-- Accesses made through a stage one after the other. -/
def accessAll (env : Environment) : Stage → List Access → List Access.Answer × Stage
  | stage, [] => ([], stage)
  | stage, a :: rest =>
    let (answer, stage) := stage.access env a
    let (answers, stage) := accessAll env stage rest
    (answer :: answers, stage)

/-- A variable that is there, and that is not among the writes, can be written before or after
them. -/
theorem writeAll_store {entries : List (String × Value)}
    (hname : name ∈ (env.home viewer d).keys) (hother : name ∉ entries.map Prod.fst)
    (h : writeAll viewer env entries = (.ok (), direct)) (v : Value) :
    writeAll viewer (env.store viewer d name v) entries =
      (.ok (), direct.store viewer d name v) := by
  induction entries generalizing env with
  | nil =>
    cases h
    rfl
  | cons e rest ih =>
    obtain ⟨k, w⟩ := e
    rw [List.map_cons, List.mem_cons, not_or] at hother
    rw [writeAll] at h ⊢
    split at h
    · cases h
    · next next hwrite =>
      obtain ⟨declared, u, hcheck, rfl⟩ := Environment.write_eq_ok_iff.1 hwrite
      -- The check is the same after the write, and the two writes can change places.
      have hsame : (env.store viewer d name v).write viewer k (.value w) =
          .ok ((env.store viewer declared k u).store viewer d name v) := by
        rw [Environment.store_comm hname (Ne.symm hother.1)]
        refine Environment.write_eq_ok_iff.2 ⟨declared, u, ?_, rfl⟩
        rw [← hcheck]
        exact Environment.checkWrite_congr (Environment.store_manifest ..) _
      rw [hsame]
      exact ih (Environment.mem_home_store hname u) hother.2 h

/-- A write added to a stage is made on top of what the stage made before. -/
theorem writeAll_insertEntry {entries : List (String × Value)}
    (hnodup : (entries.map Prod.fst).Nodup)
    (h : writeAll viewer env entries = (.ok (), direct))
    (hcheck : env.checkWrite viewer name (.value v) = .ok (d, v)) :
    writeAll viewer env (insertEntry name v entries) = (.ok (), direct.store viewer d name v) := by
  have hstore : env.write viewer name (.value v) = .ok (env.store viewer d name v) :=
    Environment.write_eq_ok_iff.2 ⟨d, v, hcheck, rfl⟩
  induction entries generalizing env with
  | nil =>
    cases h
    rw [insertEntry, writeAll, hstore]
    rfl
  | cons e rest ih =>
    obtain ⟨k, u⟩ := e
    rw [List.map_cons, List.nodup_cons] at hnodup
    rw [writeAll] at h
    split at h
    · cases h
    · next next hwrite =>
      by_cases hk : k = name
      · -- The new value takes the place of the old one, which the writes behind it do not touch.
        subst hk
        obtain ⟨declared, u', hold, rfl⟩ := Environment.write_eq_ok_iff.1 hwrite
        obtain ⟨hd, -, -, hspeaker⟩ := Environment.checkWrite_eq_ok_iff.1 hcheck
        obtain rfl : d = declared :=
          Option.some.inj (hd.symm.trans (Environment.checkWrite_eq_ok_iff.1 hold).1)
        rw [insertEntry, if_pos rfl, writeAll, hstore]
        have hmoved := writeAll_store (Environment.mem_home_store_self hspeaker k u') hnodup.1 h v
        rwa [Environment.store_store] at hmoved
      · rw [insertEntry, if_neg hk, writeAll, hwrite]
        have hnext : next.checkWrite viewer name (.value v) = .ok (d, v) := by
          rw [← hcheck]
          exact Environment.checkWrite_congr (Environment.write_manifest hwrite) _
        exact ih hnodup.2 h hnext (Environment.write_eq_ok_iff.2 ⟨d, v, hnext, rfl⟩)

/-- The writes of a stage lead from one state to the other. -/
structure Shadows (stage : Stage) (env direct : Environment) : Prop where
  admitted : stage.Admitted env.manifest
  made : writeAll stage.viewer env stage.pending.entries = (.ok (), direct)

theorem shadows_empty (viewer : Option String) (env : Environment) :
    ({ viewer } : Stage).Shadows env env :=
  ⟨admitted_empty viewer env.manifest, rfl⟩

/-- The commit makes the writes, and lists them. -/
theorem Shadows.commit (h : stage.Shadows env direct) :
    stage.commit env = (.ok stage.pending.entries, direct, stage.discard) := by
  rw [Stage.commit, h.made]

/-- What is seen through the stage is what is seen directly. -/
theorem Shadows.same (h : stage.Shadows env direct) :
    direct.manifest = env.manifest ∧ ∀ k, direct.lookup stage.viewer k = stage.lookup env k := by
  obtain ⟨env', hcommit, hmanifest, hlookup⟩ := commit_of_admitted h.admitted
  rw [h.commit, Prod.mk.injEq, Prod.mk.injEq] at hcommit
  obtain ⟨-, rfl, -⟩ := hcommit
  exact ⟨hmanifest, hlookup⟩

/-- A single access is answered alike through the stage and directly, and the writes of the stage
still lead from one state to the other. -/
theorem Shadows.access (h : stage.Shadows env direct) (a : Access) :
    (stage.access env a).1 = (direct.access stage.viewer a).1 ∧
      (stage.access env a).2.viewer = stage.viewer ∧
      (stage.access env a).2.Shadows env (direct.access stage.viewer a).2 := by
  cases a with
  | read name =>
    refine ⟨?_, rfl, h⟩
    rw [Stage.access, Environment.access, h.same.2]
  | write name x =>
    have hcheck : direct.checkWrite stage.viewer name x = env.checkWrite stage.viewer name x :=
      Environment.checkWrite_congr h.same.1 x
    rw [Stage.access, Environment.access, Stage.write, Environment.write, hcheck]
    cases hanswer : env.checkWrite stage.viewer name x with
    | error fault => exact ⟨rfl, rfl, h⟩
    | ok checked =>
      obtain ⟨d, v⟩ := checked
      have hstaged : stage.write env name x =
          .ok { stage with pending := stage.pending.insert name v } :=
        write_eq_ok_iff.2 ⟨d, v, hanswer, rfl⟩
      obtain ⟨-, rfl, -, -⟩ := Environment.checkWrite_eq_ok_iff.1 hanswer
      refine ⟨rfl, rfl, admitted_write h.admitted hstaged, ?_⟩
      exact writeAll_insertEntry stage.pending.nodup h.made hanswer

/-- Any number of accesses are answered alike through the stage and directly. -/
theorem Shadows.accessAll (h : stage.Shadows env direct) (accesses : List Access) :
    (stage.accessAll env accesses).1 = (direct.accessAll stage.viewer accesses).1 ∧
      (stage.accessAll env accesses).2.viewer = stage.viewer ∧
      (stage.accessAll env accesses).2.Shadows env
        (direct.accessAll stage.viewer accesses).2 := by
  induction accesses generalizing stage direct with
  | nil => exact ⟨rfl, rfl, h⟩
  | cons a rest ih =>
    obtain ⟨hanswer, hviewer, hnext⟩ := h.access a
    obtain ⟨hanswers, hviewer', hlast⟩ := ih hnext
    rw [hviewer] at hanswers hviewer' hlast
    exact ⟨List.cons_eq_cons.2 ⟨hanswer, hanswers⟩, hviewer', hlast⟩

/-- A stage holds what it was answered to have written, in the order of the answers. -/
theorem accessAll_pending (stage : Stage) (env : Environment) (accesses : List Access) :
    (stage.accessAll env accesses).2.pending =
      ((accesses.zip (stage.accessAll env accesses).1).filterMap Access.made?).foldl
        (fun m e => m.insert e.1 e.2) stage.pending := by
  induction accesses generalizing stage with
  | nil => rfl
  | cons a rest ih =>
    have hrest := ih (stage.access env a).2
    -- The first access stages what it is answered to have written, or leaves the stage alone.
    have hfirst : (stage.access env a).2.pending =
        (Access.made? (a, (stage.access env a).1)).elim stage.pending
          (fun e => stage.pending.insert e.1 e.2) := by
      cases a with
      | read name => rfl
      | write name x =>
        rw [Stage.access]
        cases hstaged : stage.write env name x with
        | error fault => cases x <;> rfl
        | ok after =>
          obtain ⟨d, v, hcheck, rfl⟩ := write_eq_ok_iff.1 hstaged
          obtain ⟨-, rfl, -, -⟩ := Environment.checkWrite_eq_ok_iff.1 hcheck
          rfl
    show ((stage.access env a).2.accessAll env rest).2.pending =
      (((a, (stage.access env a).1) ::
        rest.zip ((stage.access env a).2.accessAll env rest).1).filterMap Access.made?).foldl _ _
    rw [hrest, hfirst, List.filterMap_cons]
    cases Access.made? (a, (stage.access env a).1) <;> rfl

/-- A stage refines direct writes. Whatever is written and looked up through it, in whatever order, is
answered as if every write were made at once. The commit then is not refused and leaves the very
state that the direct writes leave, and it lists each written name once, in the order in which the
names were first written, with the value that was written to it last. -/
theorem accessAll_commit (env : Environment) (viewer : Option String) (accesses : List Access) :
    let (answers, stage) := Stage.accessAll env { viewer } accesses
    let (directAnswers, direct) := env.accessAll viewer accesses
    let done := (accesses.zip answers).filterMap Access.made?
    answers = directAnswers ∧ ∃ written,
      stage.commit env = (.ok written, direct, { viewer }) ∧
      written.map Prod.fst = (done.map Prod.fst).eraseDups ∧
      ∀ name, written.lookup name = done.reverse.lookup name := by
  obtain ⟨hanswers, hviewer, hlast⟩ := (shadows_empty viewer env).accessAll accesses
  have hpending : (Stage.accessAll env { viewer } accesses).2.pending =
      .ofList ((accesses.zip (Stage.accessAll env { viewer } accesses).1).filterMap Access.made?) :=
    accessAll_pending { viewer } env accesses
  refine ⟨hanswers, (Stage.accessAll env { viewer } accesses).2.pending.entries, ?_, ?_, ?_⟩
  · rw [hlast.commit, discard, hviewer]
  · rw [hpending]
    exact OrderedMap.keys_ofList _
  · intro name
    rw [hpending]
    exact OrderedMap.get?_ofList _ name

end Stage

end Parley
