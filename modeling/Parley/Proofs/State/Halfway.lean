import Parley.Proofs.State.Refinement

/-!
# Commits Refused Halfway

A write is checked when it is staged and again when it is committed, and in between the variable may
have been declared anew. The writes of a stage are then made one after the other up to the first that
the declarations no longer admit. We say when a commit is refused, at which write, and what it has
changed by then.

## Main definitions

* `Environment.declareAll`: quest state with variables declared anew;
* `Environment.InPlace`: a value is stored where a write would put it.

## Main results

* `Stage.writeAll_cases`: writes are all made, or made up to the first that is not admitted;
* `Stage.writeAll_eq_self_iff`: writes that are made change nothing exactly if their values are in
  place already;
* `Stage.failed_commit_keeps_iff`: a commit is refused exactly if a staged variable was declared anew
  in a way that does not admit its value. The stage then stays as it was, and quest state does so
  exactly if all values ahead of the refused one are in place already.
-/

namespace Parley

variable {viewer : Option String} {name : String}

/-! ## Variables declared anew -/

/-- A declaration lets a viewer write a value. -/
def Declaration.Admits (d : Declaration) (viewer : Option String) (v : Value) : Prop :=
  v.type = d.type ∧ (d.scope = .speaker → viewer ≠ none)

/-- The last declaration of a variable. -/
def Declaration.last? (ds : List Declaration) (name : String) : Option Declaration :=
  ds.reverse.find? fun d => d.name == name

/-- Quest state with variables declared anew, one after the other. -/
def Environment.declareAll (env : Environment) (ds : List Declaration) : Environment :=
  { env with manifest := ds.foldl Manifest.declare env.manifest }

namespace Manifest

theorem get?_declare (m : Manifest) (d : Declaration) (name : String) :
    (m.declare d).get? name = if name = d.name then some d else m.get? name :=
  OrderedMap.get?_insert m.declarations d.name name d

/-- The last declaration of a variable counts. -/
theorem get?_foldl_declare (m : Manifest) (ds : List Declaration) (name : String) :
    (ds.foldl declare m).get? name = (Declaration.last? ds name).or (m.get? name) := by
  induction ds generalizing m with
  | nil => rfl
  | cons d rest ih =>
    rw [List.foldl_cons, ih, get?_declare, Declaration.last?, Declaration.last?, List.reverse_cons,
      List.find?_append, Option.or_assoc]
    congr 1
    by_cases hname : name = d.name
    · simp [hname]
    · simp [hname, Ne.symm hname]

end Manifest

/-! ## Values in place -/

namespace Environment

variable {env : Environment} {d e : Declaration} {v : Value}

/-- A value is stored where a write to the variable would put it. -/
def InPlace (env : Environment) (viewer : Option String) (name : String) (v : Value) : Prop :=
  ∃ d, env.manifest.get? name = some d ∧ (env.home viewer d).get? name = some (.value v)

/-- A write of what is in place changes nothing. -/
theorem store_eq_self (h : (env.home viewer d).get? name = some (.value v)) :
    env.store viewer d name v = env := by
  cases hd : d.scope with
  | global =>
    simp only [home, hd] at h
    simp only [store, hd, OrderedMap.insert_self h]
  | speaker =>
    cases viewer with
    | none => simp only [store, hd]
    | some npc =>
      simp only [home, hd] at h
      -- The speaker has an entry, or else nothing would be found in it.
      have hown : env.speakers.get? npc = some (env.speakerVariables npc) := by
        rw [speakerVariables] at h ⊢
        cases hentry : env.speakers.get? npc with
        | none =>
          rw [hentry] at h
          cases h
        | some own => rfl
      simp only [store, hd, OrderedMap.insert_self h, OrderedMap.insert_self hown]

/-- A stored value is found where the next write to its variable would go, and all other variables
are found as before. -/
theorem get?_home_store {k : String} (hd : env.manifest.get? name = some d)
    (he : env.manifest.get? k = some e) (hspeaker : e.scope = .speaker → viewer ≠ none) (v : Value) :
    ((env.store viewer e k v).home viewer d).get? name =
      if name = k then some (.value v) else (env.home viewer d).get? name := by
  by_cases hname : name = k
  · subst hname
    obtain rfl : d = e := Option.some.inj (hd.symm.trans he)
    cases hscope : d.scope with
    | global => simp only [home, store, hscope, OrderedMap.get?_insert, if_true]
    | speaker =>
      cases viewer with
      | none => exact absurd rfl (hspeaker hscope)
      | some npc =>
        simp only [home, store, hscope, speakerVariables_insert, OrderedMap.get?_insert, if_true]
  · -- Another variable of the same owner keeps its own entry.
    rw [if_neg hname]
    cases hscope : e.scope <;> cases hscope' : d.scope <;> cases viewer <;>
      simp [home, store, hscope, hscope', OrderedMap.get?_insert, hname, speakerVariables]

/-- The refusal of a script value names the variable. -/
theorem checkWrite_value_error {fault : Fault}
    (h : env.checkWrite viewer name (.value v) = .error fault) :
    ∃ cause, fault = .scope ⟨name, cause⟩ := by
  rw [checkWrite] at h
  split at h
  · exact ⟨_, (Except.error.inj h).symm⟩
  · dsimp only at h
    split at h
    · exact ⟨_, (Except.error.inj h).symm⟩
    · split at h
      · exact ⟨_, (Except.error.inj h).symm⟩
      · cases h

/-- A write that is not admitted is refused, and for no other reason. -/
theorem checkWrite_error_iff :
    (∃ fault, env.checkWrite viewer name (.value v) = .error fault) ↔
      ¬ env.manifest.Admits viewer name v := by
  rw [← exists_write_iff, write]
  cases env.checkWrite viewer name (.value v) with
  | error fault => simp
  | ok checked => simp

end Environment

/-! ## Writes in order -/

namespace Stage

variable {env env' : Environment} {d : Declaration} {entries : List (String × Value)} {fault : Fault}

/-- Writes are all made, or made up to the first that is not admitted. -/
theorem writeAll_cases (viewer : Option String) (env : Environment)
    (entries : List (String × Value)) :
    (∃ env', writeAll viewer env entries = (.ok (), env') ∧
        ∀ e ∈ entries, env.manifest.Admits viewer e.1 e.2) ∨
      ∃ before e after fault env', entries = before ++ e :: after ∧
        env.checkWrite viewer e.1 (.value e.2) = .error fault ∧
        writeAll viewer env before = (.ok (), env') ∧
        writeAll viewer env entries = (.error fault, env') := by
  induction entries generalizing env with
  | nil => exact .inl ⟨env, rfl, nofun⟩
  | cons e rest ih =>
    obtain ⟨name, v⟩ := e
    cases hcheck : env.checkWrite viewer name (.value v) with
    | error fault =>
      refine .inr ⟨[], (name, v), rest, fault, env, rfl, hcheck, rfl, ?_⟩
      simp only [writeAll, Environment.write, hcheck]
    | ok checked =>
      obtain ⟨d, u⟩ := checked
      have hwrite : env.write viewer name (.value v) = .ok (env.store viewer d name u) :=
        Environment.write_eq_ok_iff.2 ⟨d, u, hcheck, rfl⟩
      have hadmits := Environment.exists_write_iff.1 ⟨_, hwrite⟩
      -- The first write leaves the declarations alone, so the others are checked as before.
      have hmanifest := Environment.write_manifest hwrite
      rcases ih (env.store viewer d name u) with
        ⟨env', hall, hrest⟩ | ⟨before, e, after, fault, env', rfl, hrefused, hmade, hall⟩
      · refine .inl ⟨env', by rw [writeAll, hwrite]; exact hall, ?_⟩
        rw [hmanifest] at hrest
        exact List.forall_mem_cons.2 ⟨hadmits, hrest⟩
      · rw [Environment.checkWrite_congr hmanifest] at hrefused
        refine .inr ⟨(name, v) :: before, e, after, fault, env', rfl, hrefused, ?_, ?_⟩
        · rw [writeAll, hwrite]
          exact hmade
        · rw [writeAll, hwrite]
          exact hall

/-- After writes that were made, a variable holds what was written to it, or else what it held
before. -/
theorem get?_home_writeAll (hnodup : (entries.map Prod.fst).Nodup)
    (h : writeAll viewer env entries = (.ok (), env')) (hd : env.manifest.get? name = some d) :
    (env'.home viewer d).get? name =
      ((entries.lookup name).map Stored.value).or ((env.home viewer d).get? name) := by
  induction entries generalizing env with
  | nil =>
    cases h
    rfl
  | cons e rest ih =>
    obtain ⟨k, w⟩ := e
    rw [List.map_cons, List.nodup_cons] at hnodup
    rw [writeAll] at h
    split at h
    · cases h
    · next next hwrite =>
      have hmanifest := Environment.write_manifest hwrite
      obtain ⟨declared, u, hcheck, rfl⟩ := Environment.write_eq_ok_iff.1 hwrite
      obtain ⟨he, hu, -, hspeaker⟩ := Environment.checkWrite_eq_ok_iff.1 hcheck
      cases hu
      rw [ih hnodup.2 h (by rw [hmanifest, hd]), Environment.get?_home_store hd he hspeaker,
        OrderedMap.lookup_entry]
      -- No later write has the name of the first one.
      by_cases hname : name = k
      · have hnone : rest.lookup name = none :=
          OrderedMap.lookup_eq_none_of_notMem (hname ▸ hnodup.1)
        rw [hnone, if_pos hname, if_pos hname]
        rfl
      · rw [if_neg hname, if_neg hname]

/-- Writes of what is in place change nothing. -/
theorem writeAll_of_inPlace (h : writeAll viewer env entries = (.ok (), env'))
    (hplace : ∀ e ∈ entries, env.InPlace viewer e.1 e.2) : env' = env := by
  induction entries generalizing env with
  | nil =>
    cases h
    rfl
  | cons e rest ih =>
    obtain ⟨k, w⟩ := e
    obtain ⟨⟨declared, hdeclared, hhome⟩, hrest⟩ := List.forall_mem_cons.1 hplace
    rw [writeAll] at h
    split at h
    · cases h
    · next next hwrite =>
      obtain ⟨d, u, hcheck, rfl⟩ := Environment.write_eq_ok_iff.1 hwrite
      obtain ⟨hd, hu, -, -⟩ := Environment.checkWrite_eq_ok_iff.1 hcheck
      cases hu
      obtain rfl : declared = d := Option.some.inj (hdeclared.symm.trans hd)
      rw [Environment.store_eq_self hhome] at h
      exact ih h hrest

/-- Writes that are made change nothing exactly if their values are in place already. -/
theorem writeAll_eq_self_iff (hnodup : (entries.map Prod.fst).Nodup)
    (h : writeAll viewer env entries = (.ok (), env')) :
    env' = env ↔ ∀ e ∈ entries, env.InPlace viewer e.1 e.2 := by
  refine ⟨fun hsame e he => ?_, writeAll_of_inPlace h⟩
  obtain ⟨d, hd⟩ : ∃ d, env.manifest.get? e.1 = some d := by
    rcases writeAll_cases viewer env entries with
      ⟨_, -, hadmits⟩ | ⟨_, _, _, _, _, -, -, -, hrefused⟩
    · obtain ⟨d, hd, -⟩ := hadmits e he
      exact ⟨d, hd⟩
    · rw [h] at hrefused
      cases hrefused
  -- The value is in place when all writes have been made, and it is found in the same state.
  have hvalue : entries.lookup e.1 = some e.2 :=
    (OrderedMap.get?_eq_some_iff (m := ⟨entries, hnodup⟩)).2 he
  have hhome := get?_home_writeAll hnodup h hd
  rw [hsame, hvalue] at hhome
  exact ⟨d, hd, hhome⟩

/-! ## Commits -/

variable {stage : Stage}

/-- A commit is refused exactly if some staged write is not admitted any more. -/
theorem commit_error_iff :
    (∃ fault, (stage.commit env).1 = .error fault) ↔ ¬ stage.Admitted env.manifest := by
  constructor
  · rintro ⟨fault, hfault⟩ hadmitted
    obtain ⟨env', hcommit, -⟩ := commit_of_admitted hadmitted
    rw [hcommit] at hfault
    cases hfault
  · intro hrefused
    rw [commit]
    rcases writeAll_cases stage.viewer env stage.pending.entries with
      ⟨env', -, hadmits⟩ | ⟨_, _, _, fault, env', -, -, -, hall⟩
    · exact absurd (fun name v hv => hadmits (name, v) (OrderedMap.get?_eq_some_iff.1 hv)) hrefused
    · rw [hall]
      exact ⟨fault, rfl⟩

/-- What was staged under other declarations is not admitted any more exactly if one of its variables
was declared anew and is not admitted by its last declaration. -/
theorem admitted_declareAll_iff (h : stage.Admitted env.manifest) (ds : List Declaration) :
    stage.Admitted (env.declareAll ds).manifest ↔ ∀ name v d, stage.pending.get? name = some v →
      Declaration.last? ds name = some d → d.Admits stage.viewer v := by
  have hget := Manifest.get?_foldl_declare env.manifest ds
  constructor
  · intro hlater name v d hv hd
    obtain ⟨declared, hdeclared, hadmits⟩ := hlater name v hv
    rw [Environment.declareAll, hget, hd] at hdeclared
    rw [← Option.some.inj hdeclared] at hadmits
    exact hadmits
  · intro hlater name v hv
    cases hd : Declaration.last? ds name with
    | some d => exact ⟨d, by rw [Environment.declareAll, hget, hd]; rfl, hlater name v d hv hd⟩
    | none =>
      -- A variable that was not declared anew is admitted as it was when it was staged.
      obtain ⟨d, hdeclared, hadmits⟩ := h name v hv
      exact ⟨d, by rw [Environment.declareAll, hget, hd, Option.none_or, hdeclared], hadmits⟩

/-- A commit that is refused leaves the stage as it was. It has made the writes ahead of the refused
one, and has changed nothing exactly if their values were in place. -/
theorem commit_refused (h : (stage.commit env).1 = .error fault) :
    (stage.commit env).2.2 = stage ∧ ∃ before e after cause,
      stage.pending.entries = before ++ e :: after ∧ fault = .scope ⟨e.1, cause⟩ ∧
      ¬ env.manifest.Admits stage.viewer e.1 e.2 ∧
      writeAll stage.viewer env before = (.ok (), (stage.commit env).2.1) ∧
      ((stage.commit env).2.1 = env ↔ ∀ w ∈ before, env.InPlace stage.viewer w.1 w.2) := by
  rw [commit] at h ⊢
  rcases writeAll_cases stage.viewer env stage.pending.entries with
    ⟨env', hall, -⟩ | ⟨before, e, after, cause, env', hentries, hrefused, hmade, hall⟩
  · rw [hall] at h
    cases h
  · rw [hall] at h ⊢
    obtain rfl : cause = fault := Except.error.inj h
    obtain ⟨reason, hreason⟩ := Environment.checkWrite_value_error hrefused
    have hnodup : (before.map Prod.fst).Nodup := by
      have hall := stage.pending.nodup
      rw [hentries, List.map_append, List.nodup_append] at hall
      exact hall.1
    exact ⟨rfl, before, e, after, reason, hentries, hreason,
      Environment.checkWrite_error_iff.1 ⟨_, hrefused⟩, hmade, writeAll_eq_self_iff hnodup hmade⟩

/-- Whatever was staged and declared anew since, the commit is refused exactly if some staged
variable was declared anew and its last declaration does not admit the staged value. A refused commit
keeps all staged writes. It is refused at one of them, whose variable it names, after the writes
ahead of that one were made, so that quest state is as it was before exactly if their values were in
place. -/
theorem failed_commit_keeps_iff (env : Environment) (viewer : Option String)
    (accesses : List Access) (ds : List Declaration) :
    let stage := (accessAll env { viewer } accesses).2
    let later := env.declareAll ds
    ((∃ fault, (stage.commit later).1 = .error fault) ↔ ∃ name v d,
        stage.pending.get? name = some v ∧ Declaration.last? ds name = some d ∧
        ¬ d.Admits viewer v) ∧
      ∀ fault, (stage.commit later).1 = .error fault →
        (stage.commit later).2.2 = stage ∧ ∃ before e after cause,
          stage.pending.entries = before ++ e :: after ∧ fault = .scope ⟨e.1, cause⟩ ∧
          ¬ later.manifest.Admits viewer e.1 e.2 ∧
          writeAll viewer later before = (.ok (), (stage.commit later).2.1) ∧
          ((stage.commit later).2.1 = later ↔ ∀ w ∈ before, later.InPlace viewer w.1 w.2) := by
  intro stage later
  obtain ⟨-, hviewer, hshadows⟩ := (shadows_empty viewer env).accessAll accesses
  have hviewer : stage.viewer = viewer := hviewer
  refine ⟨?_, fun fault hfault => ?_⟩
  · rw [commit_error_iff, admitted_declareAll_iff hshadows.admitted ds, hviewer]
    simp only [Classical.not_forall, exists_prop]
    rfl
  · have hrefused := commit_refused hfault
    rwa [hviewer] at hrefused

/-- Quest state with one unit of luck, and a note to be written. -/
def stall : Environment where
  manifest := (Manifest.empty.declare (.make "LUCK" .global .int)).declare (.make "NOTE" .global .str)
  globals := OrderedMap.empty.insert "LUCK" (.value (.int 1))

/-- The same luck is staged once more, and the note is refused: nothing has changed. -/
theorem failed_commit_keeps_iff_of_same_luck :
    let stage := (accessAll stall { viewer := some "mayor" }
      [.write "LUCK" (.value (.int 1)), .write "NOTE" (.value (.str "n"))]).2
    let later := stall.declareAll [.make "NOTE" .global .int]
    (stage.commit later).1 = .error (.scope ⟨"NOTE", .wrongType .int (.str "n")⟩) ∧
      (stage.commit later).2.1 = later := by
  intro stage later
  have hfault : (stage.commit later).1 = .error (.scope ⟨"NOTE", .wrongType .int (.str "n")⟩) := rfl
  refine ⟨hfault, ?_⟩
  obtain ⟨-, hrefused⟩ := failed_commit_keeps_iff stall (some "mayor")
    [.write "LUCK" (.value (.int 1)), .write "NOTE" (.value (.str "n"))] [.make "NOTE" .global .int]
  obtain ⟨-, before, e, after, -, hentries, -, -, -, hkeeps⟩ := hrefused _ hfault
  refine hkeeps.2 ?_
  -- At most the luck is ahead of the refused write, and its value is in place.
  have hpending : stage.pending.entries = [("LUCK", .int 1), ("NOTE", .str "n")] := rfl
  rw [hpending] at hentries
  match before, hentries with
  | [], _ => exact nofun
  | [w], hentries =>
    obtain ⟨rfl, -⟩ := List.cons.inj hentries
    rintro w hw
    obtain rfl := List.mem_singleton.1 hw
    exact ⟨.make "LUCK" .global .int, rfl, rfl⟩
  | _ :: _ :: _, hentries => simp at hentries

/-- Other luck is staged ahead of the refused note, and it stays written. -/
theorem half_committed_of_redeclared :
    let stage := (accessAll stall { viewer := some "mayor" }
      [.write "LUCK" (.value (.int 2)), .write "NOTE" (.value (.str "n"))]).2
    let later := stall.declareAll [.make "NOTE" .global .int]
    (stage.commit later).1 = .error (.scope ⟨"NOTE", .wrongType .int (.str "n")⟩) ∧
      later.globals.get? "LUCK" = some (.value (.int 1)) ∧
      (stage.commit later).2.1.globals.get? "LUCK" = some (.value (.int 2)) :=
  ⟨rfl, rfl, rfl⟩

end Stage

end Parley
