import Parley.Proofs.Talk.Receipts
import Parley.Proofs.Talk.Writers

/-!
# Speakers Are Isolated

Quest state has one entry of variables for each speaker that has any. A conversation with one speaker
leaves the entries of all others alone, however it ends, and the entry of the speaker itself comes into
being only by a commit that writes to it. We prove:

* `Environment.write_speaker` and `Stage.commit_speakers`: a write touches one entry at most, and writes
  to global variables touch none;
* `Parties.commit_entry`: a commit that changes the entry of its speaker has staged a variable of
  speakers, writes it and tells so;
* `Session.run_isolated`: what this amounts to for all runs of all sessions.
-/

namespace Parley

open Relation

/-! ## What writes leave alone -/

namespace Environment

variable {env env' : Environment} {viewer : Option String} {name npc : String}

/-- A write touches no entry but the one of the speaker in whose name it is made. -/
theorem write_speaker {x : Stored} (h : env.write viewer name x = .ok env')
    (hviewer : viewer ≠ some npc) : env'.speakers.get? npc = env.speakers.get? npc := by
  obtain ⟨d, v, -, rfl⟩ := write_eq_ok_iff.1 h
  unfold store
  split
  · rfl
  · next writer _ =>
    have hne : npc ≠ writer := fun hsame => hviewer (congrArg some hsame.symm)
    rw [OrderedMap.get?_insert, if_neg hne]
  · rfl

/-- Writes of others leave the entry of a speaker alone. -/
theorem WrittenBy.speaker {who : Option String → Prop} (h : env.WrittenBy who env')
    (hwho : ¬ who (some npc)) : env'.speakers.get? npc = env.speakers.get? npc := by
  induction h with
  | refl => rfl
  | tail _ hstep ih =>
    obtain ⟨viewer, name, x, hviewer, hwrite⟩ := hstep
    have hne : viewer ≠ some npc := fun hsame => hwho (hsame ▸ hviewer)
    exact (write_speaker hwrite hne).trans ih

/-- A write to a global variable touches no speaker. -/
theorem write_speakers {x : Stored} {d : Declaration} (h : env.write viewer name x = .ok env')
    (hd : env.manifest.get? name = some d) (hscope : d.scope = .global) :
    env'.speakers = env.speakers := by
  obtain ⟨declared, v, hcheck, rfl⟩ := write_eq_ok_iff.1 h
  obtain ⟨hdeclared, -⟩ := checkWrite_eq_ok_iff.1 hcheck
  obtain rfl : d = declared := Option.some.inj (hd.symm.trans hdeclared)
  simp only [store, hscope]

/-- What a speaker sees of the variables of speakers depends on its own entry. -/
theorem lookup_of_speaker {d : Declaration} (hmanifest : env'.manifest = env.manifest)
    (hentry : env'.speakers.get? npc = env.speakers.get? npc)
    (hd : env.manifest.get? name = some d) (hscope : d.scope = .speaker) :
    env'.lookup (some npc) name = env.lookup (some npc) name := by
  simp only [lookup, hmanifest, hd, hscope, speakerVariables, hentry]

/-- The entry of a speaker holds a value for a variable. -/
def Holds (env : Environment) (npc name : String) (v : Value) : Prop :=
  ∃ own : Variables, env.speakers.get? npc = some own ∧ own.get? name = some (.value v)

/-- A write to a variable of speakers puts the value into the entry of the speaker. -/
theorem holds_of_write {d : Declaration} {v : Value}
    (h : env.write (some npc) name (.value v) = .ok env')
    (hd : env.manifest.get? name = some d) (hscope : d.scope = .speaker) :
    env'.Holds npc name v := by
  obtain ⟨declared, u, hcheck, rfl⟩ := write_eq_ok_iff.1 h
  obtain ⟨hdeclared, hu, -⟩ := checkWrite_eq_ok_iff.1 hcheck
  obtain rfl : d = declared := Option.some.inj (hd.symm.trans hdeclared)
  obtain rfl : v = u := Stored.value.inj hu
  refine ⟨(env.speakerVariables npc).insert name (.value v), ?_, ?_⟩
  · simp only [store, hscope, OrderedMap.get?_insert, if_true]
  · rw [OrderedMap.get?_insert, if_pos rfl]

/-- It stays there as long as other variables are written. -/
theorem Holds.write {v : Value} {k : String} {x : Stored} (h : env.Holds npc name v)
    (hwrite : env.write viewer k x = .ok env') (hk : name ≠ k) : env'.Holds npc name v := by
  obtain ⟨own, hown, hv⟩ := h
  obtain ⟨d, u, -, rfl⟩ := write_eq_ok_iff.1 hwrite
  unfold store
  split
  · exact ⟨own, hown, hv⟩
  · next writer _ =>
    by_cases hwriter : npc = writer
    · subst hwriter
      refine ⟨own.insert k (.value u), ?_, ?_⟩
      · simp only [OrderedMap.get?_insert, if_true, speakerVariables, hown, Option.getD_some]
      · rwa [OrderedMap.get?_insert, if_neg hk]
    · refine ⟨own, ?_, hv⟩
      rwa [OrderedMap.get?_insert, if_neg hwriter]
  · exact ⟨own, hown, hv⟩

end Environment

namespace Stage

variable {stage : Stage} {env : Environment}

/-- Writes to global variables touch no speaker. -/
theorem writeAll_speakers (viewer : Option String) {entries : List (String × Value)}
    (h : ∀ e ∈ entries, ∃ d, env.manifest.get? e.1 = some d ∧ d.scope = .global) :
    (writeAll viewer env entries).2.speakers = env.speakers := by
  induction entries generalizing env with
  | nil => rfl
  | cons e rest ih =>
    obtain ⟨d, hd, hscope⟩ := h e List.mem_cons_self
    rw [writeAll]
    split
    · rfl
    · next next hwrite =>
      have hnext : ∀ e' ∈ rest, ∃ d, next.manifest.get? e'.1 = some d ∧ d.scope = .global := by
        intro e' he'
        rw [Environment.write_manifest hwrite]
        exact h e' (List.mem_cons_of_mem e he')
      exact (ih hnext).trans (Environment.write_speakers hwrite hd hscope)

/-- The commit of a stage that holds global variables only touches no speaker. -/
theorem commit_speakers
    (h : ∀ name v, stage.pending.get? name = some v →
      ∃ d, env.manifest.get? name = some d ∧ d.scope = .global) :
    (stage.commit env).2.1.speakers = env.speakers := by
  have hglobal : ∀ e ∈ stage.pending.entries,
      ∃ d, env.manifest.get? e.1 = some d ∧ d.scope = .global :=
    fun e he => h e.1 e.2 (OrderedMap.get?_eq_some_iff.2 he)
  have hall := writeAll_speakers stage.viewer hglobal
  rw [commit]
  split
  · next hwrites => rwa [hwrites] at hall
  · next hwrites => rwa [hwrites] at hall

/-- Values stay where later writes with other names do not reach. -/
theorem holds_writeAll {viewer : Option String} {npc name : String} {v : Value}
    {entries : List (String × Value)} (h : env.Holds npc name v)
    (hname : name ∉ entries.map Prod.fst) : (writeAll viewer env entries).2.Holds npc name v := by
  induction entries generalizing env with
  | nil => exact h
  | cons e rest ih =>
    rw [List.map_cons, List.mem_cons, not_or] at hname
    rw [writeAll]
    split
    · exact h
    · next hwrite => exact ih (h.write hwrite hname.1) hname.2

/-- Admitted writes to variables of speakers reach the entry of the speaker who writes. -/
theorem writeAll_holds {npc name : String} {v : Value} {d : Declaration}
    {entries : List (String × Value)} (hnodup : (entries.map Prod.fst).Nodup)
    (hadmits : ∀ e ∈ entries, env.manifest.Admits (some npc) e.1 e.2)
    (hmem : (name, v) ∈ entries) (hd : env.manifest.get? name = some d)
    (hscope : d.scope = .speaker) : (writeAll (some npc) env entries).2.Holds npc name v := by
  induction entries generalizing env with
  | nil => cases hmem
  | cons e rest ih =>
    rw [List.map_cons, List.nodup_cons] at hnodup
    obtain ⟨next, hnext⟩ := Environment.exists_write_iff.2 (hadmits e List.mem_cons_self)
    have hmanifest := Environment.write_manifest hnext
    rw [writeAll, hnext]
    rcases List.mem_cons.1 hmem with rfl | hrest
    · -- the names of a stage are distinct, so that no later write replaces this one
      exact holds_writeAll (Environment.holds_of_write hnext hd hscope) hnodup.1
    · refine ih hnodup.2 (fun e' he' => ?_) hrest (hmanifest ▸ hd)
      rw [hmanifest]
      exact hadmits e' (List.mem_cons_of_mem e he')

/-- After its commit, an admitted stage of a speaker has all its variables of speakers in the
speaker's entry. -/
theorem commit_holds {npc name : String} {v : Value} {d : Declaration}
    (hadmitted : stage.Admitted env.manifest) (hviewer : stage.viewer = some npc)
    (hstaged : stage.pending.get? name = some v) (hd : env.manifest.get? name = some d)
    (hscope : d.scope = .speaker) : (stage.commit env).2.1.Holds npc name v := by
  have hadmits : ∀ e ∈ stage.pending.entries, env.manifest.Admits (some npc) e.1 e.2 :=
    fun e he => hviewer ▸ hadmitted e.1 e.2 (OrderedMap.get?_eq_some_iff.2 he)
  have hall := writeAll_holds stage.pending.nodup hadmits
    (OrderedMap.get?_eq_some_iff.1 hstaged) hd hscope
  rw [commit, hviewer]
  split
  · next hwrites => rwa [hwrites] at hall
  · next hwrites => rwa [hwrites] at hall

end Stage

/-! ## Commits -/

/-- A payment is made in nobody's name, so that it touches no speaker. -/
theorem Parties.Pays.speaker {p : Parties} {total : Nat} {before : World} {charged : Environment}
    (h : p.Pays total before charged) (npc : String) :
    charged.speakers.get? npc = before.env.speakers.get? npc := by
  unfold Parties.Pays at h
  split at h
  · rw [h]
  · obtain ⟨economy, -, -, rfl⟩ := h
    exact (economy.spend_writtenBy before.env p.player total).speaker (by simp)

/-- The commit of a turn writes a value to the entry of a speaker, which the turn has staged for a
variable of speakers. -/
structure Cast.SetsOwn (c : Cast) (npc : String) (before : Scene) (turn : Turn) (name : String)
    (v : Value) : Prop where
  yields : c.Yields before.env turn
  declared : ∃ d, before.env.manifest.get? name = some d ∧ d.scope = .speaker
  staged : turn.stage.pending.get? name = some v
  paid : (c.parties.commit turn before).1 ≠ .ok .refused
  entry : (c.parties.commit turn before).2.2.env.Holds npc name v
  /-- The write is told of, if anything is. -/
  told : c.parties.publishes = true → ∃ events,
    (c.parties.commit turn before).2.2.events = before.events ++ events ∧
      ⟨some npc, .variableSet name v⟩ ∈ events

namespace Cast

variable {c : Cast} {a b : Scene} {npc : String}

/-- What a turn stages is admitted by the declarations. -/
theorem Yields.admitted {env : Environment} {turn : Turn} (h : c.Yields env turn) :
    turn.stage.Admitted env.manifest := by
  obtain ⟨body, -, dice, w, hrun⟩ := h
  exact (Walk.run_admitted hrun).2

/-- A commit that changes the entry of its speaker sets one of the speaker's variables. -/
theorem commit_entry {turn : Turn} (hnpc : c.parties.npc = some npc) (h : c.Yields a.env turn)
    (hne : (c.parties.commit turn a).2.2.env.speakers.get? npc ≠ a.env.speakers.get? npc) :
    ∃ name v, c.SetsOwn npc a turn name v := by
  have hends := c.parties.commit_ends turn a
  -- only a turn that is applied can have changed anything
  obtain ⟨charged, hpays, hmanifest, happlies⟩ : ∃ charged,
      c.parties.Pays turn.spendTotal a.world charged ∧ charged.manifest = a.env.manifest ∧
      c.parties.Applies turn charged (a.events ++ c.parties.news turn.toll)
        (c.parties.commit turn a).1 (c.parties.commit turn a).2.2 := by
    generalize (c.parties.commit turn a).1 = answer at hends ⊢
    cases hends with
    | failed _ _ hkept => exact absurd (congrArg (·.speakers.get? npc) hkept.env) hne
    | refused _ hkept => exact absurd (congrArg (·.speakers.get? npc) hkept.env) hne
    | applied charged hpays hmanifest happlies => exact ⟨charged, hpays, hmanifest, happlies⟩
  have hadmitted : turn.stage.Admitted charged.manifest := hmanifest ▸ h.admitted
  have hviewer : turn.stage.viewer = some npc := h.viewer.trans hnpc
  by_cases hown : ∃ name v d, turn.stage.pending.get? name = some v ∧
      charged.manifest.get? name = some d ∧ d.scope = .speaker
  · obtain ⟨name, v, d, hstaged, hd, hscope⟩ := hown
    obtain ⟨env', hcommit, -, -⟩ := Stage.commit_of_admitted hadmitted
    obtain ⟨written, items, hwritten, -, hevents⟩ := happlies.events
    refine ⟨name, v, h, ⟨d, hmanifest ▸ hd, hscope⟩, hstaged, happlies.answer, ?_, ?_⟩
    · rw [happlies.env]
      exact Stage.commit_holds hadmitted hviewer hstaged hd hscope
    · intro hpublishes
      have htold : Happening.variableSet name v ∈ told written := by
        rw [hwritten _ (by rw [hcommit])]
        exact List.mem_map.2 ⟨(name, v), OrderedMap.get?_eq_some_iff.1 hstaged, rfl⟩
      have hnews : ⟨some npc, .variableSet name v⟩ ∈ c.parties.news (told written) := by
        rw [Parties.news, if_pos hpublishes, hnpc]
        exact List.mem_map_of_mem htold
      rw [List.append_assoc, List.append_assoc] at hevents
      exact ⟨_, hevents, List.mem_append_right _ (List.mem_append_left _ hnews)⟩
  · -- all its variables are global, so that the entry is as before
    have hglobal : ∀ name v, turn.stage.pending.get? name = some v →
        ∃ d, charged.manifest.get? name = some d ∧ d.scope = .global := by
      intro name v hv
      obtain ⟨d, hd, -⟩ := hadmitted name v hv
      cases hscope : d.scope with
      | global => exact ⟨d, hd, hscope⟩
      | speaker => exact absurd ⟨name, v, d, hv, hd, hscope⟩ hown
    rw [happlies.env, Stage.commit_speakers hglobal] at hne
    exact absurd (hpays.speaker npc) hne

/-- What was told before a step stays told. -/
theorem Step.events (h : c.Step a b) : ∃ events, b.events = a.events ++ events := by
  cases h with
  | note => exact ⟨[], (List.append_nil _).symm⟩
  | tell what => exact ⟨[⟨c.parties.npc, what⟩], rfl⟩
  | commit turn => exact c.parties.commit_events turn a
  | write => exact ⟨[], (List.append_nil _).symm⟩

/-- Nothing else that happens changes the entry of the speaker, if the presenter does not write. -/
theorem Step.entry (h : c.Step a b) (hquiet : c.writes = []) (hnpc : c.parties.npc = some npc)
    (hne : b.env.speakers.get? npc ≠ a.env.speakers.get? npc) :
    ∃ turn name v, c.SetsOwn npc a turn name v ∧ b = (c.parties.commit turn a).2.2 := by
  cases h with
  | note => exact absurd rfl hne
  | tell => exact absurd rfl hne
  | commit turn hyields =>
    obtain ⟨name, v, hsets⟩ := commit_entry hnpc hyields hne
    exact ⟨turn, name, v, hsets, rfl⟩
  | write =>
    rw [hquiet] at hne
    exact absurd rfl hne

/-- What was told before stays told. -/
theorem steps_events (h : ReflTransGen c.Step a b) : ∃ events, b.events = a.events ++ events := by
  induction h with
  | refl => exact ⟨[], by simp⟩
  | tail _ hstep ih =>
    obtain ⟨earlier, hearlier⟩ := ih
    obtain ⟨later, hlater⟩ := hstep.events
    exact ⟨earlier ++ later, by rw [hlater, hearlier, List.append_assoc]⟩

/-- If something is another than before after a sequence of steps, one of them changed it. -/
theorem exists_step_of_ne {α : Type} (f : Scene → α) (h : ReflTransGen c.Step a b)
    (hne : f b ≠ f a) :
    ∃ x y, ReflTransGen c.Step a x ∧ c.Step x y ∧ ReflTransGen c.Step y b ∧ f y ≠ f x := by
  induction h with
  | refl => exact absurd rfl hne
  | @tail x y hax hxy ih =>
    by_cases hsame : f y = f x
    · rw [hsame] at hne
      obtain ⟨u, v, hau, huv, hvx, hdiffers⟩ := ih hne
      exact ⟨u, v, hau, huv, hvx.tail hxy, hdiffers⟩
    · exact ⟨x, y, hax, hxy, .refl, hsame⟩

end Cast

/-! ## Sessions -/

namespace Session

/-- Speakers are isolated. However a session goes and ends, the entry of every other speaker is what it
was, and so is all that the other speaker sees of the variables of speakers. If the speaker's own entry
is another one than before, or is new, then the session has committed a turn that staged a variable of
speakers, whose value came into the entry on the way; and if commits make events known, the write is
among the events of the session. -/
theorem run_isolated (s : Session) (hquiet : s.presenter.writes = []) :
    (∀ npc, npc ≠ s.speaker.id →
      s.run.2.scene.env.speakers.get? npc = s.scene.env.speakers.get? npc ∧
      ∀ name d, s.scene.env.manifest.get? name = some d → d.scope = .speaker →
        s.run.2.scene.env.lookup (some npc) name = s.scene.env.lookup (some npc) name) ∧
    (s.run.2.scene.env.speakers.get? s.speaker.id ≠ s.scene.env.speakers.get? s.speaker.id →
      ∃ before turn name v, ReflTransGen s.cast.Step s.scene before ∧
        s.cast.SetsOwn s.speaker.id before turn name v ∧
        ReflTransGen s.cast.Step (s.parties.commit turn before).2.2 s.run.2.scene ∧
        (s.commitsPublish = true → ∃ events, s.run.2.scene.events = s.scene.events ++ events ∧
          ⟨some s.speaker.id, .variableSet name v⟩ ∈ events)) := by
  have hwritten := s.run_writtenBy
  constructor
  · intro npc hnpc
    have hother : ¬ s.Writer (some npc) := by
      rintro (hnobody | hspeaker | ⟨w, hw, -⟩)
      · cases hnobody
      · exact hnpc (Option.some.inj hspeaker)
      · rw [hquiet] at hw
        cases hw
    have hentry := hwritten.speaker hother
    refine ⟨hentry, fun name d hd hscope => ?_⟩
    exact Environment.lookup_of_speaker hwritten.manifest hentry hd hscope
  · intro hne
    obtain ⟨before, after, hbefore, hstep, hafter, hdiffers⟩ :=
      Cast.exists_step_of_ne (fun scene => scene.env.speakers.get? s.speaker.id)
        s.run_reaches.steps hne
    obtain ⟨turn, name, v, hsets, rfl⟩ := hstep.entry hquiet rfl hdiffers
    refine ⟨before, turn, name, v, hbefore, hsets, hafter, fun hpublishes => ?_⟩
    -- what the commit tells stands between what was told before and after it
    obtain ⟨earlier, hearlier⟩ := Cast.steps_events hbefore
    obtain ⟨news, hnews, hmem⟩ := hsets.told hpublishes
    obtain ⟨later, hlater⟩ := Cast.steps_events hafter
    refine ⟨earlier ++ news ++ later, ?_, ?_⟩
    · rw [hlater, show (s.cast.parties.commit turn before).2.2.events = _ from hnews, hearlier]
      simp only [List.append_assoc]
    · exact List.mem_append_left _ (List.mem_append_right _ hmem)

/-- Holt, who has met nobody, meets the player, whom only Bela has met before. -/
def introduction : Session :=
  .start { archetype := "smith", body := [.assign "MET" (.literal (.bool true))] }
    { id := "holt", archetype := "smith" } none {} {} { source := .scripted [] }
    { env :=
        { manifest := Manifest.empty.declare (.make "MET" .speaker .bool)
          speakers := OrderedMap.empty.insert "bela"
            (OrderedMap.empty.insert "MET" (.value (.bool false))) }
      economy := none }

/-- Holt comes to have an entry, by a commit, and Bela's stays as it was. -/
theorem run_isolated_of_introduction :
    introduction.presenter.writes = [] ∧
    introduction.run.2.scene.env.speakers.get? "bela" =
      introduction.scene.env.speakers.get? "bela" ∧
    introduction.scene.env.speakers.get? "holt" = none ∧
    introduction.run.2.scene.env.speakers.get? "holt" ≠ none ∧
    ∃ before turn name v, introduction.cast.SetsOwn "holt" before turn name v := by
  have hnew : introduction.scene.env.speakers.get? "holt" = none := rfl
  have hentered : (introduction.run.2.scene.env.speakers.get? "holt").isSome = true := by
    decide +kernel
  have hholt : introduction.run.2.scene.env.speakers.get? "holt" ≠ none :=
    Option.isSome_iff_ne_none.1 hentered
  obtain ⟨hothers, hown⟩ := run_isolated introduction rfl
  obtain ⟨before, turn, name, v, -, hsets, -⟩ := hown (hnew ▸ hholt)
  exact ⟨rfl, (hothers "bela" (by decide)).1, hnew, hholt, before, turn, name, v, hsets⟩

end Session

end Parley
