import Parley.Proofs.Talk.Bystander
import Parley.Proofs.Talk.Isolation

/-!
# Independent Conversations Commute

Two conversations with different speakers that keep to the variables of their own speakers can be held
in either order: nobody can tell afterwards which was the first, except that of two speakers who come to
have their first variables that way the one who was met first stands first. We prove:

* `Environment.OnlyEntry`: what it means that nothing but one speaker's entry was changed, which is kept
  by every step of a session that keeps to its speaker (`Session.KeepsToSpeaker`);
* `Environment.withEntry_comm`: entries of two speakers can be put in place in either order;
* `Session.run_commutes`: hence two such sessions commute.
-/

namespace Parley

open Relation

/-- No variable of that name is global. -/
def Manifest.IsOwn (m : Manifest) (name : String) : Prop :=
  ∀ d, m.get? name = some d → d.scope = .speaker

namespace Environment

/-- The state with an entry put in place for a speaker, if there is one. -/
def withEntry (env : Environment) (npc : String) : Option Variables → Environment
  | none => env
  | some own => { env with speakers := env.speakers.insert npc own }

/-- Nothing but the entry of a speaker was changed. -/
def OnlyEntry (npc : String) (a b : Environment) : Prop :=
  b = a.withEntry npc (b.speakers.get? npc)

/-- Two states are the same, but for the order in which two speakers came to have entries. -/
structure SameUpToOrder (npc other : String) (a b : Environment) : Prop where
  manifest : b.manifest = a.manifest
  globals : b.globals = a.globals
  speakers : b.speakers = a.speakers ∨ ∃ known own theirs,
    a.speakers.entries = known ++ [(npc, own), (other, theirs)] ∧
      b.speakers.entries = known ++ [(other, theirs), (npc, own)]

variable {npc other : String} {a b c env : Environment}

theorem onlyEntry_refl (npc : String) (env : Environment) : OnlyEntry npc env env := by
  unfold OnlyEntry
  cases hentry : env.speakers.get? npc with
  | none => rfl
  | some own => rw [withEntry, OrderedMap.insert_self hentry]

/-- A new entry is there to be read. -/
theorem onlyEntry_insert (npc : String) (env : Environment) (own : Variables) :
    OnlyEntry npc env { env with speakers := env.speakers.insert npc own } := by
  unfold OnlyEntry
  dsimp only
  rw [OrderedMap.get?_insert, if_pos rfl]
  rfl

theorem OnlyEntry.trans (hab : OnlyEntry npc a b) (hbc : OnlyEntry npc b c) :
    OnlyEntry npc a c := by
  unfold OnlyEntry at hab hbc
  cases hc : c.speakers.get? npc with
  | none =>
    -- there is no entry in the end, so that there was none at any time
    rw [hc] at hbc
    obtain rfl : c = b := hbc
    exact hab
  | some own =>
    rw [hc] at hbc
    rw [OnlyEntry, hc]
    refine hbc.trans ?_
    cases hb : b.speakers.get? npc with
    | none =>
      rw [hb] at hab
      obtain rfl : b = a := hab
      rfl
    | some earlier =>
      rw [hb] at hab
      rw [hab]
      simp only [withEntry, OrderedMap.insert_insert]

theorem OnlyEntry.manifest (h : OnlyEntry npc a b) : b.manifest = a.manifest := by
  rw [h]
  cases b.speakers.get? npc <;> rfl

theorem OnlyEntry.globals (h : OnlyEntry npc a b) : b.globals = a.globals := by
  rw [h]
  cases b.speakers.get? npc <;> rfl

/-- Another speaker sees no difference. -/
theorem OnlyEntry.sameFor (h : OnlyEntry npc a b) (hne : other ≠ npc) : a.SameFor other b := by
  refine ⟨h.manifest, h.globals, ?_⟩
  rw [h]
  cases b.speakers.get? npc with
  | none => rfl
  | some own => exact (OrderedMap.get?_insert _ _ _ _).trans (if_neg hne)

/-- A speaker's write to a variable that is not global changes nothing but the speaker's entry. -/
theorem onlyEntry_write {name : String} {x : Stored} (h : a.write (some npc) name x = .ok b)
    (hown : a.manifest.IsOwn name) : OnlyEntry npc a b := by
  obtain ⟨d, v, hcheck, rfl⟩ := write_eq_ok_iff.1 h
  have hscope : d.scope = .speaker := hown d (checkWrite_eq_ok_iff.1 hcheck).1
  simp only [store, hscope]
  exact onlyEntry_insert npc a _

/-- So do writes in order, up to the first that is refused. -/
theorem onlyEntry_writeAll {writes : List MenuWrite}
    (hown : ∀ w ∈ writes, w.viewer = some npc ∧ env.manifest.IsOwn w.name) :
    OnlyEntry npc env (Session.writeAll env writes).2 := by
  induction writes generalizing env with
  | nil => exact onlyEntry_refl npc env
  | cons w rest ih =>
    obtain ⟨hviewer, hname⟩ := hown w List.mem_cons_self
    rw [Session.writeAll]
    split
    · exact onlyEntry_refl npc env
    · next next hwrite =>
      rw [hviewer] at hwrite
      have hfirst : OnlyEntry npc env next := onlyEntry_write hwrite hname
      refine hfirst.trans (ih fun w' hw' => ?_)
      rw [hfirst.manifest]
      exact hown w' (List.mem_cons_of_mem w hw')

/-- The commit of a speaker's stage without global variables changes nothing but the speaker's
entry. -/
theorem onlyEntry_commit {stage : Stage} (hviewer : stage.viewer = some npc)
    (hown : ∀ name v, stage.pending.get? name = some v → env.manifest.IsOwn name) :
    OnlyEntry npc env (stage.commit env).2.1 := by
  have hall : OnlyEntry npc env (Stage.writeAll (some npc) env stage.pending.entries).2 := by
    rw [Stage.writeAll_eq]
    refine onlyEntry_writeAll fun w hw => ?_
    obtain ⟨e, he, rfl⟩ := List.mem_map.1 hw
    exact ⟨rfl, hown e.1 e.2 (OrderedMap.get?_eq_some_iff.2 he)⟩
  rw [Stage.commit, hviewer]
  split
  · next hwrites => rwa [hwrites] at hall
  · next hwrites => rwa [hwrites] at hall

/-- Two new names go last, in the order in which they come in. -/
theorem entries_insert_insert {β : Type} {m : OrderedMap β} {k k' : String} (hk : k ∉ m.keys)
    (hk' : k' ∉ m.keys) (hne : k ≠ k') (v v' : β) :
    ((m.insert k v).insert k' v').entries = m.entries ++ [(k, v), (k', v')] := by
  have hfirst : (m.insert k v).entries = m.entries ++ [(k, v)] := insertEntry_of_notMem hk v
  have hnew : k' ∉ (m.insert k v).keys := by
    rw [OrderedMap.keys_insert, if_neg hk, List.mem_append, List.mem_singleton, not_or]
    exact ⟨hk', hne.symm⟩
  calc ((m.insert k v).insert k' v').entries
      = (m.insert k v).entries ++ [(k', v')] := insertEntry_of_notMem hnew v'
    _ = m.entries ++ [(k, v), (k', v')] := by rw [hfirst, List.append_assoc]; rfl

/-- Entries of two speakers can be put in place in either order. -/
theorem withEntry_comm (hne : npc ≠ other) (env : Environment) (own theirs : Option Variables) :
    SameUpToOrder npc other ((env.withEntry npc own).withEntry other theirs)
      ((env.withEntry other theirs).withEntry npc own) := by
  have hsame : ∀ env : Environment, SameUpToOrder npc other env env := fun env =>
    ⟨rfl, rfl, .inl rfl⟩
  cases own with
  | none => exact hsame _
  | some own =>
    cases theirs with
    | none => exact hsame _
    | some theirs =>
      refine ⟨rfl, rfl, ?_⟩
      simp only [withEntry]
      by_cases hnpc : npc ∈ env.speakers.keys
      · exact .inl (OrderedMap.insert_comm_of_mem hnpc hne.symm own theirs)
      · by_cases hother : other ∈ env.speakers.keys
        · exact .inl (OrderedMap.insert_comm_of_mem hother hne theirs own).symm
        · -- both are new, and each goes last when its turn comes
          exact .inr ⟨env.speakers.entries, own, theirs,
            entries_insert_insert hnpc hother hne own theirs,
            entries_insert_insert hother hnpc hne.symm theirs own⟩

end Environment

/-! ## Sessions that keep to their speaker -/

namespace Session

/-- There is no economy, and all that is written is a variable of the speaker's own. -/
structure KeepsToSpeaker (s : Session) : Prop where
  economy : s.scene.economy = none
  script : ∀ name value, .assign name value ∈ s.script.walk → s.scene.env.manifest.IsOwn name
  writes : ∀ w ∈ s.presenter.writes,
    w.viewer = some s.speaker.id ∧ s.scene.env.manifest.IsOwn w.name

variable {s t : Session}

/-- Nothing can be paid without an economy, so that a turn that is applied is applied to quest state
as it is. -/
theorem charged_eq {p : Parties} {total : Nat} {scene : Scene} {charged : Environment}
    (h : p.Pays total scene.world charged) (heconomy : scene.economy = none) :
    charged = scene.env := by
  unfold Parties.Pays at h
  split at h
  · exact h
  · obtain ⟨economy, hsome, -⟩ := h
    rw [show scene.world.economy = none from heconomy] at hsome
    cases hsome

/-- The turns of such a session stage no global variables. -/
theorem KeepsToSpeaker.staged (h : s.KeepsToSpeaker) {env : Environment} {turn : Turn}
    (hyields : s.cast.Yields env turn) {name : String} {v : Value}
    (hstaged : turn.stage.pending.get? name = some v) : s.scene.env.manifest.IsOwn name := by
  obtain ⟨body, hbody, dice, w, hrun⟩ := hyields
  by_cases hassigned : ∃ value, .assign name value ∈ s.script.walk
  · obtain ⟨value, hmem⟩ := hassigned
    exact h.script name value hmem
  · have hnone := Script.pending_of_run hbody hrun (not_exists.1 hassigned)
    rw [hstaged] at hnone
    cases hnone

/-- The commit of such a turn changes nothing but the entry of the speaker. -/
theorem KeepsToSpeaker.commit (h : s.KeepsToSpeaker) {scene : Scene}
    (heconomy : scene.economy = none) (hmanifest : scene.env.manifest = s.scene.env.manifest)
    {turn : Turn} (hyields : s.cast.Yields scene.env turn) :
    scene.env.OnlyEntry s.speaker.id (s.parties.commit turn scene).2.2.env := by
  have hends := s.parties.commit_ends turn scene
  generalize hafter : (s.parties.commit turn scene).2.2 = after at hends ⊢
  generalize (s.parties.commit turn scene).1 = answer at hends
  have hsame : scene.world.Kept after.world → scene.env.OnlyEntry s.speaker.id after.env := by
    intro hkept
    rw [show after.env = scene.env from hkept.env]
    exact Environment.onlyEntry_refl _ _
  cases hends with
  | failed _ _ hkept => exact hsame hkept
  | refused _ hkept => exact hsame hkept
  | applied charged hpays _ happlies =>
    rw [happlies.env, charged_eq hpays heconomy]
    refine Environment.onlyEntry_commit hyields.viewer fun name v hstaged => ?_
    rw [hmanifest]
    exact h.staged hyields hstaged

/-- Whatever happens in such a session, there is still no economy, and nothing but the entry of the
speaker is changed. -/
theorem KeepsToSpeaker.step (h : s.KeepsToSpeaker) {a b : Scene} (hstep : s.cast.Step a b)
    (ha : a.economy = none ∧ s.scene.env.OnlyEntry s.speaker.id a.env) :
    b.economy = none ∧ s.scene.env.OnlyEntry s.speaker.id b.env := by
  obtain ⟨heconomy, hentry⟩ := ha
  cases hstep with
  | note => exact ⟨heconomy, hentry⟩
  | tell => exact ⟨heconomy, hentry⟩
  | commit turn hyields =>
    obtain ⟨requests, hrequests⟩ := s.parties.commit_requested turn a
    refine ⟨?_, hentry.trans (h.commit heconomy hentry.manifest hyields)⟩
    rw [show s.cast.parties = s.parties from rfl, hrequests, heconomy]
    rfl
  | write =>
    refine ⟨heconomy, hentry.trans (Environment.onlyEntry_writeAll fun w hw => ?_)⟩
    rw [hentry.manifest]
    exact h.writes w hw

/-- A session that keeps to its speaker changes nothing but the entry of its speaker. -/
theorem KeepsToSpeaker.run (h : s.KeepsToSpeaker) :
    s.scene.env.OnlyEntry s.speaker.id s.run.2.scene.env := by
  have hsteps := s.run_reaches.steps
  suffices hkept : s.run.2.scene.economy = none ∧
      s.scene.env.OnlyEntry s.speaker.id s.run.2.scene.env from hkept.2
  generalize s.run.2.scene = scene at hsteps ⊢
  induction hsteps with
  | refl => exact ⟨h.economy, Environment.onlyEntry_refl _ _⟩
  | tail _ hstep ih => exact h.step hstep ih

/-! ## Two sessions -/

/-- The session held after another one. -/
def after (t s : Session) : Session :=
  t.over s.run.2.scene.env

/-- A session with another speaker goes as if it were the first. -/
theorem run_after (hne : s.speaker.id ≠ t.speaker.id) (henv : t.scene.env = s.scene.env)
    (hs : s.KeepsToSpeaker) :
    (t.after s).run = (t.run.1, t.run.2.over (t.after s).run.2.scene.env) ∧
      t.run.2.scene.env.SameFor t.speaker.id (t.after s).run.2.scene.env := by
  have hsame : t.scene.env.SameFor t.speaker.id s.run.2.scene.env := by
    rw [henv]
    exact hs.run.sameFor hne.symm
  have hrun : Matches Twin t.run (t.after s).run := (Twin.intro hsame : t.Twin _).run
  have hspeaker : t.run.2.speaker.id = t.speaker.id :=
    Option.some.inj (congrArg (fun c => c.parties.npc) t.run_reaches.cast)
  exact ⟨Prod.ext hrun.answer hrun.left.eq_over, hspeaker ▸ hrun.left.env⟩

/-- A session keeps to its speaker also after another one that does. -/
theorem KeepsToSpeaker.after (ht : t.KeepsToSpeaker) (henv : t.scene.env = s.scene.env)
    (hs : s.KeepsToSpeaker) : (t.after s).KeepsToSpeaker := by
  have hmanifest : s.run.2.scene.env.manifest = t.scene.env.manifest := by
    rw [hs.run.manifest, henv]
  refine ⟨ht.economy, fun name value hmem => ?_, fun w hw => ⟨(ht.writes w hw).1, ?_⟩⟩
  · exact hmanifest ▸ ht.script name value hmem
  · exact hmanifest ▸ (ht.writes w hw).2

/-- What is left after both sessions: the entry that each of them leaves on its own. -/
theorem env_after (hne : s.speaker.id ≠ t.speaker.id) (henv : t.scene.env = s.scene.env)
    (hs : s.KeepsToSpeaker) (ht : t.KeepsToSpeaker) :
    (t.after s).run.2.scene.env =
      (s.scene.env.withEntry s.speaker.id (s.run.2.scene.env.speakers.get? s.speaker.id)).withEntry
        t.speaker.id (t.run.2.scene.env.speakers.get? t.speaker.id) := by
  have hlast := (ht.after henv hs).run
  have hentry := (run_after hne henv hs).2.entry
  calc (t.after s).run.2.scene.env
      = s.run.2.scene.env.withEntry t.speaker.id
          ((t.after s).run.2.scene.env.speakers.get? t.speaker.id) := hlast
    _ = s.run.2.scene.env.withEntry t.speaker.id
          (t.run.2.scene.env.speakers.get? t.speaker.id) := by rw [hentry]
    _ = _ := congrArg (Environment.withEntry · t.speaker.id _) hs.run

/-- Independent conversations commute. Two sessions with different speakers that keep to their speakers
are held one after the other. Whichever is first, each of them answers, shows, tells and notes what it
does on its own and ends in the same state of the conversation, down to its dice. The quest state that
they leave is the same either way, but for the order of the two speakers if both of them come to have
entries that way. -/
theorem run_commutes (s t : Session) (hne : s.speaker.id ≠ t.speaker.id)
    (henv : t.scene.env = s.scene.env) (hs : s.KeepsToSpeaker) (ht : t.KeepsToSpeaker) :
    (t.after s).run = (t.run.1, t.run.2.over (t.after s).run.2.scene.env) ∧
    (s.after t).run = (s.run.1, s.run.2.over (s.after t).run.2.scene.env) ∧
    (t.after s).run.2.scene.env.SameUpToOrder s.speaker.id t.speaker.id
      (s.after t).run.2.scene.env := by
  refine ⟨(run_after hne henv hs).1, (run_after hne.symm henv.symm ht).1, ?_⟩
  rw [env_after hne henv hs ht, env_after hne.symm henv.symm ht hs, henv]
  exact Environment.withEntry_comm hne _ _ _

/-- A speaker whom the player has not met meets the player. -/
def greeting (npc : String) : Session :=
  .start { archetype := "smith", body := [.assign "MET" (.literal (.bool true))] }
    { id := npc, archetype := "smith" } none {} {} { source := .scripted [] }
    { env := { manifest := Manifest.empty.declare (.make "MET" .speaker .bool) }, economy := none }

theorem greeting_keepsToSpeaker (npc : String) : (greeting npc).KeepsToSpeaker := by
  refine ⟨rfl, fun name value hmem d hd => ?_, fun w hw => (nomatch hw)⟩
  have hmet : name = "MET" ∧ value = .literal (.bool true) := by
    simpa [greeting, start, Script.walk, Statement.walkBody, Statement.walk] using hmem
  obtain ⟨rfl, -⟩ := hmet
  cases hd
  rfl

/-- Two smiths meet the player, and each is the last to be remembered when met last. -/
theorem run_commutes_of_greetings :
    "holt" ≠ "bela" ∧ (greeting "holt").KeepsToSpeaker ∧ (greeting "bela").KeepsToSpeaker ∧
    (((greeting "bela").after (greeting "holt")).run.2.scene.env.speakers.keys = ["holt", "bela"]) ∧
    (((greeting "holt").after (greeting "bela")).run.2.scene.env.speakers.keys = ["bela", "holt"]) ∧
    ((greeting "bela").after (greeting "holt")).run.2.scene.env.SameUpToOrder "holt" "bela"
      ((greeting "holt").after (greeting "bela")).run.2.scene.env := by
  refine ⟨by decide, greeting_keepsToSpeaker _, greeting_keepsToSpeaker _, by decide +kernel,
    by decide +kernel, ?_⟩
  exact (run_commutes (greeting "holt") (greeting "bela") (by decide) rfl
    (greeting_keepsToSpeaker _) (greeting_keepsToSpeaker _)).2.2

end Session

end Parley
