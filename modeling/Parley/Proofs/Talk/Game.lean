import Parley.Proofs.Answer
import Parley.Proofs.Talk.Writers

/-!
# Quest State in the Course of a Game

A game begins with empty quest state and a manifest that was read. From then on views write, stages are
opened, written to, committed and discarded, speakers are forgotten, snapshots are taken and restored,
and conversations are held, in any order and any number. We prove:

* `Game.Sound.perform`: every single one of these deeds keeps quest state, all snapshots and all stages
  sound;
* `Game.sound_at_every_point`: hence at every point of a game each variable lies in its declared scope
  with a value of its declared type, and every view shows such a value; the same holds at every point
  inside a conversation.
-/

namespace Parley

/-- The session over other quest state. -/
def Session.over (s : Session) (env : Environment) : Session :=
  { s with scene := { s.scene with env } }

/-- A game under way. -/
structure Game where
  env : Environment
  /-- All stages that were opened, in the order in which they were opened. -/
  stages : List Stage := []
  /-- All snapshots that were taken, in the order in which they were taken. -/
  snapshots : List Snapshot := []

/-- Something that is done with quest state. -/
inductive Deed
  /-- A view writes: that of a speaker, or nobody's, which sets global variables only. -/
  | write (viewer : Option String) (name : String) (x : Stored)
  /-- A stage is opened over a view. -/
  | openStage (viewer : Option String)
  | stageWrite (place : Nat) (name : String) (x : Stored)
  | commitStage (place : Nat)
  | discardStage (place : Nat)
  | forget (npc : String)
  | takeSnapshot
  /-- The snapshot at a place is restored. -/
  | restore (place : Nat)
  /-- A conversation is held over the quest state at hand. -/
  | talk (s : Session)

namespace Game

/-- A game at its beginning. -/
def start (m : Manifest) : Game where
  env := { manifest := m }

/-- The game with the stage at a place replaced. -/
def withStage (g : Game) (place : Nat) (stage : Stage) : Game :=
  { g with stages := g.stages.set place stage }

/-- The game after a deed. What is refused or fails leaves behind what was done up to then. -/
def perform (g : Game) : Deed → Game
  | .write viewer name x =>
    match g.env.write viewer name x with
    | .ok env => { g with env }
    | .error _ => g
  | .openStage viewer => { g with stages := g.stages ++ [{ viewer }] }
  | .stageWrite place name x =>
    match g.stages[place]? with
    | none => g
    | some stage =>
      match stage.write g.env name x with
      | .ok stage => g.withStage place stage
      | .error _ => g
  | .commitStage place =>
    match g.stages[place]? with
    | none => g
    | some stage =>
      match stage.commit g.env with
      | (_, env, stage) => { g with env }.withStage place stage
  | .discardStage place =>
    match g.stages[place]? with
    | none => g
    | some stage => g.withStage place stage.discard
  | .forget npc => { g with env := g.env.forget npc }
  | .takeSnapshot => { g with snapshots := g.snapshots ++ [g.env.snapshot] }
  | .restore place =>
    match g.snapshots[place]? with
    | none => g
    | some snapshot => { g with env := g.env.restore snapshot }
  | .talk s => { g with env := (s.over g.env).run.2.scene.env }

/-- The game after deeds. -/
def performAll (g : Game) (deeds : List Deed) : Game :=
  deeds.foldl perform g

/-- Quest state, snapshots and stages hold only what the manifest of the game admits. -/
structure Sound (m : Manifest) (g : Game) : Prop where
  manifest : g.env.manifest = m
  env : g.env.IsSound
  stages : ∀ stage ∈ g.stages, stage.Admitted m
  snapshots : ∀ snapshot ∈ g.snapshots, snapshot.IsSound m

variable {m : Manifest} {g : Game}

theorem sound_start (m : Manifest) : (start m).Sound m :=
  ⟨rfl, Environment.isSound_empty m, List.forall_mem_nil _, List.forall_mem_nil _⟩

/-- A game stays sound when its quest state is replaced by sound quest state. -/
theorem Sound.withEnv {env : Environment} (h : g.Sound m) (hmanifest : env.manifest = m)
    (henv : env.IsSound) : Sound m { g with env } :=
  ⟨hmanifest, henv, h.stages, h.snapshots⟩

/-- A game stays sound when writers write. -/
theorem Sound.written {env : Environment} {who : Option String → Prop} (h : g.Sound m)
    (hwritten : g.env.WrittenBy who env) : Sound m { g with env } :=
  h.withEnv (hwritten.manifest.trans h.manifest) (h.env.writtenBy hwritten)

/-- A game stays sound when one of its stages is replaced by an admitted one. -/
theorem Sound.withStage {stage : Stage} (h : g.Sound m) (place : Nat) (hstage : stage.Admitted m) :
    (g.withStage place stage).Sound m := by
  refine ⟨h.manifest, h.env, ?_, h.snapshots⟩
  intro other hother
  rcases List.mem_or_eq_of_mem_set hother with hmem | rfl
  · exact h.stages other hmem
  · exact hstage

/-- Whatever is done keeps a game sound. -/
theorem Sound.perform (h : g.Sound m) (deed : Deed) : (g.perform deed).Sound m := by
  cases deed with
  | write viewer name x =>
    unfold Game.perform
    dsimp only
    split
    · next env hwrite =>
      have hwritten : g.env.WrittenBy (fun _ => True) env :=
        Environment.writtenBy_of_write trivial hwrite
      exact h.written hwritten
    · exact h
  | openStage viewer =>
    refine ⟨h.manifest, h.env, ?_, h.snapshots⟩
    intro stage hstage
    rcases List.mem_append.1 hstage with hold | hnew
    · exact h.stages stage hold
    · rw [List.mem_singleton.1 hnew]
      exact Stage.admitted_empty viewer m
  | stageWrite place name x =>
    unfold Game.perform
    dsimp only
    split
    · exact h
    · next stage hstage =>
      split
      · next staged hwrite =>
        have hadmitted : stage.Admitted g.env.manifest :=
          h.manifest ▸ h.stages stage (List.mem_of_getElem? hstage)
        exact h.withStage place (h.manifest ▸ Stage.admitted_write hadmitted hwrite)
      · exact h
  | commitStage place =>
    unfold Game.perform
    dsimp only
    split
    · exact h
    · next stage hstage =>
      have hadmitted := h.stages stage (List.mem_of_getElem? hstage)
      exact (h.written (stage.commit_writtenBy g.env)).withStage place (hadmitted.commit g.env)
  | discardStage place =>
    unfold Game.perform
    dsimp only
    split
    · exact h
    · next stage _ => exact h.withStage place (Stage.admitted_empty stage.viewer m)
  | forget npc => exact h.withEnv h.manifest (h.env.forget npc)
  | takeSnapshot =>
    refine ⟨h.manifest, h.env, h.stages, ?_⟩
    intro snapshot hsnapshot
    rcases List.mem_append.1 hsnapshot with hold | hnew
    · exact h.snapshots snapshot hold
    · rw [List.mem_singleton.1 hnew, ← h.manifest]
      exact h.env
  | restore place =>
    unfold Game.perform
    dsimp only
    split
    · exact h
    · next snapshot hsnapshot =>
      have hsound := h.snapshots snapshot (List.mem_of_getElem? hsnapshot)
      rw [← h.manifest] at hsound
      exact h.withEnv h.manifest hsound
  | talk s => exact h.written (s.over g.env).run_writtenBy

/-- So does whatever is done one after the other. -/
theorem Sound.performAll (h : g.Sound m) (deeds : List Deed) : (g.performAll deeds).Sound m := by
  induction deeds generalizing g with
  | nil => exact h
  | cons deed rest ih => exact ih (h.perform deed)

/-- At every point of a game over a manifest that was read, global variables are declared global, the
variables of speakers are declared for speakers, and each holds a value of exactly its declared type.
Every view and every stage shows a declared variable with a value of its type. A conversation comes
from one such state to another by single writes, and is at no point between them in any other. -/
theorem sound_at_every_point {document : Json} {schemas : SchemaChecker}
    (h : Manifest.ofJson document schemas = .ok m) (deeds : List Deed) :
    let g := (start m).performAll deeds
    (∀ name x, g.env.globals.get? name = some x → m.Owns .global name x) ∧
    (∀ npc own, g.env.speakers.get? npc = some own →
      ∀ name x, OrderedMap.get? own name = some x → m.Owns .speaker name x) ∧
    (∀ viewer name d, m.get? name = some d → d.Shows (g.env.lookup viewer name)) ∧
    (∀ stage ∈ g.stages, ∀ name d, m.get? name = some d → d.Shows (stage.lookup g.env name)) ∧
    ∀ s : Session, g.env.WrittenBy (s.over g.env).Writer (s.over g.env).run.2.scene.env ∧
      ∀ env, g.env.WrittenBy (s.over g.env).Writer env → env.manifest = m ∧ env.IsSound := by
  intro g
  have hsound : g.Sound m := (sound_start m).performAll deeds
  have htyped : g.env.manifest.IsTyped := hsound.manifest ▸ Manifest.isTyped_ofJson h
  obtain ⟨hmanifest, henv, hstages, -⟩ := hsound
  have howned := henv
  rw [Environment.IsSound, hmanifest] at howned
  refine ⟨howned.globals, howned.speakers, ?_, ?_, ?_⟩
  · intro viewer name d hd
    exact henv.lookup htyped viewer (hmanifest ▸ hd)
  · intro stage hstage name d hd
    exact Stage.lookup_of_isSound (hmanifest ▸ hstages stage hstage) henv htyped (hmanifest ▸ hd)
  · intro s
    refine ⟨(s.over g.env).run_writtenBy, ?_⟩
    intro env hwritten
    exact ⟨hwritten.manifest.trans hmanifest, henv.writtenBy hwritten⟩

/-- A town where the player has ten coins and speakers remember whom they met. -/
def townScopes : Json :=
  .object [("variables", .object
    [("PLAYER_WALLET", .object
      [("scope", .str "global"), ("type", .str "int"), ("default", .int 10)]),
    ("MET", .object [("scope", .str "speaker"), ("type", .str "bool")])])]

/-- The player meets somebody, whom a number cannot say, and buys something for four coins. A stage
then fills the purse, and the state before the purchase is restored. -/
def townDeeds : List Deed :=
  [.write (some "holt") "MET" (.value (.bool true)), .write (some "holt") "MET" (.value (.int 1)),
    .takeSnapshot, .talk Session.purchase, .openStage none,
    .stageWrite 0 "PLAYER_WALLET" (.value (.int 100)), .commitStage 0, .restore 0,
    .talk Session.purchase]

/-- The coins that a purse holds, if it holds a number. -/
def coins? : Option Stored → Option Int
  | some (.value (.int n)) => some n
  | _ => none

theorem eq_of_coins? {x : Option Stored} {n : Int} (h : coins? x = some n) :
    x = some (.value (.int n)) := by
  unfold coins? at h
  split at h
  · rw [Option.some.inj h]
  · cases h

/-- The purchase is made out of the restored purse, and quest state is sound afterwards. -/
theorem sound_at_every_point_of_town :
    ∃ m, Manifest.ofJson townScopes = .ok m ∧
      let g := (start m).performAll townDeeds
      g.env.globals.get? "PLAYER_WALLET" = some (.value (.int 6)) ∧
      (∀ name x, g.env.globals.get? name = some x → m.Owns .global name x) ∧
      (∀ npc own, g.env.speakers.get? npc = some own →
        ∀ name x, OrderedMap.get? own name = some x → m.Owns .speaker name x) ∧
      ∀ viewer name d, m.get? name = some d → d.Shows (g.env.lookup viewer name) := by
  have hgame : (Manifest.ofJson townScopes).toOption.map (fun m =>
      coins? (((start m).performAll townDeeds).env.globals.get? "PLAYER_WALLET")) =
        some (some 6) := by decide +kernel
  obtain ⟨m, hm, hmoney⟩ := exists_of_toOption_map hgame
  obtain ⟨hglobals, hspeakers, hshown, -⟩ := sound_at_every_point hm townDeeds
  exact ⟨m, hm, eq_of_coins? hmoney, hglobals, hspeakers, hshown⟩

end Game

end Parley
