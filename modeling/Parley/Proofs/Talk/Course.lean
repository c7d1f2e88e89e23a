import Parley.Proofs.Talk.Parts
import Parley.Proofs.Talk.Order
import Parley.Proofs.Talk.Transaction

/-!
# The Course of a Session

However a session goes and ends, refused, cancelled or with a fault, only a few kinds of things happen
to its scene: something is noted, the session tells of itself, a turn is committed that a body of the
script was run for, and the presenter writes while a menu is open. What each of them keeps is kept by
every session:

* `Cast.Step` is one such thing, for the cast of a session, which stays the same throughout;
* `Session.Reaches` says that a session goes on to another one by such steps, with one lemma for each
  part of a session;
* `Session.run_reaches`: every run is a sequence of such steps.
-/

namespace Parley

open Relation

/-- Whether a session tells of this itself. Its commits tell of the rest. -/
def EventKind.isOfSession : EventKind → Bool
  | .variableSet | .itemGiven | .itemOffered | .currencySpent | .purchaseRefused => false
  | _ => true

/-- What stays the same all through a session. -/
structure Cast where
  script : Script
  parties : Parties
  /-- The writes that the presenter makes while a menu is open. -/
  writes : List MenuWrite

namespace Cast

/-- A turn is what a run of one of the script's bodies yields on quest state as it is. -/
def Yields (c : Cast) (env : Environment) (turn : Turn) : Prop :=
  ∃ body ∈ c.script.bodies, ∃ dice w, Walk.run env c.parties.npc dice body = (.ok turn, w)

/-- One thing that happens to the scene of a session. -/
inductive Step (c : Cast) : Scene → Scene → Prop
  | note (scene : Scene) (notices : List Notice) : Step c scene (scene.noteAll notices)
  /-- The session tells of itself. -/
  | tell (scene : Scene) (what : Happening) (h : what.kind.isOfSession = true) :
      Step c scene (scene.publish c.parties.npc what)
  /-- A turn is committed, and may be refused or fail. -/
  | commit (scene : Scene) (turn : Turn) (h : c.Yields scene.env turn) :
      Step c scene (c.parties.commit turn scene).2.2
  /-- The presenter writes, up to the first write that is refused. -/
  | write (scene : Scene) :
      Step c scene { scene with env := (Session.writeAll scene.env c.writes).2 }

end Cast

namespace Session

/-- What stays the same all through a session. -/
def cast (s : Session) : Cast :=
  ⟨s.script, s.parties, s.presenter.writes⟩

variable {s t u : Session}

/-- A session goes on to another one of the same cast. -/
structure Reaches (s t : Session) : Prop where
  cast : t.cast = s.cast
  steps : ReflTransGen s.cast.Step s.scene t.scene

theorem Reaches.refl (s : Session) : s.Reaches s :=
  ⟨rfl, .refl⟩

/-- Courses join. -/
theorem Reaches.trans (hst : s.Reaches t) (htu : t.Reaches u) : s.Reaches u :=
  ⟨htu.cast.trans hst.cast, hst.steps.trans (hst.cast ▸ htu.steps)⟩

/-- One step of the parties is a course. -/
theorem reaches_of_step (hcast : t.cast = s.cast) (h : s.cast.Step s.scene t.scene) :
    s.Reaches t :=
  ⟨hcast, .single h⟩

/-- What does not touch the scene leads on. -/
theorem reaches_of_eq (hcast : t.cast = s.cast) (hscene : t.scene = s.scene) : s.Reaches t :=
  ⟨hcast, hscene ▸ .refl⟩

/-! ## What only shows something -/

/-- What a session publishes on its own behalf is a step. -/
theorem publish_reaches (s : Session) (what : Happening) (h : what.kind.isOfSession = true) :
    s.Reaches (s.publish what) :=
  reaches_of_step rfl (.tell s.scene what h)

/-- Showing a text takes no step of the parties, also if the presenter breaks. -/
theorem present_reaches (s : Session) (text : Json) : s.Reaches (s.present text).2 := by
  unfold present
  dsimp only
  split
  · exact reaches_of_eq rfl rfl
  · exact reaches_of_step rfl (.tell s.scene (.textPresented text) rfl)

theorem close_reaches (s : Session) : s.Reaches s.close :=
  reaches_of_step rfl (.tell s.scene .sessionClosed rfl)

theorem cancel_reaches (s : Session) : s.Reaches s.cancel := by
  have hcancelled : s.Reaches (({ s with outcome := { s.outcome with cancelled := true } } :
      Session).publish .sessionCancelled) := reaches_of_step rfl (.tell s.scene _ rfl)
  exact hcancelled.trans (close_reaches _)

theorem presentLast_reaches (s : Session) (text : Json) : s.Reaches (s.presentLast text).2 := by
  have hpresented := present_reaches s text
  unfold presentLast
  split
  · next hended => rwa [hended] at hpresented
  · next hended =>
    rw [hended] at hpresented
    exact hpresented.trans (close_reaches _)

theorem closeWith_reaches (s : Session) (text : Json) : s.Reaches (s.closeWith text).2 := by
  unfold closeWith
  split
  · exact presentLast_reaches s text
  · exact close_reaches s

/-- Filling in the placeholders of a text takes the steps of its warnings. -/
theorem substitute_reaches (s : Session) (text : String) : s.Reaches (s.substitute text).2 :=
  reaches_of_step rfl (.note s.scene _)

theorem substituteLine_reaches (s : Session) (line : Json) :
    s.Reaches (s.substituteLine line).2 := by
  cases line with
  | str text => exact substitute_reaches s text
  | _ => exact .refl s

/-! ## Turns and their commits -/

/-- Running a body changes nothing outside its stage. -/
theorem runBody_reaches (s : Session) (body : List Statement) : s.Reaches (s.runBody body).2 :=
  reaches_of_step rfl (.note s.scene _)

/-- A body of the script yields its turn on quest state as it is. -/
theorem runBody_yields {body : List Statement} {turn : Turn} (hbody : body ∈ s.script.bodies)
    (h : s.runBody body = (.ok turn, t)) : t.cast.Yields t.scene.env turn := by
  obtain ⟨w, hwalk, hstanding⟩ := runBody_ok h
  -- nothing but notices came in between, so that quest state is what the body was run on
  have hcast : t.cast = s.cast := by
    have hsame := (runBody_reaches s body).cast
    rwa [h] at hsame
  have henv : t.scene.env = s.scene.env := congrArg (fun x => x.world.env) hstanding
  rw [hcast, henv]
  exact ⟨body, hbody, s.dice, w, hwalk⟩

theorem shownText_reaches (s : Session) (turn : Turn) (result : CommitResult) :
    s.Reaches (s.shownText turn result).2 := by
  cases result with
  | refused =>
    have hrefused : s.Reaches { s with outcome := { s.outcome with refused := true } } :=
      reaches_of_eq rfl rfl
    exact hrefused.trans (substituteLine_reaches _ _)
  | committed written => exact substituteLine_reaches s _

/-- A session commits the turns that its script yields. -/
theorem commit_reaches {turn : Turn} (h : s.cast.Yields s.scene.env turn) :
    s.Reaches (s.commit turn).2 := by
  have hsettled : s.Reaches { s with scene := (s.parties.commit turn s.scene).2.2 } :=
    reaches_of_step rfl (.commit s.scene turn h)
  unfold commit
  split
  · next hcommit => rwa [hcommit] at hsettled
  · next hcommit =>
    rw [hcommit] at hsettled
    exact hsettled.trans (shownText_reaches _ _ _)

/-! ## The parts of a session -/

/-- A conclusion shows its text and publishes the end. -/
theorem conclude_reaches (s : Session) (text : Json) (turn : Turn) :
    s.Reaches (s.conclude text turn).2 := by
  have hclosing : s.Reaches (s.closingText text turn).2 := by
    unfold closingText
    split
    · exact substituteLine_reaches s _
    · exact .refl s
  rw [conclude_eq]
  split
  · next hclosed => rwa [hclosed] at hclosing
  · next hclosed =>
    rw [hclosed] at hclosing
    exact hclosing.trans (closeWith_reaches _ _)

theorem entriesFor_reaches (s : Session) (index : Nat) (choices : List Choice) :
    s.Reaches (s.entriesFor index choices).2 := by
  induction choices generalizing s index with
  | nil => exact .refl s
  | cons choice rest ih =>
    have hlabel : s.Reaches (({ s with dice := (s.dice.speak choice.label).2 } : Session).substitute
        (s.dice.speak choice.label).1).2 := reaches_of_step rfl (.note s.scene _)
    rw [entriesFor]
    dsimp only
    split
    · next hworded => rwa [hworded] at hlabel
    · next named hworded =>
      rw [hworded] at hlabel
      have hrest := ih named (index + 1)
      split
      · next hnamed =>
        rw [hnamed] at hrest
        exact hlabel.trans hrest
      · next hnamed =>
        rw [hnamed] at hrest
        exact hlabel.trans hrest

theorem buildMenu_reaches (s : Session) (options : List Choice) :
    s.Reaches (s.buildMenu options).2 := by
  unfold buildMenu
  dsimp only
  generalize hkept : ({ s with scene := _, options := _ } : Session) = kept
  -- a menu that is too long is noted and cut
  have hcut : s.Reaches kept := by
    rw [← hkept]
    split
    · exact reaches_of_step rfl (.note s.scene _)
    · exact reaches_of_eq rfl rfl
  have hnamed := hcut.trans (entriesFor_reaches kept 0 (options.take menuRoom))
  split
  · next hmenu => rwa [hmenu] at hnamed
  · next hmenu =>
    rw [hmenu] at hnamed
    exact hnamed.trans (reaches_of_eq rfl rfl)

theorem presentMenu_reaches (s : Session) (text : Json) : s.Reaches (s.presentMenu text).2 := by
  have hopen : s.Reaches { s with scene :=
      { s.scene with env := (writeAll s.scene.env s.presenter.writes).2 } } :=
    reaches_of_step rfl (.write s.scene)
  unfold presentMenu
  dsimp only [ask]
  split
  · next hmade =>
    rw [hmade] at hopen
    exact hopen.trans (reaches_of_eq rfl rfl)
  · next hmade =>
    rw [hmade] at hopen
    exact hopen.trans (reaches_of_eq rfl rfl)

/-- To ask for consent only shows something. -/
theorem consult_reaches (s : Session) (turn : Turn) : s.Reaches (s.consult turn).2 := by
  unfold consult
  split
  · split <;> exact reaches_of_eq rfl rfl
  · exact .refl s

/-- Settling a turn commits what a body of the script has yielded. -/
theorem settle_reaches {turn : Turn} (h : s.cast.Yields s.scene.env turn) :
    s.Reaches (s.settle turn).2 := by
  have hentered : s.Reaches (s.enter .resolving) := reaches_of_eq rfl rfl
  have hcommit := hentered.trans (commit_reaches (s := s.enter .resolving) h)
  unfold settle
  split
  · next hcommitted => rwa [hcommitted] at hcommit
  · next hcommitted =>
    rw [hcommitted] at hcommit
    exact hcommit.trans (closeWith_reaches _ _)

/-- An option is executed by running its body and settling what this yields. -/
theorem execute_reaches {body : List Statement} (hbody : body ∈ s.script.bodies) :
    s.Reaches (s.execute body).2 := by
  have hran := runBody_reaches s body
  unfold execute
  split
  · next hrun => rwa [hrun] at hran
  · next turn ran hrun =>
    rw [hrun] at hran
    have hasked := consult_reaches ran turn
    have henv : (ran.consult turn).2.scene.env = ran.scene.env :=
      congrArg (fun x => x.world.env) (consult_standing ran turn)
    rcases hconsulted : ran.consult turn with ⟨fault | _ | _, asked⟩
    · rw [hconsulted] at hasked
      exact hran.trans hasked
    · rw [hconsulted] at hasked
      exact (hran.trans hasked).trans (cancel_reaches _)
    · -- the turn was yielded before consent was asked for, and it still is what quest state yields
      have hyields := runBody_yields hbody hrun
      rw [hconsulted] at hasked henv
      rw [← hasked.cast, ← henv] at hyields
      exact (hran.trans hasked).trans (settle_reaches hyields)

/-- A choice is resolved along the course that its body takes. -/
theorem resolve_reaches {choice : Choice} (hbody : choice.body ∈ s.script.bodies) (index : Nat) :
    s.Reaches (s.resolve index choice).2 := by
  have hchosen : s.Reaches (s.choose index) := reaches_of_step rfl (.tell s.scene _ rfl)
  exact hchosen.trans (execute_reaches (s := s.choose index) hbody)

/-- The answer of the player leads to one of the options, or to the end. -/
theorem follow_reaches (hoptions : ∀ choice ∈ s.options, choice.body ∈ s.script.bodies)
    (answer : MenuAnswer) : s.Reaches (s.follow answer).2 := by
  rw [follow.eq_def]
  split
  · split
    · next choice hchoice => exact resolve_reaches (hoptions choice (List.mem_of_getElem? hchoice)) _
    · exact cancel_reaches s
  · exact cancel_reaches s
  · next document _ =>
    have hnoted : s.Reaches { s with scene := s.scene.noteAll [.invalidChoice document] } :=
      reaches_of_step rfl (.note s.scene _)
    exact hnoted.trans (cancel_reaches _)

theorem openMenu_reaches (s : Session) (text : Json) : s.Reaches (s.openMenu text) := by
  have hentered : s.Reaches (s.enter .awaitingChoice) := reaches_of_eq rfl rfl
  have hlisted := hentered.trans (publish_reaches (s.enter .awaitingChoice)
    (.menuPresented (s.menu.map MenuEntry.label)) rfl)
  unfold openMenu
  dsimp only
  split
  · exact hlisted.trans (reaches_of_step rfl (.tell _ (.textPresented text) rfl))
  · exact hlisted

/-- An offer of the options of a script goes through its menu. -/
theorem offer_reaches {options : List Choice}
    (hoptions : ∀ choice ∈ options, choice.body ∈ s.script.bodies) (text : Json) :
    s.Reaches (s.offer text options).2 := by
  have hmenu := buildMenu_reaches s options
  rw [offer_eq]
  split
  · next hbuilt => rwa [hbuilt] at hmenu
  · next built hbuilt =>
    rw [hbuilt] at hmenu
    have hpresented := (hmenu.trans (openMenu_reaches built text)).trans
      (presentMenu_reaches (built.openMenu text) text)
    split
    · next hasked => rwa [hasked] at hpresented
    · next answer asked hasked =>
      rw [hasked] at hpresented
      -- the player chooses among the first options of the turn
      obtain ⟨env, -, -, hkept⟩ := presentMenu_ok hasked
      have hkept' : asked.options = options.take menuRoom := by
        rw [openMenu_standing, buildMenu_ok hbuilt] at hkept
        exact congrArg Standing.options hkept
      have hscript : asked.script = s.script := congrArg Cast.script hpresented.cast
      refine hpresented.trans (follow_reaches ?_ answer)
      intro choice hchoice
      rw [hscript]
      rw [hkept'] at hchoice
      exact hoptions choice (List.mem_of_mem_take hchoice)

/-- The root body is one of the script as well. -/
theorem settleRoot_reaches (s : Session) : s.Reaches s.settleRoot.2 := by
  have hran := runBody_reaches s s.script.body
  unfold settleRoot
  split
  · next hrun => rwa [hrun] at hran
  · next turn ran hrun =>
    rw [hrun] at hran
    exact hran.trans (commit_reaches (runBody_yields List.mem_cons_self hrun))

/-- A root that is settled was run, and its options are those that its run gathered. -/
theorem settleRoot_ok {text : Json} {left : Turn} (h : s.settleRoot = (.ok (text, left), t)) :
    ∃ root w, Walk.run s.scene.env (some s.speaker.id) s.dice s.script.body = (.ok root, w) ∧
      left.options = root.options ∧ t.dice = w.dice := by
  unfold settleRoot at h
  split at h
  · cases h
  · next root ran hrun =>
    obtain ⟨w, hwalk, hran⟩ := runBody_ok hrun
    obtain ⟨result, -, hsettled, hoptions, -⟩ := commit_ok h
    exact ⟨root, w, hwalk, hoptions,
      (congrArg Standing.dice hsettled).trans (congrArg Standing.dice hran)⟩

/-- What the root gathered are options of the script. -/
theorem settleRoot_options {text : Json} {left : Turn} (h : s.settleRoot = (.ok (text, left), t)) :
    ∀ choice ∈ left.options, choice.statement ∈ s.script.walk := by
  obtain ⟨root, w, hwalk, hoptions, -⟩ := settleRoot_ok h
  intro choice hchoice
  rw [hoptions] at hchoice
  exact Script.mem_walk_of_run List.mem_cons_self hwalk hchoice

/-- Once a session has told that it started, it is played to its end. -/
theorem started_reaches (s : Session) : s.started.Reaches s.play.2 := by
  rw [play_eq]
  split
  · have hentered : s.started.Reaches (s.started.enter .presenting) := reaches_of_eq rfl rfl
    exact hentered.trans (presentLast_reaches _ _)
  · -- the root is run and committed; then the session is concluded, or a menu is offered
    have hsettled := settleRoot_reaches s.started
    split
    · next hroot => rwa [hroot] at hsettled
    · next text left settled hroot =>
      rw [hroot] at hsettled
      have hentered : s.started.Reaches (settled.enter .presenting) :=
        hsettled.trans (reaches_of_eq rfl rfl)
      unfold proceed
      split
      · exact hentered.trans (conclude_reaches _ _ _)
      · have hscript : (settled.enter .presenting).script = s.script :=
          congrArg Cast.script hentered.cast
        refine hentered.trans (offer_reaches ?_ _)
        intro choice hchoice
        rw [hscript]
        exact Script.body_mem_of_mem_walk (settleRoot_options hroot choice hchoice)

/-- A session plays along a course of its parties, however it ends. -/
theorem play_reaches (s : Session) : s.Reaches s.play.2 :=
  (publish_reaches s _ rfl).trans (started_reaches s)

/-- Every run of a session is a sequence of such steps, however it ends. -/
theorem run_reaches (s : Session) : s.Reaches s.run.2 := by
  unfold run
  split
  · exact play_reaches s
  · exact .refl s

end Session

end Parley
