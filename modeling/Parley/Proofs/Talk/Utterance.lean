import Parley.Proofs.Talk.Menu
import Parley.Proofs.Talk.TurnAway

/-!
# Where Shown Texts Come From

All that a session shows is worded by its lore, from a few sources: the texts of turns that runs of the
script's bodies yield, the labels of its options, and two lines of the settings.

* `Source` is what a session words, and by which lore; it stays the same all through the session;
* `Source.IsWorded`: a request to the presenter shows only what is worded from these sources;
* `Session.Words`: a session goes on to another one and shows only such things, with one lemma for each
  part of a session;
* `Session.isWorded_of_shows`: so it is for all that a run of a loaded script shows.
-/

namespace Parley

/-- What the texts of a session come from. -/
structure Source where
  script : Script
  speaker : Speaker
  lore : Lore
  config : Config

namespace Source

/-- A turn is what a run of one of the script's bodies yields for the speaker. -/
def Yields (c : Source) (turn : Turn) : Prop :=
  ∃ body ∈ c.script.bodies, ∃ env dice w,
    Walk.run env (some c.speaker.id) dice body = (.ok turn, w)

/-- What is said before it is worded: the text of a turn, or a line of the settings. -/
inductive Utters (c : Source) : Json → Prop
  | turn {turn : Turn} (h : c.Yields turn) : Utters c (.str turn.text)
  | cannotAfford : Utters c c.config.cannotAffordLine
  | turnAway : Utters c c.config.turnAwayLine

/-- A document is what the lore makes of something that is said. -/
def Voices (c : Source) (shown : Json) : Prop :=
  ∃ raw, c.Utters raw ∧ c.lore.wordLine raw = .ok shown

/-- A label is what the lore makes of the label of one of the script's options, as it is spoken. -/
def Labels (c : Source) (label : String) : Prop :=
  ∃ choice dice, Choice.statement choice ∈ c.script.walk ∧
    c.lore.word (Dice.speak dice choice.label).1 = .ok label

/-- All that a request shows is worded; what a question asks about is a price. -/
def IsWorded (c : Source) : Presentation → Prop
  | .text _ shown => c.Voices shown
  | .menu _ shown entries => c.Voices shown ∧ ∀ entry ∈ entries, c.Labels entry.label
  | .confirm _ _ => True

end Source

namespace Session

variable {s t u : Session}

/-- What the texts of a session come from. -/
def source (s : Session) : Source :=
  ⟨s.script, s.speaker, s.lore, s.config⟩

/-- A session goes on to another one, and all that it shows until then is worded. -/
structure Words (s t : Session) : Prop where
  source : t.source = s.source
  shown : ∃ more, t.presenter.shown = s.presenter.shown ++ more ∧ ∀ p ∈ more, s.source.IsWorded p

/-- The words of two stretches are words of both. -/
theorem Words.trans (hst : s.Words t) (htu : t.Words u) : s.Words u := by
  obtain ⟨first, hfirst, hworded⟩ := hst.shown
  obtain ⟨second, hsecond, hworded'⟩ := htu.shown
  refine ⟨htu.source.trans hst.source, first ++ second, ?_, fun p hp => ?_⟩
  · rw [hsecond, hfirst, List.append_assoc]
  · exact (List.mem_append.1 hp).elim (hworded p) fun hp => hst.source ▸ hworded' p hp

/-- What shows nothing has nothing to word. -/
theorem words_of_eq (hsource : t.source = s.source)
    (hshown : t.presenter.shown = s.presenter.shown) : s.Words t :=
  ⟨hsource, [], by rw [hshown, List.append_nil], List.forall_mem_nil _⟩

/-- What shows nothing needs no words. -/
theorem words_of_front (h : t.front = s.front) : s.Words t :=
  words_of_eq (congrArg (fun f => (⟨f.script, f.speaker, f.lore, f.config⟩ : Source)) h)
    (congrArg (fun f => f.presenter.shown) h)

theorem words_of_ask {p : Presentation} (h : s.source.IsWorded p) : s.Words (s.ask p) :=
  ⟨rfl, [p], rfl, List.forall_mem_singleton.2 h⟩

/-! ## Closing -/

/-- A text that the source voices may be presented. -/
theorem present_words {text : Json} (h : s.source.Voices text) : s.Words (s.present text).2 := by
  have hasked : s.Words (s.ask (.text s.phase text)) := words_of_ask h
  unfold present
  dsimp only
  split
  · exact hasked
  · exact hasked.trans (words_of_eq rfl rfl)

theorem closeWith_words {text : Json} (h : s.source.Voices text) : s.Words (s.closeWith text).2 := by
  have hpresented := present_words h
  unfold closeWith presentLast
  split
  · split
    · next hended => rwa [hended] at hpresented
    · next hended =>
      rw [hended] at hpresented
      exact hpresented.trans (words_of_eq rfl rfl)
  · exact words_of_eq rfl rfl

theorem cancel_words (s : Session) : s.Words s.cancel :=
  words_of_eq rfl rfl

theorem conclude_words {text : Json} (h : s.source.Voices text) (turn : Turn) :
    s.Words (s.conclude text turn).2 := by
  have hclosing := words_of_front (closingText_front s text turn)
  -- The text may be replaced by the line that turns the player away.
  have hvoices : ∀ shown, (s.closingText text turn).1 = .ok shown → s.source.Voices shown := by
    intro shown hshown
    unfold closingText at hshown
    split at hshown
    · exact ⟨_, .turnAway, (substituteLine_answer s _).symm.trans hshown⟩
    · exact Except.ok.inj hshown ▸ h
  rw [conclude_eq]
  rcases hended : s.closingText text turn with ⟨_ | shown, left⟩
  · rwa [hended] at hclosing
  · rw [hended] at hclosing hvoices
    have hleft : left.source.Voices shown := hclosing.source ▸ hvoices shown rfl
    exact hclosing.trans (closeWith_words hleft)

/-! ## Turns -/

/-- What a body of the script yields has its texts from the source. -/
theorem runBody_yields_source {body : List Statement} {turn : Turn}
    (hbody : body ∈ s.script.bodies) (h : s.runBody body = (.ok turn, t)) :
    t.source.Yields turn := by
  obtain ⟨w, hwalk, -⟩ := runBody_ok h
  have hran := words_of_front (runBody_front s body)
  rw [h] at hran
  rw [hran.source]
  exact ⟨body, hbody, s.scene.env, s.dice, w, hwalk⟩

/-- A commit answers with what is said of its turn: its text, or that it cannot be afforded. -/
theorem commit_voices {turn left : Turn} {text : Json} (hyields : s.source.Yields turn)
    (h : s.commit turn = (.ok (text, left), t)) : s.source.Voices text := by
  have hanswer := commit_answer s turn
  rw [h] at hanswer
  rcases hsettle : (s.parties.settle turn s.scene.world).1 with fault | written | _ <;>
    rw [hsettle] at hanswer
  · cases hanswer
  · -- The turn was paid for.
    obtain ⟨shown, hword, heq⟩ := exists_of_map_eq_ok hanswer.symm
    obtain ⟨rfl, -⟩ := Prod.mk.inj heq
    exact ⟨_, .turn hyields, congrArg (Except.map Json.str) hword⟩
  · obtain ⟨shown, hline, heq⟩ := exists_of_map_eq_ok hanswer.symm
    obtain ⟨rfl, -⟩ := Prod.mk.inj heq
    exact ⟨_, .cannotAfford, hline⟩

/-- Settling a turn shows what the turn says. -/
theorem settle_words {turn : Turn} (hyields : s.source.Yields turn) : s.Words (s.settle turn).2 := by
  have hentered : s.Words (s.enter .resolving) := words_of_eq rfl rfl
  have hcommit := hentered.trans (words_of_front (commit_front (s.enter .resolving) turn))
  unfold settle
  rcases hended : (s.enter .resolving).commit turn with ⟨_ | ⟨text, left⟩, after⟩
  · rwa [hended] at hcommit
  · rw [hended] at hcommit
    have htext : after.source.Voices text :=
      hcommit.source ▸ commit_voices (s := s.enter .resolving) hyields hended
    exact hcommit.trans (closeWith_words htext)

/-- The question about a price has no words of the script. -/
theorem consult_words (s : Session) (turn : Turn) : s.Words (s.consult turn).2 := by
  unfold consult
  split
  · split
    · exact words_of_eq rfl rfl
    · exact words_of_ask trivial
  · exact words_of_eq rfl rfl

/-- Executing an option shows what its body says. -/
theorem execute_words {body : List Statement} (hbody : body ∈ s.script.bodies) :
    s.Words (s.execute body).2 := by
  have hran := words_of_front (runBody_front s body)
  unfold execute
  rcases hrun : s.runBody body with ⟨_ | turn, ran⟩
  · rwa [hrun] at hran
  · rw [hrun] at hran
    have hconsult := consult_words ran turn
    dsimp only
    rcases hconsulted : ran.consult turn with ⟨_ | _ | _, asked⟩ <;> rw [hconsulted] at hconsult
    · exact hran.trans hconsult
    · exact (hran.trans hconsult).trans (cancel_words asked)
    · -- What the body yielded does not depend on what was asked since.
      have hyields := runBody_yields_source hbody hrun
      rw [← hconsult.source] at hyields
      exact (hran.trans hconsult).trans (settle_words hyields)

theorem resolve_words {choice : Choice} (hbody : choice.body ∈ s.script.bodies) (index : Nat) :
    s.Words (s.resolve index choice).2 := by
  have hchosen : s.Words (s.choose index) := words_of_eq rfl rfl
  exact hchosen.trans (execute_words (s := s.choose index) hbody)

/-! ## Menus -/

/-- Whichever option the answer picks, its body is one of the script. -/
theorem follow_words (hoptions : ∀ choice ∈ s.options, choice.body ∈ s.script.bodies)
    (answer : MenuAnswer) : s.Words (s.follow answer).2 := by
  rw [follow.eq_def]
  split
  · split
    · next choice hchoice => exact resolve_words (hoptions choice (List.mem_of_getElem? hchoice)) _
    · exact cancel_words s
  · exact cancel_words s
  · exact words_of_eq rfl rfl

/-- The entries of a menu have the labels of the options that it was built for. -/
theorem buildMenu_labels {options : List Choice}
    (hoptions : ∀ choice ∈ options, choice.statement ∈ s.script.walk)
    (h : s.buildMenu options = (.ok (), t)) : ∀ entry ∈ t.menu, s.source.Labels entry.label := by
  have hlists := buildMenu_lists h
  intro entry hentry
  obtain ⟨i, hi⟩ := List.mem_iff_getElem?.1 hentry
  have hroom : i < (options.take menuRoom).length :=
    hlists.length ▸ (List.getElem?_eq_some_iff.1 hi).1
  obtain ⟨key, label, hplace, hword⟩ := hlists.entry i _ (List.getElem?_eq_getElem hroom)
  obtain rfl : entry = ⟨i, key, label⟩ := Option.some.inj (hi.symm.trans hplace)
  have hchoice : (options.take menuRoom)[i] ∈ options := List.mem_of_mem_take (List.getElem_mem hroom)
  exact ⟨_, _, hoptions _ hchoice, hword⟩

/-- A menu may be presented if the source voices its text and its labels. -/
theorem presentMenu_words {text : Json} (htext : s.source.Voices text)
    (hlabels : ∀ entry ∈ s.menu, s.source.Labels entry.label) :
    s.Words (s.presentMenu text).2 := by
  have hasked : s.Words (s.ask (.menu s.phase text s.menu)) := words_of_ask ⟨htext, hlabels⟩
  unfold presentMenu
  dsimp only
  split
  · exact hasked.trans (words_of_eq rfl rfl)
  · exact hasked.trans (words_of_eq rfl rfl)

theorem openMenu_words (s : Session) (text : Json) : s.Words (s.openMenu text) := by
  unfold openMenu
  dsimp only
  split
  · exact words_of_eq rfl rfl
  · exact words_of_eq rfl rfl

/-- An offer shows the labels of statements of the script. -/
theorem offer_words {text : Json} {options : List Choice} (htext : s.source.Voices text)
    (hoptions : ∀ choice ∈ options, choice.statement ∈ s.script.walk) :
    s.Words (s.offer text options).2 := by
  have hmenu := words_of_front (buildMenu_front s options)
  rw [offer_eq]
  rcases hbuilt : s.buildMenu options with ⟨_ | _, built⟩
  · rwa [hbuilt] at hmenu
  · rw [hbuilt] at hmenu
    have hopened := hmenu.trans (openMenu_words built text)
    -- To open the menu tells of its entries and changes none of them.
    have hlabels : ∀ entry ∈ (built.openMenu text).menu,
        (built.openMenu text).source.Labels entry.label := by
      rw [openMenu_menu, hopened.source]
      exact buildMenu_labels hoptions hbuilt
    have hasked := hopened.trans (presentMenu_words (hopened.source ▸ htext) hlabels)
    dsimp only
    rcases hanswer : (built.openMenu text).presentMenu text with ⟨_ | answer, asked⟩
    · rwa [hanswer] at hasked
    · rw [hanswer] at hasked
      -- The player chooses among the first options of the turn.
      have hkept : asked.options = options.take menuRoom := by
        obtain ⟨_, -, -, hkept⟩ := presentMenu_ok hanswer
        rw [openMenu_standing, buildMenu_ok hbuilt] at hkept
        exact congrArg Standing.options hkept
      have hscript : asked.script = s.script := congrArg Source.script hasked.source
      refine hasked.trans (follow_words (fun choice hchoice => ?_) answer)
      rw [hkept] at hchoice
      rw [hscript]
      exact Script.body_mem_of_mem_walk (hoptions choice (List.mem_of_mem_take hchoice))

/-! ## Whole runs -/

/-- What a settled root is answered with is something said. -/
theorem settleRoot_voices {text : Json} {left : Turn} (h : s.settleRoot = (.ok (text, left), t)) :
    s.source.Voices text := by
  have hran := words_of_front (runBody_front s s.script.body)
  unfold settleRoot at h
  split at h
  · cases h
  · next turn ran hrun =>
    rw [hrun] at hran
    rw [← hran.source]
    exact commit_voices (runBody_yields_source List.mem_cons_self hrun) h

/-- An enabled script is played in its own words only. -/
theorem play_words (henabled : s.script.disabled = false) : s.Words s.play.2 := by
  have hstarted : s.Words s.started := words_of_eq rfl rfl
  have hroot := hstarted.trans (words_of_front (settleRoot_front s.started))
  rw [play_of_enabled henabled]
  rcases hsettled : s.started.settleRoot with ⟨_ | ⟨text, left⟩, settled⟩
  · rwa [hsettled] at hroot
  · rw [hsettled] at hroot
    have htext : s.source.Voices text := settleRoot_voices (s := s.started) hsettled
    have hoptions : ∀ choice ∈ left.options, choice.statement ∈ s.script.walk :=
      settleRoot_options (s := s.started) hsettled
    have hentered : s.Words (settled.enter .presenting) := hroot.trans (words_of_eq rfl rfl)
    have hscript : (settled.enter .presenting).script = s.script :=
      congrArg Source.script hentered.source
    have htext' : (settled.enter .presenting).source.Voices text := hentered.source ▸ htext
    dsimp only
    unfold proceed
    split
    · exact hentered.trans (conclude_words htext' left)
    · exact hentered.trans (offer_words htext' (hscript ▸ hoptions))

/-- All that a run of a loaded script shows is worded. -/
theorem isWorded_of_shows (henabled : s.script.disabled = false) {p : Presentation}
    (h : s.Shows p) : s.source.IsWorded p := by
  have hwords : s.Words s.run.2 := by
    unfold run
    split
    · exact play_words henabled
    · exact words_of_eq rfl rfl
  obtain ⟨more, hshown, hworded⟩ := hwords.shown
  exact hworded p ((shows_iff hshown p).1 h)

end Session

end Parley
