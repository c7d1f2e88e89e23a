import Parley.Proofs.Answer
import Parley.Proofs.Talk.OptionBody
import Parley.Proofs.Talk.Parts
import Parley.Proofs.Talk.Settlement

/-!
# Sessions Are Transactions

A session commits the turn of its root and at most one more turn, that of the chosen option. All else
that it does only shows something. We prove:

* `Session.Standing` is the part of a session that decides how it goes on, and showing, noting and
  making known leave it alone;
* one lemma for each part of a session says what its success does to the standing
  (`Session.commit_ok`, `Session.presentMenu_ok`, `Session.resolve_ok` and others);
* `Session.run_transaction`: a session that returns leaves what its root left if no menu was shown;
  otherwise it leaves this together with the writes made during the menu, and on top of them the
  commit of the chosen option, if one was chosen, agreed to and paid for.

The bodies of options play no part in the root turn (`Session.Opens.bodies`).
-/

namespace Parley

/-- Whether a commit was refused. -/
def CommitResult.isRefused : CommitResult → Bool
  | .refused => true
  | .committed _ => false

/-- The dice after phrases were spoken. -/
def Dice.afterAll (dice : Dice) (phrases : List Phrase) : Dice :=
  phrases.foldl (fun dice phrase => (dice.speak phrase).2) dice

/-- A presenter that does not fail answers what it has to answer. -/
theorem Presenter.eq_of_reply {α : Type} {p : Presenter} {answer given : α}
    (h : p.reply answer = .ok given) : given = answer := by
  unfold reply at h
  split at h
  · cases h
  · exact (Except.ok.inj h).symm

/-- A presenter that fails does so by its own error. -/
theorem Presenter.breaks_of_reply {α : Type} {p : Presenter} {answer : α} {fault : Fault}
    (h : p.reply answer = .error fault) :
    ∃ error, p.breaks p.shown = some error ∧ fault = .presenter error := by
  unfold reply at h
  split at h
  · next error hbreaks => exact ⟨error, hbreaks, (Except.error.inj h).symm⟩
  · cases h

/-- The option that an answer chooses: the answer has to be the number of its place. -/
def MenuAnswer.choice? (options : List Choice) : MenuAnswer → Option Choice
  | .reply (.int (.ofNat n)) => options[n]?
  | _ => none

namespace Parties

/-- The bodies of options are no part of what a commit does. -/
theorem settle_bare (p : Parties) (turn : Turn) (w : World) :
    p.settle turn.bare w = p.settle turn w := by
  -- A commit looks at the stage, the effects and the price of a turn, never at its options.
  have happly : ∀ scene, (p.apply turn.bare scene).1 = (p.apply turn scene).1 ∧
      (p.apply turn.bare scene).2.2 = (p.apply turn scene).2.2 := by
    intro scene
    have hstage : turn.bare.stage = turn.stage := rfl
    have heffects : turn.bare.effects = turn.effects := rfl
    rw [apply, apply, hstage, heffects]
    split
    · exact ⟨rfl, rfl⟩
    · dsimp only
      split <;> exact ⟨rfl, rfl⟩
  have htotal : turn.bare.spendTotal = turn.spendTotal := rfl
  simp only [settle, commit, htotal]
  split
  · rw [(happly _).1, (happly _).2]
  · split
    · rfl
    · rfl
    · rw [(happly _).1, (happly _).2]

end Parties

namespace Session

/-- What decides how a session goes on. -/
structure Standing where
  /-- What lasts of the scene. -/
  world : World
  parties : Parties
  speaker : String
  config : Config
  answers : List MenuAnswer
  /-- The answer to every question. -/
  confirms : Bool
  /-- The writes that are made while a menu is open. -/
  writes : List MenuWrite
  dice : Dice
  options : List Choice
  /-- Whether something could not be paid for. -/
  refused : Bool

/-- What decides how a session goes on. -/
def standing (s : Session) : Standing where
  world := s.scene.world
  parties := s.parties
  speaker := s.speaker.id
  config := s.config
  answers := s.presenter.answers
  confirms := s.presenter.confirms
  writes := s.presenter.writes
  dice := s.dice
  options := s.options
  refused := s.outcome.refused

variable {s t : Session}

/-! ## What only shows something -/

@[simp]
theorem publish_standing (s : Session) (what : Happening) :
    (s.publish what).standing = s.standing := rfl

@[simp]
theorem enter_standing (s : Session) (phase : Phase) : (s.enter phase).standing = s.standing := rfl

@[simp]
theorem present_standing (s : Session) (text : Json) :
    (s.present text).2.standing = s.standing := by
  unfold present
  dsimp only
  split <;> rfl

@[simp]
theorem substitute_standing (s : Session) (text : String) :
    (s.substitute text).2.standing = s.standing := rfl

@[simp]
theorem substituteLine_standing (s : Session) (line : Json) :
    (s.substituteLine line).2.standing = s.standing := by
  cases line <;> rfl

@[simp]
theorem close_world (s : Session) : s.close.scene.world = s.scene.world := rfl

@[simp]
theorem cancel_world (s : Session) : s.cancel.scene.world = s.scene.world := rfl

theorem presentLast_world (s : Session) (text : Json) :
    (s.presentLast text).2.scene.world = s.scene.world := by
  have hpresented : (s.present text).2.scene.world = s.scene.world :=
    congrArg Standing.world (present_standing s text)
  unfold presentLast
  split
  · next hended => rwa [hended] at hpresented
  · next hended => rwa [hended] at hpresented

theorem closeWith_world (s : Session) (text : Json) :
    (s.closeWith text).2.scene.world = s.scene.world := by
  unfold closeWith
  split
  · exact presentLast_world s text
  · rfl

@[simp]
theorem openMenu_standing (s : Session) (text : Json) :
    (s.openMenu text).standing = s.standing := by
  unfold openMenu
  dsimp only
  split <;> rfl

@[simp]
theorem consult_standing (s : Session) (turn : Turn) :
    (s.consult turn).2.standing = s.standing := by
  unfold consult
  split
  · split <;> rfl
  · rfl

/-! ## The parts of a session -/

/-- A session that closes with a text has presented it. -/
theorem presentLast_ok {text : Json} (h : s.presentLast text = (.ok (), t)) :
    ∃ shown, s.present text = (.ok (), shown) ∧ t = shown.close := by
  unfold presentLast at h
  split at h
  · cases h
  · next shown hpresented =>
    cases h
    exact ⟨shown, hpresented, rfl⟩

/-- The run of a body rolls dice and changes nothing else. -/
theorem runBody_ok {body : List Statement} {turn : Turn} (h : s.runBody body = (.ok turn, t)) :
    ∃ w, Walk.run s.scene.env (some s.speaker.id) s.dice body = (.ok turn, w) ∧
      t.standing = { s.standing with dice := w.dice } := by
  rw [runBody] at h
  generalize Walk.run s.scene.env (some s.speaker.id) s.dice body = answer at h ⊢
  obtain ⟨answer, w⟩ := answer
  cases h
  exact ⟨w, rfl, rfl⟩

/-- A commit settles its turn. -/
theorem commit_ok {turn left : Turn} {text : Json} (h : s.commit turn = (.ok (text, left), t)) :
    ∃ result, s.parties.settle turn s.scene.world = (.ok result, t.scene.world) ∧
      t.standing = { s.standing with
        world := t.scene.world, refused := s.outcome.refused || result.isRefused } ∧
      left.options = turn.options ∧ left.ended = turn.ended := by
  -- Options and closing are read off the turn that the commit answers, so they have to be followed
  -- through it.
  have hleft := s.parties.commit_left turn s.scene
  rw [commit] at h
  rcases hcommit : s.parties.commit turn s.scene with ⟨answer, left', after⟩
  rw [hcommit] at h hleft
  have hsettle := Parties.commit_settle hcommit
  cases answer with
  | error fault => cases h
  | ok result =>
    -- Showing the outcome replaces placeholders, which changes nothing that decides anything.
    have hshown : (({ s with scene := after } : Session).shownText left' result).2.standing =
        { s.standing with
          world := after.world, refused := s.outcome.refused || result.isRefused } := by
      cases result with
      | refused =>
        rw [shownText, substituteLine_standing]
        simp [standing, CommitResult.isRefused, parties]
      | committed written =>
        rw [shownText, substituteLine_standing]
        simp [standing, CommitResult.isRefused, parties]
    dsimp only at h
    generalize ({ s with scene := after } : Session).shownText left' result = shown at h hshown
    obtain ⟨shown, s'⟩ := shown
    cases shown with
    | error fault => cases h
    | ok shown =>
      cases h
      have hworld : s'.scene.world = after.world := congrArg Standing.world hshown
      rw [hworld]
      have hsame : left = { turn with stage := left.stage } := hleft
      refine ⟨result, hsettle, hshown, ?_, ?_⟩
      · rw [hsame]
      · rw [hsame]

/-- What concludes a session without a menu leaves the world alone. -/
theorem conclude_ok {text : Json} {turn : Turn} (h : s.conclude text turn = (.ok (), t)) :
    t.scene.world = s.scene.world := by
  -- The turn-away line is worded like any other line.
  have hclosing : (s.closingText text turn).2.standing = s.standing := by
    rw [closingText]
    split
    · exact substituteLine_standing s _
    · rfl
  rw [conclude_eq] at h
  generalize s.closingText text turn = answer at h hclosing
  obtain ⟨answer, s'⟩ := answer
  cases answer with
  | error fault => cases h
  | ok text =>
    have hended := closeWith_world s' text
    rw [show s'.closeWith text = (.ok (), t) from h] at hended
    exact hended.trans (congrArg Standing.world hclosing)

/-- Naming the entries of a menu speaks their labels. -/
theorem entriesFor_ok {index : Nat} {choices : List Choice} {menu : List MenuEntry}
    (h : s.entriesFor index choices = (.ok menu, t)) :
    t.standing = { s.standing with dice := s.dice.afterAll (choices.map Choice.label) } := by
  induction choices generalizing s index menu with
  | nil =>
    cases h
    rfl
  | cons choice rest ih =>
    rw [entriesFor] at h
    dsimp only at h
    -- The label is spoken, which rolls dice, and then worded, which does not.
    have hlabel := substitute_standing { s with dice := (s.dice.speak choice.label).2 }
      (s.dice.speak choice.label).1
    generalize ({ s with dice := (s.dice.speak choice.label).2 } : Session).substitute
      (s.dice.speak choice.label).1 = labelled at h hlabel
    obtain ⟨answer, s'⟩ := labelled
    cases answer with
    | error fault => cases h
    | ok label =>
      dsimp only at h hlabel
      rcases hrest : s'.entriesFor (index + 1) rest with ⟨answer, s''⟩
      rw [hrest] at h
      cases answer with
      | error fault => cases h
      | ok more =>
        cases h
        have hdice : s'.dice = (s.dice.speak choice.label).2 := congrArg Standing.dice hlabel
        rw [ih hrest, hlabel, hdice]
        rfl

/-- A menu has room for the first options. -/
theorem buildMenu_ok {options : List Choice} (h : s.buildMenu options = (.ok (), t)) :
    t.standing = { s.standing with
      options := options.take menuRoom
      dice := s.dice.afterAll ((options.take menuRoom).map Choice.label) } := by
  simp only [buildMenu] at h
  split at h
  · cases h
  · next menu s' hentries =>
    cases h
    have hstanding := entriesFor_ok hentries
    rw [show standing { s' with menu, outcome := { s'.outcome with menu } } = s'.standing from rfl,
      hstanding]
    -- A menu that is too long is noted and cut.
    split <;> rfl

/-- While a menu is shown the presenter makes its writes, and then it gives the next answer. -/
theorem presentMenu_ok {text : Json} {answer : MenuAnswer}
    (h : s.presentMenu text = (.ok answer, t)) :
    ∃ env, writeAll s.scene.env s.presenter.writes = (.ok (), env) ∧
      answer = s.presenter.answers.headD .cancel ∧
      t.standing = { s.standing with
        world := ⟨env, s.scene.economy⟩, answers := s.presenter.answers.tail } := by
  simp only [presentMenu] at h
  split at h
  · cases h
  · next env hwrites =>
    obtain ⟨hreply, rfl⟩ := Prod.mk.inj h
    exact ⟨env, hwrites, Presenter.eq_of_reply hreply, rfl⟩

/-- Consent is as the presenter answers, and is given where nothing is asked. -/
theorem consult_ok {turn : Turn} {agrees : Bool} (h : s.consult turn = (.ok agrees, t)) :
    (agrees = false ↔ s.asksFor turn = true ∧ s.presenter.confirms = false) ∧
      t.standing = s.standing := by
  have hstanding := consult_standing s turn
  rw [h] at hstanding
  refine ⟨?_, hstanding⟩
  unfold consult at h
  split at h
  · next hasks =>
    split at h
    · cases h
    · have hanswer : agrees = s.presenter.confirms := Presenter.eq_of_reply (congrArg Prod.fst h)
      rw [hanswer, and_iff_right hasks]
  · next hfree =>
    cases h
    exact iff_of_false Bool.noConfusion fun hno => hfree hno.1

/-! ## The law -/

/-- The player declines what a turn costs. -/
def Declines (s : Session) (turn : Turn) : Prop :=
  s.config.confirmPurchases.isTruthy = true ∧ turn.spendTotal ≠ 0 ∧ s.presenter.confirms = false

/-- The root of a session was run once and its turn committed, which led to a world. -/
structure Opens (s : Session) (root : Turn) (dice : Dice) (result : CommitResult)
    (first : World) : Prop where
  /-- The turn is that of the script's body. -/
  run : ∃ w, w.dice = dice ∧
    Walk.run s.scene.env (some s.speaker.id) s.dice s.script.body = (.ok root, w)
  commit : s.parties.settle root s.scene.world = (.ok result, first)
  /-- A refused root keeps all variables and items. -/
  refused : result = .refused → s.scene.world.Kept first
  /-- The bodies of options play no part in this: without them the same turn is committed. -/
  bodies : (∃ w, w.dice = dice ∧ Walk.run s.scene.env (some s.speaker.id) s.dice
      (Statement.bareBody s.script.body) = (.ok root.bare, w)) ∧
    s.parties.settle root.bare s.scene.world = (.ok result, first)

/-- How a session goes on after the answer to a menu of options, from the world in which the menu
closed to the world at the end. -/
inductive Follows (s : Session) (answer : MenuAnswer) (dice : Dice) (options : List Choice)
    (menu : World) : World → Prop
  /-- The answer chooses no option. -/
  | notChosen (h : answer.choice? options = none) : Follows s answer dice options menu menu
  /-- The body of the chosen option was run, and the player declined what it costs. -/
  | declined {choice : Choice} {turn : Turn} {w : Walk}
      (hchoice : answer.choice? options = some choice)
      (hrun : Walk.run menu.env (some s.speaker.id) dice choice.body = (.ok turn, w))
      (hdeclines : s.Declines turn) : Follows s answer dice options menu menu
  /-- The body of the chosen option was run, and its commit was refused. -/
  | refused {choice : Choice} {turn : Turn} {w : Walk} {last : World}
      (hchoice : answer.choice? options = some choice)
      (hrun : Walk.run menu.env (some s.speaker.id) dice choice.body = (.ok turn, w))
      (hagrees : ¬ s.Declines turn)
      (hcommit : s.parties.settle turn menu = (.ok .refused, last))
      (hkept : menu.Kept last) : Follows s answer dice options menu last
  /-- The body of the chosen option was run and committed. -/
  | committed {choice : Choice} {turn : Turn} {w : Walk} {written : List (String × Value)}
      {last : World}
      (hchoice : answer.choice? options = some choice)
      (hrun : Walk.run menu.env (some s.speaker.id) dice choice.body = (.ok turn, w))
      (hagrees : ¬ s.Declines turn)
      (hcommit : s.parties.settle turn menu = (.ok (.committed written), last)) :
      Follows s answer dice options menu last

/-- How a session goes on after an answer depends on its parties, its settings and its presenter's
consent. -/
theorem Follows.congr {answer : MenuAnswer} {dice : Dice} {options : List Choice}
    {menu last : World} (h : t.Follows answer dice options menu last)
    (hparties : t.parties = s.parties) (hconfig : t.config = s.config)
    (hconfirms : t.presenter.confirms = s.presenter.confirms) :
    s.Follows answer dice options menu last := by
  have hspeaker : some t.speaker.id = some s.speaker.id := congrArg Parties.npc hparties
  have hdeclines : ∀ turn, t.Declines turn ↔ s.Declines turn := by
    intro turn
    rw [Declines, Declines, hconfig, hconfirms]
  cases h with
  | notChosen h => exact .notChosen h
  | declined hchoice hrun hno =>
    -- The speaker is one of the parties: a commit is made in the speaker's name.
    rw [hspeaker] at hrun
    exact .declined hchoice hrun ((hdeclines _).1 hno)
  | refused hchoice hrun hagrees hcommit hkept =>
    rw [hspeaker] at hrun
    rw [hparties] at hcommit
    exact .refused hchoice hrun (mt (hdeclines _).2 hagrees) hcommit hkept
  | committed hchoice hrun hagrees hcommit =>
    rw [hspeaker] at hrun
    rw [hparties] at hcommit
    exact .committed hchoice hrun (mt (hdeclines _).2 hagrees) hcommit

/-- The turn of the chosen option is committed once. -/
theorem settle_ok {turn : Turn} (h : s.settle turn = (.ok (), t)) :
    ∃ result, s.parties.settle turn s.scene.world = (.ok result, t.scene.world) := by
  unfold settle at h
  split at h
  · cases h
  · next text left settled hcommit =>
    obtain ⟨result, hsettle, -⟩ := commit_ok hcommit
    have hended := closeWith_world settled text
    rw [h] at hended
    exact ⟨result, hended ▸ hsettle⟩

/-- The chosen option is run, and declined or committed once. -/
theorem resolve_ok {index : Nat} {choice : Choice} (h : s.resolve index choice = (.ok (), t)) :
    ∃ turn w, Walk.run s.scene.env (some s.speaker.id) s.dice choice.body = (.ok turn, w) ∧
      (s.Declines turn ∧ t.scene.world = s.scene.world ∨
        ¬ s.Declines turn ∧ ∃ result,
          s.parties.settle turn s.scene.world = (.ok result, t.scene.world)) := by
  rw [resolve_eq, execute] at h
  split at h
  · cases h
  · next turn ran hran =>
    obtain ⟨w, hwalk, hstanding⟩ := runBody_ok hran
    refine ⟨turn, w, hwalk, ?_⟩
    rcases hconsulted : ran.consult turn with ⟨fault | agrees, asked⟩
    · rw [hconsulted] at h
      cases h
    · rw [hconsulted] at h
      obtain ⟨hagrees, hasked⟩ := consult_ok hconsulted
      -- To ask for consent changes nothing but what was shown.
      have hsame := hasked.trans hstanding
      have hparties : asked.parties = s.parties := congrArg Standing.parties hsame
      have hworld : asked.scene.world = s.scene.world := congrArg Standing.world hsame
      have hconfig : ran.config = s.config := congrArg Standing.config hstanding
      have hconfirms : ran.presenter.confirms = s.presenter.confirms :=
        congrArg Standing.confirms hstanding
      have hdeclines : agrees = false ↔ s.Declines turn := by
        rw [hagrees, asksFor, hconfig, hconfirms]
        simp [Declines, and_assoc]
      cases agrees with
      | false =>
        cases h
        exact .inl ⟨hdeclines.1 rfl, hworld⟩
      | true =>
        obtain ⟨result, hsettle⟩ := settle_ok h
        rw [hparties, hworld] at hsettle
        exact .inr ⟨mt hdeclines.2 Bool.noConfusion, result, hsettle⟩

/-- Only a valid place in the menu chooses an option. -/
theorem choice?_eq (s : Session) (answer : MenuAnswer) :
    answer.choice? s.options = (s.chosenIndex? answer).bind fun n => s.options[n]? := by
  match answer with
  | .cancel => rfl
  | .reply (.int (.ofNat n)) =>
    rw [MenuAnswer.choice?, chosenIndex?]
    split
    · rfl
    · next hn => simp [List.getElem?_eq_none (Nat.le_of_not_lt hn)]
  | .reply (.int (.negSucc n)) => rfl
  | .reply .null => rfl
  | .reply (.bool b) => rfl
  | .reply (.float x) => rfl
  | .reply (.str text) => rfl
  | .reply (.list items) => rfl
  | .reply (.object fields) => rfl

/-- A session that returns goes on as its answer says. -/
theorem follow_ok {answer : MenuAnswer} (h : s.follow answer = (.ok (), t)) :
    s.Follows answer s.dice s.options s.scene.world t.scene.world := by
  have hplace := choice?_eq s answer
  -- Choosing nothing and an answer that is no place in the menu end the session alike.
  rw [follow.eq_def] at h
  split at h
  · next _ index hindex =>
    rw [hindex, Option.bind_some] at hplace
    split at h
    · next choice hchoice =>
      rw [hchoice] at hplace
      rcases resolve_ok h with ⟨turn, w, hrun, ⟨hno, hworld⟩ | ⟨hagrees, result, hsettle⟩⟩
      · rw [hworld]
        exact .declined hplace hrun hno
      · cases result with
        | refused =>
          exact .refused hplace hrun hagrees hsettle (Parties.kept_of_refused hsettle)
        | committed written => exact .committed hplace hrun hagrees hsettle
    · next hnone =>
      cases h
      exact .notChosen (hplace.trans hnone)
  · next hindex =>
    cases h
    rw [hindex] at hplace
    exact .notChosen hplace
  · next hindex =>
    cases h
    rw [hindex] at hplace
    exact .notChosen hplace

/-- Once a menu is shown the writes of the presenter are made, and then the session goes on as the
presenter answers. -/
theorem offer_ok {text : Json} {options : List Choice} (h : s.offer text options = (.ok (), t)) :
    ∃ env, writeAll s.scene.env s.presenter.writes = (.ok (), env) ∧
      s.Follows (s.presenter.answers.headD .cancel)
        (s.dice.afterAll ((options.take menuRoom).map Choice.label)) (options.take menuRoom)
        ⟨env, s.scene.economy⟩ t.scene.world := by
  rw [offer_eq] at h
  split at h
  · cases h
  · next built hbuilt =>
    -- The entries are made known and the text is shown before the menu opens.
    have hstanding := openMenu_standing built text
    generalize built.openMenu text = ready at h hstanding
    rw [buildMenu_ok hbuilt] at hstanding
    split at h
    · cases h
    · next answer opened hmenu =>
      obtain ⟨env, hwrites, rfl, hopened⟩ := presentMenu_ok hmenu
      have hworld : ready.scene.world = s.scene.world := congrArg Standing.world hstanding
      have henv : ready.scene.env = s.scene.env := congrArg World.env hworld
      have hecon : ready.scene.economy = s.scene.economy := congrArg World.economy hworld
      have hready : ready.presenter.writes = s.presenter.writes :=
        congrArg Standing.writes hstanding
      have hanswers : ready.presenter.answers = s.presenter.answers :=
        congrArg Standing.answers hstanding
      rw [henv, hready] at hwrites
      rw [hstanding, hecon] at hopened
      refine ⟨env, hwrites, ?_⟩
      have hfollows := (follow_ok h).congr (s := s) (congrArg Standing.parties hopened)
        (congrArg Standing.config hopened) (congrArg Standing.confirms hopened)
      -- The menu is answered once, with the first of the presenter's answers.
      rw [hanswers, show opened.dice = _ from congrArg Standing.dice hopened,
        show opened.options = _ from congrArg Standing.options hopened,
        show opened.scene.world = _ from congrArg Standing.world hopened] at hfollows
      exact hfollows

/-- The run of the root and its commit open a session. -/
theorem opens_of_commit {root left : Turn} {ran settled : Session} {text : Json}
    (hran : s.runBody s.script.body = (.ok root, ran))
    (hcommit : ran.commit root = (.ok (text, left), settled)) :
    ∃ result, s.Opens root settled.dice result settled.scene.world ∧
      settled.standing = { s.standing with
        world := settled.scene.world
        dice := settled.dice
        refused := s.outcome.refused || result.isRefused } ∧
      left.options = root.options ∧ left.ended = root.ended := by
  obtain ⟨w, hwalk, hrunning⟩ := runBody_ok hran
  obtain ⟨result, hsettle, hsettled, hoptions, hended⟩ := commit_ok hcommit
  have hworld : ran.scene.world = s.scene.world := congrArg Standing.world hrunning
  have hparties : ran.parties = s.parties := congrArg Standing.parties hrunning
  have hrefused : ran.outcome.refused = s.outcome.refused := congrArg Standing.refused hrunning
  have hdice : settled.dice = w.dice :=
    (congrArg Standing.dice hsettled).trans (congrArg Standing.dice hrunning)
  rw [hworld, hparties] at hsettle
  rw [hrunning, hrefused, ← hdice] at hsettled
  refine ⟨result, ?_, hsettled, hoptions, hended⟩
  exact
    { run := ⟨w, hdice.symm, hwalk⟩
      commit := hsettle
      refused := fun hr => Parties.kept_of_refused (hr ▸ hsettle)
      bodies := ⟨⟨w.bare, hdice.symm, Walk.run_bare hwalk⟩,
        (s.parties.settle_bare root _).trans hsettle⟩ }

/-- A session is a transaction. If it returns, its root was run and committed once. Without a menu that
is all that lasts. With a menu the writes made meanwhile last too, and on top of them at most the
commit of the chosen option, if the player agreed to it and could pay for it. -/
theorem run_transaction (hnew : s.outcome = {}) (henabled : s.script.disabled = false)
    (h : s.run = (.ok (), t)) :
    ∃ root dice result first, s.Opens root dice result first ∧
      (root.ended = true ∨ root.options = [] ∨ result = .refused → t.scene.world = first) ∧
      (¬ (root.ended = true ∨ root.options = [] ∨ result = .refused) →
        ∃ env, writeAll first.env s.presenter.writes = (.ok (), env) ∧
          s.Follows (s.presenter.answers.headD .cancel)
            (dice.afterAll ((root.options.take menuRoom).map Choice.label))
            (root.options.take menuRoom) ⟨env, first.economy⟩ t.scene.world) := by
  -- A session that has run already does not run again.
  have hplay : s.play = (.ok (), t) := by
    rw [run] at h
    split at h
    · exact h
    · cases h
  simp only [play] at hplay
  rw [if_neg (by rw [show (s.publish _).script = s.script from rfl, henabled]; simp)] at hplay
  split at hplay
  · cases hplay
  · next root ran hran =>
    split at hplay
    · cases hplay
    · next text left settled hcommit =>
      obtain ⟨result, hopens, hsettled, hoptions, hended⟩ := opens_of_commit hran hcommit
      -- Nothing was refused before, so that the flag tells whether the root was.
      have hrefused : settled.outcome.refused = result.isRefused := by
        calc settled.outcome.refused
            = (s.outcome.refused || result.isRefused) := congrArg Standing.refused hsettled
          _ = result.isRefused := by rw [hnew]; rfl
      have hnomenu : (left.ended || left.options.isEmpty ||
          (settled.enter .presenting).outcome.refused) = true ↔
          root.ended = true ∨ root.options = [] ∨ result = .refused := by
        show (left.ended || left.options.isEmpty || settled.outcome.refused) = true ↔ _
        rw [hended, hoptions, hrefused]
        cases result <;> simp [CommitResult.isRefused]
      refine ⟨root, settled.dice, result, settled.scene.world,
        ⟨hopens.run, hopens.commit, hopens.refused, hopens.bodies⟩, ?_, ?_⟩
      · intro hclosed
        rw [if_pos (hnomenu.2 hclosed)] at hplay
        have hlast := conclude_ok hplay
        exact hlast
      · intro hmenu
        rw [if_neg (mt hnomenu.1 hmenu)] at hplay
        -- What is offered is what the root gathered; the presenter is still the one of the start.
        obtain ⟨env, hwrites, hfollows⟩ := offer_ok hplay
        have hpresenter : settled.presenter.writes = s.presenter.writes :=
          congrArg Standing.writes hsettled
        have hanswers : settled.presenter.answers = s.presenter.answers :=
          congrArg Standing.answers hsettled
        refine ⟨env, ?_, ?_⟩
        · rw [← hpresenter]
          exact hwrites
        · rw [← hanswers, ← hoptions]
          exact hfollows.congr (congrArg Standing.parties hsettled)
            (congrArg Standing.config hsettled) (congrArg Standing.confirms hsettled)

/-- A player with ten coins chooses to buy something for four. -/
def purchase : Session :=
  .start { archetype := "smith", body := [.option [.run "Buy"] none [.spend 4]] }
    { id := "holt", archetype := "smith" } none {} { answers := [.reply (.int 0)] }
    { source := .scripted [] } { env := .purse 10, economy := some (.wallet {}) }

/-- The purchase returns, and is a transaction. -/
theorem run_transaction_of_purchase :
    purchase.outcome = {} ∧ purchase.script.disabled = false ∧
    ∃ t, purchase.run = (.ok (), t) ∧ ∃ root dice result first,
      purchase.Opens root dice result first ∧
      (root.ended = true ∨ root.options = [] ∨ result = .refused → t.scene.world = first) ∧
      (¬ (root.ended = true ∨ root.options = [] ∨ result = .refused) →
        ∃ env, writeAll first.env purchase.presenter.writes = (.ok (), env) ∧
          purchase.Follows (purchase.presenter.answers.headD .cancel)
            (dice.afterAll ((root.options.take menuRoom).map Choice.label))
            (root.options.take menuRoom) ⟨env, first.economy⟩ t.scene.world) := by
  have hreturns : (purchase.run.1.toOption.map fun _ => true) = some true := by decide +kernel
  obtain ⟨_, hanswer, -⟩ := exists_of_toOption_map hreturns
  have hrun : purchase.run = (.ok (), purchase.run.2) := Prod.ext hanswer rfl
  exact ⟨rfl, rfl, purchase.run.2, hrun, run_transaction rfl rfl hrun⟩

end Session

end Parley
