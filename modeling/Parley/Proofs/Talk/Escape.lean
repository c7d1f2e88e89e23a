import Parley.Proofs.Talk.Transaction
import Parley.Proofs.Talk.Wallet

/-!
# Faults That Escape a Session

Scripts recover from refused writes and from values without an order. A session does not: whatever
fault a commit fails with ends it. We prove that one such fault is left, the refusal of a payment as a
write of the wallet's variable, and say when it can occur.

* `Session.play_contained`: a session without writes from outside ends with final faults only;
* `Session.play_unsound`: where the wallet is not sound, a session that buys something is refused the
  wallet's variable;
* `Session.recoverable_escapes_iff`: the two together, for all sessions of parsed scripts.
-/

namespace Parley.Session

variable {w : Wallet} {env : Environment} {s t : Session} {turn : Turn}

/-! ## The parts of a session -/

/-- A session still has the wallet of an earlier one, and nothing but its commits writes. -/
structure Calm (w : Wallet) (env : Environment) (s : Session) : Prop where
  world : s.scene.world.Carries w env
  quiet : s.presenter.writes = []

/-- Calm depends on the standing alone. -/
theorem Calm.congr (h : s.Calm w env) (hsame : t.standing = s.standing) : t.Calm w env := by
  have hworld : t.scene.world = s.scene.world := congrArg Standing.world hsame
  have hwrites : t.presenter.writes = s.presenter.writes := congrArg Standing.writes hsame
  exact ⟨hworld ▸ h.world, hwrites.trans h.quiet⟩

/-- A calm session is calm at its end. -/
theorem Calm.close (h : s.Calm w env) : s.close.Calm w env :=
  ⟨h.world, h.quiet⟩

/-- So is one in which nothing is chosen. -/
theorem Calm.cancel (h : s.Calm w env) : s.cancel.Calm w env :=
  ⟨h.world, h.quiet⟩

/-- The presenter's own faults are final. -/
theorem reply_contained {α : Type} (h : s.Calm w env) (answer : α) :
    Contained w env (Calm w env) (s.presenter.reply answer, s) := by
  unfold Presenter.reply
  split
  · exact .error False.elim h
  · exact .ok h

/-- To present a text fails with a fault of the presenter only. -/
theorem present_contained (h : s.Calm w env) (text : Json) :
    Contained w env (Calm w env) (s.present text) := by
  have hasked : (s.ask (.text s.phase text)).Calm w env := ⟨h.world, h.quiet⟩
  have hreply := reply_contained hasked ()
  unfold present
  dsimp only
  split
  · next hended => exact .error (hreply.fault _ hended) hasked
  · exact .ok ⟨h.world, h.quiet⟩

/-- To close with a text fails no other way. -/
theorem presentLast_contained (h : s.Calm w env) (text : Json) :
    Contained w env (Calm w env) (s.presentLast text) := by
  rw [presentLast]
  rcases (present_contained h text).ended with
    ⟨fault, left, hended, hfinal, hleft⟩ | ⟨_, left, hended, hleft⟩
  · rw [hended]
    exact .error hfinal hleft
  · rw [hended]
    exact .ok hleft.close

/-- Nor does closing with a text that may be left out. -/
theorem closeWith_contained (h : s.Calm w env) (text : Json) :
    Contained w env (Calm w env) (s.closeWith text) := by
  unfold closeWith
  split
  · exact presentLast_contained h text
  · exact .ok h.close

/-- A body ends with final faults only: it recovers from the others itself. -/
theorem runBody_contained (h : s.Calm w env) (body : List Statement) :
    Contained w env (Calm w env) (s.runBody body) := by
  have hrun := Walk.run_answers s.scene.env (some s.speaker.id) s.dice body
  rw [runBody]
  generalize Walk.run s.scene.env (some s.speaker.id) s.dice body = ran at hrun ⊢
  obtain ⟨answer, walk⟩ := ran
  refine ⟨?_, h.world, h.quiet⟩
  rintro fault rfl
  exact fun hrecoverable => absurd hrecoverable hrun.not_isRecoverable

/-- What a body stages is admitted by the manifest. -/
theorem runBody_admitted {body : List Statement} (h : s.Calm w env)
    (hran : s.runBody body = (.ok turn, t)) : turn.stage.Admitted env.manifest := by
  obtain ⟨walk, hwalk, -⟩ := runBody_ok hran
  have hmanifest : s.scene.env.manifest = env.manifest := h.world.manifest
  exact hmanifest ▸ (Walk.run_admitted hwalk).2

/-- A text whose placeholders cannot be replaced is a final fault. -/
theorem substitute_contained (h : s.Calm w env) (text : String) :
    Contained w env (Calm w env) (s.substitute text) := by
  have hshown : Contained w env (fun _ => True) (s.scene.substitute (some s.lore) text) :=
    s.scene.substitute_contained (some s.lore) text trivial
  exact ⟨hshown.fault, h.congr (substitute_standing s text)⟩

/-- So is the line of a setting in which they cannot be searched for. -/
theorem substituteLine_contained (h : s.Calm w env) (line : Json) :
    Contained w env (Calm w env) (s.substituteLine line) := by
  rw [substituteLine.eq_def]
  split
  · exact (substitute_contained h _).map
  · split
    · exact .ok h
    · exact .error False.elim h

/-- To word the outcome of a commit fails no other way. -/
theorem shownText_contained (h : s.Calm w env) (turn : Turn) (result : CommitResult) :
    Contained w env (Calm w env) (s.shownText turn result) := by
  cases result with
  | refused =>
    have hrefused : Calm w env { s with outcome := { s.outcome with refused := true } } :=
      ⟨h.world, h.quiet⟩
    exact substituteLine_contained hrefused _
  | committed written => exact substituteLine_contained h (.str turn.text)

/-- The commit of an admitted turn fails with final faults, or as an unsound wallet is refused. -/
theorem commit_contained (h : s.Calm w env) (hadmitted : turn.stage.Admitted env.manifest) :
    Contained w env (Calm w env) (s.commit turn) := by
  rw [commit]
  rcases (s.parties.commit_contained h.world hadmitted).ended with
    ⟨fault, left, hended, hfinal, hleft⟩ | ⟨result, left, hended, hleft⟩
  · rw [hended]
    exact .error hfinal ⟨hleft, h.quiet⟩
  · rw [hended]
    have hcalm : Calm w env { s with scene := left.2 } := ⟨hleft, h.quiet⟩
    exact (shownText_contained hcalm left.1 result).map

/-- So does what follows it without a menu. -/
theorem conclude_contained (h : s.Calm w env) (text : Json) (turn : Turn) :
    Contained w env (Calm w env) (s.conclude text turn) := by
  have hclosing : Contained w env (Calm w env) (s.closingText text turn) := by
    rw [closingText]
    split
    · exact substituteLine_contained h _
    · exact .ok h
  rw [conclude_eq]
  rcases hclosing.ended with ⟨fault, left, hended, hfinal, hleft⟩ | ⟨text, left, hended, hleft⟩
  · rw [hended]
    exact .error hfinal hleft
  · rw [hended]
    exact closeWith_contained hleft text

/-- To label options fails only where a label cannot be worded. -/
theorem entriesFor_contained (h : s.Calm w env) (index : Nat) (choices : List Choice) :
    Contained w env (Calm w env) (s.entriesFor index choices) := by
  induction choices generalizing s index with
  | nil => exact .ok h
  | cons choice rest ih =>
    have hspoken : Calm w env { s with dice := (s.dice.speak choice.label).2 } := ⟨h.world, h.quiet⟩
    rw [entriesFor]
    dsimp only
    rcases (substitute_contained hspoken (s.dice.speak choice.label).1).ended with
      ⟨fault, next, hended, hfinal, hnext⟩ | ⟨label, next, hended, hnext⟩
    · rw [hended]
      exact .error hfinal hnext
    · rw [hended]
      dsimp only
      rcases (ih hnext (index + 1)).ended with
        ⟨fault, after, hrest, hfinal, hafter⟩ | ⟨more, after, hrest, hafter⟩
      · rw [hrest]
        exact .error hfinal hafter
      · rw [hrest]
        exact .ok hafter

/-- To build a menu fails no other way. -/
theorem buildMenu_contained (h : s.Calm w env) (options : List Choice) :
    Contained w env (Calm w env) (s.buildMenu options) := by
  rw [buildMenu]
  dsimp only
  -- A menu that is too long is noted and cut.
  have hcut : Calm w env { s with
      scene := if menuRoom < options.length
        then s.scene.noteAll [.menuTooLong s.script.archetype menuRoom] else s.scene
      options := options.take menuRoom } := by
    refine ⟨?_, h.quiet⟩
    dsimp only
    split <;> exact h.world
  rcases (entriesFor_contained hcut 0 (options.take menuRoom)).ended with
    ⟨fault, left, hended, hfinal, hleft⟩ | ⟨menu, left, hended, hleft⟩
  · rw [hended]
    exact .error hfinal hleft
  · rw [hended]
    exact .ok ⟨hleft.world, hleft.quiet⟩

/-- While the menu of a calm session is open nobody writes, so that only the presenter can fail. -/
theorem presentMenu_contained (h : s.Calm w env) (text : Json) :
    Contained w env (Calm w env) (s.presentMenu text) := by
  rw [presentMenu]
  dsimp only
  rw [show (s.ask (.menu s.phase text s.menu)).presenter.writes = [] from h.quiet]
  have hasked : (s.ask (.menu s.phase text s.menu)).Calm w env := ⟨h.world, h.quiet⟩
  exact ⟨(reply_contained hasked _).fault, h.world, rfl⟩

/-- To ask for consent fails only if the presenter does, or if the price cannot be written. -/
theorem consult_contained (h : s.Calm w env) (turn : Turn) :
    Contained w env (Calm w env) (s.consult turn) := by
  have hasked : ∀ prompt, (s.ask (.confirm s.phase prompt)).Calm w env := fun _ => ⟨h.world, h.quiet⟩
  unfold consult
  split
  · split
    · exact .error False.elim h
    · exact reply_contained (hasked _) _
  · exact .ok h

/-- The turn of the chosen option is committed like that of the root. -/
theorem settle_contained (h : s.Calm w env) (hadmitted : turn.stage.Admitted env.manifest) :
    Contained w env (Calm w env) (s.settle turn) := by
  have hcommit := commit_contained (h.congr (enter_standing s .resolving)) hadmitted
  rw [settle]
  rcases hcommit.ended with
    ⟨fault, after, hcommitted, hfinal, hafter⟩ | ⟨shown, after, hcommitted, hafter⟩
  · rw [hcommitted]
    exact .error hfinal hafter
  · rw [hcommitted]
    exact closeWith_contained hafter shown.1

/-- The body of the chosen option is contained, whether or not the player agrees to it. -/
theorem execute_contained (h : s.Calm w env) (body : List Statement) :
    Contained w env (Calm w env) (s.execute body) := by
  rw [execute]
  rcases (runBody_contained h body).ended with
    ⟨fault, ran, hran, hfinal, hleft⟩ | ⟨turn, ran, hran, hleft⟩
  · rw [hran]
    exact .error hfinal hleft
  · rw [hran]
    dsimp only
    rcases (consult_contained hleft turn).ended with
      ⟨fault, asked, hconsulted, hfinal, hasked⟩ | ⟨agrees, asked, hconsulted, hasked⟩
    · rw [hconsulted]
      exact .error hfinal hasked
    · rw [hconsulted]
      cases agrees with
      | false => exact .ok hasked.cancel
      | true => exact settle_contained hasked (runBody_admitted h hran)

/-- Whatever the answer to a menu is, what follows is contained. -/
theorem follow_contained (h : s.Calm w env) (answer : MenuAnswer) :
    Contained w env (Calm w env) (s.follow answer) := by
  rw [follow.eq_def]
  split
  · split
    · next index _ _ choice _ =>
      have hchosen : (s.choose index).Calm w env := ⟨h.world, h.quiet⟩
      exact execute_contained hchosen choice.body
    · exact .ok h.cancel
  · exact .ok h.cancel
  · exact .ok (Calm.cancel ⟨h.world, h.quiet⟩)

/-- So is a menu with all that follows. -/
theorem offer_contained (h : s.Calm w env) (text : Json) (options : List Choice) :
    Contained w env (Calm w env) (s.offer text options) := by
  rw [offer_eq]
  rcases (buildMenu_contained h options).ended with
    ⟨fault, built, hbuilt, hfinal, hleft⟩ | ⟨_, built, hbuilt, hleft⟩
  · rw [hbuilt]
    exact .error hfinal hleft
  · rw [hbuilt]
    dsimp only
    rcases (presentMenu_contained (hleft.congr (openMenu_standing built text)) text).ended with
      ⟨fault, shown, hasked, hfinal, hshown⟩ | ⟨answer, shown, hasked, hshown⟩
    · rw [hasked]
      exact .error hfinal hshown
    · rw [hasked]
      exact follow_contained hshown answer

/-- The root and its commit are contained. -/
theorem settleRoot_contained (h : s.Calm w env) : Contained w env (Calm w env) s.settleRoot := by
  rw [settleRoot]
  rcases (runBody_contained h s.script.body).ended with
    ⟨fault, ran, hran, hfinal, hleft⟩ | ⟨turn, ran, hran, hleft⟩
  · rw [hran]
    exact .error hfinal hleft
  · rw [hran]
    exact commit_contained hleft (runBody_admitted h hran)

/-- A session ends with final faults only. -/
theorem play_contained (h : s.Calm w env) : Contained w env (Calm w env) s.play := by
  have hstarted : s.started.Calm w env := h.congr (publish_standing s _)
  rw [play_eq]
  split
  · exact presentLast_contained (hstarted.congr (enter_standing s.started .presenting)) _
  · rcases (settleRoot_contained hstarted).ended with
      ⟨fault, after, hroot, hfinal, hafter⟩ | ⟨shown, after, hroot, hafter⟩
    · rw [hroot]
      exact .error hfinal hafter
    · rw [hroot]
      dsimp only
      have hshowing := hafter.congr (enter_standing after .presenting)
      unfold proceed
      split
      · exact conclude_contained hshowing _ _
      · exact offer_contained hshowing _ _

/-! ## Unsound wallets -/

/-- A session passes on the fault of its commit. -/
theorem commit_error {fault : Fault} (h : (s.parties.commit turn s.scene).1 = .error fault) :
    (s.commit turn).1 = .error fault := by
  rw [commit]
  generalize s.parties.commit turn s.scene = committed at h ⊢
  obtain ⟨answer, left, scene⟩ := committed
  cases h
  rfl

/-- A session whose script is a purchase, with a wallet that shows the money for it and whose variable
cannot be written, ends with the refusal of the payment. -/
theorem play_unsound {w : Wallet} {name : String} (hbody : s.script.body = [.spend 1])
    (henabled : s.script.disabled = false) (hscene : s.scene.economy = some (.wallet w))
    (hname : w.variableName = some name) (hfunds : 0 < w.balance s.scene.env)
    (hadmits : ¬ s.scene.env.manifest.Admits none name (.int 0)) :
    ∃ cause, s.play.1 = .error (.scope ⟨name, cause⟩) := by
  -- The root asks for one coin and does nothing else.
  obtain ⟨turn, ran, hran, htotal, henv, hecon⟩ : ∃ turn ran,
      (s.publish (.sessionStarted s.script.archetype)).runBody [.spend 1] = (.ok turn, ran) ∧
        turn.spendTotal = 1 ∧ ran.scene.env = s.scene.env ∧ ran.scene.economy = s.scene.economy :=
    ⟨_, _, rfl, rfl, rfl, rfl⟩
  have hpaid : (turn.spendTotal : Int) ≤ w.balance ran.scene.env := by
    rw [htotal, henv]
    exact hfunds
  obtain ⟨cause, hrefused⟩ := ran.parties.commit_unsound hname (henv ▸ hadmits)
    (by rw [htotal]; exact Nat.one_ne_zero) hpaid (hecon.trans hscene)
  have hcommit := commit_error hrefused
  refine ⟨cause, ?_⟩
  rw [play]
  dsimp only
  rw [if_neg (by rw [show (s.publish _).script = s.script from rfl, henabled]; simp),
    show (s.publish _).script.body = [.spend 1] from hbody, hran]
  dsimp only
  generalize ran.commit turn = committed at hcommit ⊢
  obtain ⟨answer, left⟩ := committed
  cases hcommit
  rfl

/-- What a statement charges, if that is all it does. -/
def amount? : Statement → Option Nat
  | .spend amount => some amount
  | _ => none

theorem eq_spend_of_amount? {statement : Statement} {amount : Nat}
    (h : amount? statement = some amount) : statement = .spend amount := by
  cases statement with
  | spend n => exact congrArg Statement.spend (Option.some.inj h)
  | _ => cases h

/-- A purchase of nothing but for its price. -/
theorem parse_purchase : ∃ script, Script.parse "(spend 1)" "npc" = .ok script ∧
    script.body = [.spend 1] ∧ script.disabled = false := by
  have hread : ((Script.parse "(spend 1)" "npc").toOption.map fun script =>
      (script.body.map amount?, script.disabled)) = some ([some 1], false) := by decide +kernel
  obtain ⟨script, hparse, hscript⟩ := exists_of_toOption_map hread
  obtain ⟨hamounts, henabled⟩ := Prod.mk.inj hscript
  obtain ⟨statement, hbody, hamount⟩ := List.map_eq_singleton_iff.1 hamounts
  exact ⟨script, hparse, hbody.trans (congrArg ([·]) (eq_spend_of_amount? hamount)), henabled⟩

/-- With a wallet some session of a parsed script ends with a fault that scripts recover from, though
its presenter does not write. -/
def Escapes (w : Wallet) (speaker : Speaker) (lore : Option Lore) (config : Config) (dice : Dice)
    (scene : Scene) (fault : Fault) : Prop :=
  fault.IsRecoverable ∧ ∃ text archetype source limits script presenter,
    Script.parse text archetype source limits = .ok script ∧ presenter.writes = [] ∧
      (start script speaker lore config presenter dice
        { scene with economy := some (.wallet w) }).run.1 = .error fault

/-- A fault that scripts recover from escapes a session only as the refusal of the wallet's variable.
One does escape exactly if the wallet shows money and its variable cannot be written in nobody's
name. -/
theorem recoverable_escapes_iff (w : Wallet) (speaker : Speaker) (lore : Option Lore)
    (config : Config) (dice : Dice) (scene : Scene) :
    (∀ fault, Escapes w speaker lore config dice scene fault →
        ∃ name cause, w.variableName = some name ∧ fault = .scope ⟨name, cause⟩) ∧
      ((∃ fault, Escapes w speaker lore config dice scene fault) ↔
        0 < w.balance scene.env ∧
          ∀ name, w.variableName = some name → ¬ scene.env.manifest.Admits none name (.int 0)) := by
  have hfinal : ∀ fault, Escapes w speaker lore config dice scene fault →
      ¬ w.IsSound scene.env ∧ ∃ name cause, w.variableName = some name ∧
        fault = .scope ⟨name, cause⟩ := by
    rintro fault ⟨hrecoverable, -, -, -, -, script, presenter, -, hwrites, hrun⟩
    have hcalm : Calm w scene.env (start script speaker lore config presenter dice
        { scene with economy := some (.wallet w) }) := ⟨⟨rfl, ⟨w, rfl, rfl⟩, id⟩, hwrites⟩
    exact (play_contained hcalm).fault fault hrun hrecoverable
  refine ⟨fun fault h => (hfinal fault h).2, ?_⟩
  rw [← Wallet.not_isSound_iff]
  constructor
  · rintro ⟨fault, h⟩
    exact (hfinal fault h).1
  · intro hunsound
    obtain ⟨hfunds, hadmits⟩ := Wallet.not_isSound_iff.1 hunsound
    obtain ⟨script, hparse, hbody, henabled⟩ := parse_purchase
    cases hname : w.variableName with
    | none =>
      -- A wallet without a variable shows no money.
      rw [Wallet.balance, hname] at hfunds
      exact absurd hfunds (Int.lt_irrefl 0)
    | some name =>
      obtain ⟨cause, hplay⟩ := play_unsound (s := start script speaker lore config {} dice
        { scene with economy := some (.wallet w) }) hbody henabled rfl hname hfunds
        (hadmits name hname)
      exact ⟨.scope ⟨name, cause⟩, trivial, _, _, _, _, script, {}, hparse, rfl, hplay⟩

/-- Quest state with ten coins that were restored under a name that nobody declared. -/
def unclaimed : Environment where
  manifest := .empty
  globals := OrderedMap.empty.insert "PLAYER_WALLET" (.value (.int 10))

/-- Money that was restored under a name that nobody declared is shown and cannot be spent: the
refusal ends the session. -/
theorem refusal_escapes_of_unclaimed :
    ∃ script fault, Script.parse "(spend 1)" "npc" = .ok script ∧
      (start script { id := "npc_1", archetype := "npc" } none {} {} { source := .scripted [] }
        { env := unclaimed, economy := some (.wallet {}) }).run.1 = .error fault ∧
      fault.IsRecoverable := by
  obtain ⟨script, hparse, hbody, henabled⟩ := parse_purchase
  have hnot : ¬ unclaimed.manifest.Admits none "PLAYER_WALLET" (.int 0) := by
    rintro ⟨d, hd, -⟩
    cases hd
  have hfunds : 0 < ({} : Wallet).balance unclaimed := by decide
  obtain ⟨cause, hplay⟩ := play_unsound
    (s := start script { id := "npc_1", archetype := "npc" } none {} {} { source := .scripted [] }
      { env := unclaimed, economy := some (.wallet {}) }) hbody henabled rfl rfl hfunds hnot
  exact ⟨script, .scope ⟨_, cause⟩, hparse, hplay, trivial⟩

end Parley.Session
