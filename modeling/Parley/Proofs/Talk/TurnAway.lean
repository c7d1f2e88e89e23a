import Parley.Proofs.Answer
import Parley.Proofs.Talk.Display
import Parley.Proofs.Talk.Transaction
import Parley.Script.Parser

/-!
# Turning the Player Away

A speaker who has nothing to say turns the player away. Whether a root has anything to say is asked
after its commit, which leaves nothing on the stage: variables that were set do not count any more, while
recorded side effects do. We prove:

* `Session.commit_answer`: what a session's commit answers, in terms of the turn that it commits;
* `Session.turnsAway_iff`: the player is turned away by exactly those roots that are not refused and
  have no text, no option, no side effect and no closing statement, whatever they set.
-/

namespace Parley

/-- A stage that was committed is empty. -/
theorem Stage.left_of_commit {stage left : Stage} {env after : Environment}
    {written : List (String × Value)} (h : stage.commit env = (.ok written, after, left)) :
    left = stage.discard := by
  rw [Stage.commit] at h
  split at h
  · cases h
    rfl
  · cases h

namespace Parties

variable {p : Parties} {turn : Turn} {scene : Scene} {result : CommitResult}

theorem left_of_apply (h : (p.apply turn scene).1 = .ok result) :
    (p.apply turn scene).2.1 = { turn with stage := turn.stage.discard } := by
  rw [apply] at h ⊢
  split at h
  · cases h
  · next hcommit =>
    dsimp only at h ⊢
    split at h
    · cases h
    · rw [Stage.left_of_commit hcommit]

/-- A commit that gives an answer leaves nothing on the stage, and the rest of the turn as it is. -/
theorem left_of_commit (h : (p.commit turn scene).1 = .ok result) :
    (p.commit turn scene).2.1 = { turn with stage := turn.stage.discard } := by
  rw [commit] at h ⊢
  by_cases htotal : turn.spendTotal = 0
  · rw [if_pos htotal] at h ⊢
    exact left_of_apply h
  · rw [if_neg htotal] at h ⊢
    split at h
    · cases h
    · rfl
    · exact left_of_apply h

/-- A turn without side effects costs nothing, and its writes are made. -/
theorem settle_of_no_effects {env : Environment} {viewer : Option String} {dice : Dice}
    {body : List Statement} {w : Walk} {world : World}
    (hrun : Walk.run env viewer dice body = (.ok turn, w)) (henv : world.env = env)
    (hnone : turn.effects = []) :
    (p.settle turn world).1 = .ok (.committed turn.stage.pending.entries) := by
  have hadmitted : turn.stage.Admitted world.env.manifest := henv ▸ (Walk.run_admitted hrun).2
  obtain ⟨env', hcommit, -, -⟩ := Stage.commit_of_admitted hadmitted
  have hfree : turn.spendTotal = 0 := by
    rw [Turn.spendTotal, hnone]
    rfl
  rw [settle]
  dsimp only
  rw [commit, if_pos hfree, apply]
  dsimp only
  rw [hcommit, hnone]
  rfl

end Parties

namespace Session

variable {s t : Session}

theorem shownText_answer (s : Session) (turn : Turn) (result : CommitResult) :
    (s.shownText turn result).1 =
      match result with
      | .refused => s.lore.wordLine s.config.cannotAffordLine
      | .committed _ => (s.lore.word turn.text).map .str := by
  cases result with
  | refused => exact substituteLine_answer _ _
  | committed written => exact substituteLine_answer s _

/-- What a commit answers: the text that is to be shown, and the turn with its stage emptied. -/
theorem commit_answer (s : Session) (turn : Turn) :
    (s.commit turn).1 =
      match (s.parties.settle turn s.scene.world).1 with
      | .error fault => .error fault
      | .ok .refused => (s.lore.wordLine s.config.cannotAffordLine).map fun text =>
        (text, { turn with stage := turn.stage.discard })
      | .ok (.committed _) => (s.lore.word turn.text).map fun text =>
        (.str text, { turn with stage := turn.stage.discard }) := by
  rw [commit]
  rcases hcommit : s.parties.commit turn s.scene with ⟨fault | result, left, scene⟩
  · rw [Parties.commit_settle hcommit]
  · rw [Parties.commit_settle hcommit]
    have hleft : left = { turn with stage := turn.stage.discard } := by
      have hstage := Parties.left_of_commit (congrArg Prod.fst hcommit)
      rwa [hcommit] at hstage
    subst hleft
    have hshown := shownText_answer { s with scene } { turn with stage := turn.stage.discard } result
    show Except.map _ (shownText _ _ result).1 = _
    rw [hshown]
    cases result with
    | refused => rfl
    | committed written =>
      -- the text of a turn does not depend on its stage
      show Except.map _ (Except.map _ (s.lore.word turn.text)) = _
      cases s.lore.word turn.text <;> rfl

/-- The root closes its session with its own text, and that is the given line. -/
def ClosesWith (s : Session) (root : Turn) (line : Json) : Prop :=
  (root.ended = true ∨ root.options = []) ∧
    (∃ written, (s.parties.settle root s.scene.world).1 = .ok (.committed written)) ∧
      (s.lore.word root.text).map .str = .ok line

/-- The turn has nothing for the player: no text, no option, no side effect and no closing
statement. -/
structure IsIdleTalk (s : Session) (root : Turn) : Prop where
  text : s.lore.word root.text = .ok ""
  options : root.options = []
  ended : root.ended = false
  effects : root.effects = []

/-- How a session goes on from a root that was committed, with nothing left on its stage. -/
theorem proceed_shows_iff {line : Json} (hphase : s.phase = .presenting)
    (hrefused : s.outcome.refused = false) (hline : s.lore.wordLine s.config.turnAwayLine = .ok line)
    (htruthy : line.isTruthy = true) {left : Turn} (hstage : left.stage.pending.size = 0)
    (text : String) :
    ∃ shown, s.GoesOn (s.proceed (.str text) left).2 shown ∧
      (.text .presenting line ∈ shown ↔
        (text = "" ∧ left.options = [] ∧ left.ended = false ∧ left.effects = []) ∨
          (left.ended = true ∨ left.options = []) ∧ .str text = line) := by
  have hrunning : s.phase ≠ .idle := hphase ▸ Phase.noConfusion
  have hover : s.isOver left = true ↔ left.ended = true ∨ left.options = [] := by
    rw [isOver, hrefused]
    simp
  unfold proceed
  by_cases hmenu : s.isOver left = true
  · rw [if_pos hmenu]
    refine ⟨_, conclude_goesOn hrunning (.str text) left, ?_⟩
    -- recorded side effects are all that can keep the player from being turned away
    have hidle : (!(Json.str text).isTruthy && !left.ended && !left.hasEffects) = true ↔
        text = "" ∧ left.ended = false ∧ left.effects = [] := by
      simp [Turn.hasEffects, hstage, Json.isTruthy, and_assoc]
    unfold closingText
    by_cases hsilent : text = "" ∧ left.ended = false ∧ left.effects = []
    · obtain ⟨hempty, hended, heffects⟩ := hsilent
      have hoptions : left.options = [] :=
        (hover.1 hmenu).resolve_left fun htrue => Bool.false_ne_true (hended.symm.trans htrue)
      rw [if_pos (hidle.2 ⟨hempty, hended, heffects⟩), substituteLine_answer, hline]
      exact iff_of_true (mem_textsOf.2 ⟨htruthy, hphase ▸ rfl⟩)
        (.inl ⟨hempty, hoptions, hended, heffects⟩)
    · rw [if_neg (mt hidle.1 hsilent)]
      refine mem_textsOf.trans ⟨?_, ?_⟩
      · rintro ⟨-, hsame⟩
        exact .inr ⟨hover.1 hmenu, (Presentation.text.inj hsame).2.symm⟩
      · rintro (⟨hempty, -, hended, heffects⟩ | ⟨-, hsame⟩)
        · exact absurd ⟨hempty, hended, heffects⟩ hsilent
        · exact ⟨hsame ▸ htruthy, by rw [hphase, hsame]⟩
  · rw [if_neg hmenu]
    have hnot := mt hover.2 hmenu
    rw [not_or] at hnot
    rcases offer_goesOn hrunning (.str text) left.options with
      ⟨_, _, _, hended⟩ | ⟨_, later, _, hended, haftermath⟩
    · refine ⟨_, hended, iff_of_false List.not_mem_nil ?_⟩
      rintro (⟨-, hoptions, -⟩ | ⟨hover, -⟩)
      · exact hnot.2 hoptions
      · exact hover.elim hnot.1 hnot.2
    · refine ⟨_, hended, iff_of_false ?_ ?_⟩
      · intro hmem
        rcases List.mem_cons.1 hmem with hmenu | hlater
        · cases hmenu
        · exact haftermath _ hlater
      · rintro (⟨-, hoptions, -⟩ | ⟨hover, -⟩)
        · exact hnot.2 hoptions
        · exact hover.elim hnot.1 hnot.2

/-- The root is run, and its turn committed by a session whose dice were rolled. -/
theorem settleRoot_eq {root : Turn} {w : Walk}
    (hrun : Walk.run s.scene.env (some s.speaker.id) s.dice s.script.body = (.ok root, w)) :
    s.settleRoot =
      ({ s with dice := w.dice, scene := s.scene.noteAll w.notices } : Session).commit root := by
  rw [settleRoot, runBody, hrun]

/-- A root that is not refused is committed and worded, or it fails. -/
theorem settleRoot_cases {root : Turn} {w : Walk}
    (hrun : Walk.run s.scene.env (some s.speaker.id) s.dice s.script.body = (.ok root, w))
    (hpaid : (s.parties.settle root s.scene.world).1 ≠ .ok .refused) :
    (∃ written text, (s.parties.settle root s.scene.world).1 = .ok (.committed written) ∧
      s.lore.word root.text = .ok text ∧
      s.settleRoot.1 = .ok (.str text, { root with stage := root.stage.discard })) ∨
    (∃ fault, s.settleRoot.1 = .error fault) ∧
      ∀ written, (s.parties.settle root s.scene.world).1 = .ok (.committed written) →
        ∃ fault, s.lore.word root.text = .error fault := by
  have hanswer : s.settleRoot.1 =
      match (s.parties.settle root s.scene.world).1 with
      | .error fault => .error fault
      | .ok .refused => (s.lore.wordLine s.config.cannotAffordLine).map fun text =>
        (text, { root with stage := root.stage.discard })
      | .ok (.committed _) => (s.lore.word root.text).map fun text =>
        (.str text, { root with stage := root.stage.discard }) :=
    (congrArg Prod.fst (settleRoot_eq hrun)).trans (commit_answer _ root)
  rcases hresult : (s.parties.settle root s.scene.world).1 with fault | written | _
  · rw [hresult] at hanswer
    exact .inr ⟨⟨fault, hanswer⟩, fun _ h => nomatch h⟩
  · rw [hresult] at hanswer
    cases hword : s.lore.word root.text with
    | error fault =>
      rw [hword] at hanswer
      exact .inr ⟨⟨fault, hanswer⟩, fun _ _ => ⟨fault, rfl⟩⟩
    | ok text =>
      rw [hword] at hanswer
      exact .inl ⟨written, text, rfl, rfl, hanswer⟩
  · exact absurd hresult hpaid

/-- The commit of a root that can be paid for refuses nothing. -/
theorem settleRoot_refused {root left : Turn} {w : Walk} {written : List (String × Value)}
    {text : Json}
    (hrun : Walk.run s.scene.env (some s.speaker.id) s.dice s.script.body = (.ok root, w))
    (hresult : (s.parties.settle root s.scene.world).1 = .ok (.committed written))
    (h : s.settleRoot = (.ok (text, left), t)) : t.outcome.refused = s.outcome.refused := by
  rw [settleRoot_eq hrun] at h
  obtain ⟨result, hsettle, hstanding, -, -⟩ := commit_ok h
  have hcommitted : result = .committed written :=
    Except.ok.inj ((congrArg Prod.fst hsettle).symm.trans hresult)
  rw [hcommitted] at hstanding
  exact (congrArg Standing.refused hstanding).trans (Bool.or_false _)

/-- Turning away. Let the root of a new session not be refused, and the turn-away line be one that is
shown. Then the line is shown, before any menu, exactly if the root has no text, offers no option, does
not end and records no side effect, or if the line is what the root says itself to close the session.
Variables that it sets make no difference. -/
theorem turnsAway_iff {root : Turn} {w : Walk} {line : Json} (hidle : s.phase = .idle)
    (henabled : s.script.disabled = false) (hnew : s.outcome.refused = false)
    (hline : s.lore.wordLine s.config.turnAwayLine = .ok line) (htruthy : line.isTruthy = true)
    (hrun : Walk.run s.scene.env (some s.speaker.id) s.dice s.script.body = (.ok root, w))
    (hpaid : (s.parties.settle root s.scene.world).1 ≠ .ok .refused) :
    s.Shows (.text .presenting line) ↔ s.IsIdleTalk root ∨ s.ClosesWith root line := by
  have hfront := settleRoot_front s.started
  have hplay := (run_of_idle hidle).trans (play_of_enabled henabled)
  rcases settleRoot_cases (s := s.started) hrun hpaid with
    ⟨written, text, hresult, hword, hanswer⟩ | ⟨⟨fault, hanswer⟩, hunworded⟩
  · rcases hsettled : s.started.settleRoot with ⟨answer, settled⟩
    rw [hsettled] at hanswer hfront hplay
    obtain rfl : answer = _ := hanswer
    have hlore : settled.lore = s.lore := congrArg Front.lore hfront
    have hconfig : settled.config = s.config := congrArg Front.config hfront
    have hshown : settled.presenter.shown = s.presenter.shown :=
      congrArg (fun f => f.presenter.shown) hfront
    have hrefused : settled.outcome.refused = false :=
      (settleRoot_refused (s := s.started) hrun hresult hsettled).trans hnew
    obtain ⟨shown, hended, hiff⟩ := proceed_shows_iff (s := settled.enter .presenting) rfl hrefused
      (by rw [← hlore, ← hconfig] at hline; exact hline) htruthy
      (show ({ root with stage := root.stage.discard } : Turn).stage.pending.size = 0 from rfl) text
    rw [shows_iff (by rw [hplay, ← hshown]; exact hended.shown), hiff]
    have hword' : s.lore.word root.text = .ok text := hword
    refine or_congr ⟨?_, fun h => ?_⟩ ⟨?_, fun ⟨hover, _, hsays⟩ => ⟨hover, ?_⟩⟩
    · rintro ⟨rfl, hoptions, hended, heffects⟩
      exact ⟨hword', hoptions, hended, heffects⟩
    · exact ⟨Except.ok.inj (hword'.symm.trans h.text), h.options, h.ended, h.effects⟩
    · rintro ⟨hover, rfl⟩
      exact ⟨hover, ⟨written, hresult⟩, by rw [hword']; rfl⟩
    · rw [hword'] at hsays
      exact Except.ok.inj hsays
  · -- the root fails, so that nothing is shown
    rcases hsettled : s.started.settleRoot with ⟨answer, left⟩
    rw [hsettled] at hanswer hfront hplay
    obtain rfl : answer = .error fault := hanswer
    have hshown : s.run.2.presenter.shown = s.presenter.shown ++ [] := by
      rw [hplay, List.append_nil]
      exact congrArg (fun f => f.presenter.shown) hfront
    rw [shows_iff hshown]
    refine iff_of_false List.not_mem_nil ?_
    rintro (hidle | ⟨-, ⟨written, hwritten⟩, hsays⟩)
    · obtain ⟨fault, hfault⟩ :=
        hunworded _ (Parties.settle_of_no_effects hrun rfl hidle.effects)
      cases hfault.symm.trans hidle.text
    · obtain ⟨fault, hfault⟩ := hunworded written hwritten
      rw [show s.lore.word root.text = .error fault from hfault] at hsays
      cases hsays

/-- Holt, who remembers whom he has met, has a script of his own. -/
def meeting (script : Script) : Session :=
  start script { id := "holt", archetype := "npc", name := "Holt" } none {} {}
    { source := .scripted [] }
    { env := { manifest := Manifest.empty.declare (.make "MET" .speaker .bool) }, economy := none }

/-- Holt remembers the player, says nothing, and turns the player away. -/
theorem turnsAway_iff_of_meeting :
    let s := meeting { archetype := "npc", body := [.assign "MET" (.literal (.bool true))] }
    ∃ root w, Walk.run s.scene.env (some s.speaker.id) s.dice s.script.body = (.ok root, w) ∧
      (s.parties.settle root s.scene.world).1 ≠ .ok .refused ∧ s.IsIdleTalk root ∧
      s.Shows (.text .presenting (.str "Holt turns away from you.")) := by
  intro s
  have hrun : Walk.run s.scene.env (some s.speaker.id) s.dice s.script.body =
      (.ok (Walk.run s.scene.env (some s.speaker.id) s.dice s.script.body).2.turn,
        (Walk.run s.scene.env (some s.speaker.id) s.dice s.script.body).2) := rfl
  have hpaid : (s.parties.settle (Walk.run s.scene.env (some s.speaker.id) s.dice
      s.script.body).2.turn s.scene.world).1 ≠ .ok .refused := by
    intro h
    have hcommitted := Parties.settle_of_no_effects (p := s.parties) hrun
      (rfl : s.scene.world.env = s.scene.env) rfl
    rw [h] at hcommitted
    cases hcommitted
  have hsilent : s.IsIdleTalk (Walk.run s.scene.env (some s.speaker.id) s.dice
      s.script.body).2.turn := ⟨s.lore.word_empty, rfl, rfl, rfl⟩
  have hworded : (s.lore.wordLine s.config.turnAwayLine).toOption.map id =
      some (.str "Holt turns away from you.") := by decide +kernel
  obtain ⟨line, hline, rfl⟩ := exists_of_toOption_map hworded
  exact ⟨_, _, hrun, hpaid, hsilent,
    (turnsAway_iff rfl rfl rfl hline rfl hrun hpaid).2 (.inl hsilent)⟩

/-- So does a script that does nothing but set a variable, though the run of its root has recorded
something, namely the write. -/
theorem turned_away_of_write :
    ∃ script root w, Script.parse "(set MET true)" "npc" = .ok script ∧
      Walk.run (meeting script).scene.env (some "holt") (meeting script).dice script.body =
        (.ok root, w) ∧
      root.hasEffects = true ∧
      (meeting script).Shows (.text .presenting (.str "Holt turns away from you.")) := by
  have hshown : ((Script.parse "(set MET true)" "npc").toOption.map fun script =>
      ((Walk.run (meeting script).scene.env (some "holt") (meeting script).dice
        script.body).1.toOption.map Turn.hasEffects,
      decide ((meeting script).Shows (.text .presenting (.str "Holt turns away from you."))))) =
        some (some true, true) := by
    decide +kernel
  obtain ⟨script, hparse, hmeeting⟩ := exists_of_toOption_map hshown
  obtain ⟨hrecorded, hline⟩ := Prod.mk.inj hmeeting
  obtain ⟨root, hroot, heffects⟩ := exists_of_toOption_map hrecorded
  exact ⟨script, root, _, hparse, Prod.ext hroot rfl, heffects, of_decide_eq_true hline⟩

end Session

end Parley
