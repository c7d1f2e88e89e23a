import Parley.Proofs.Talk.Parts
import Parley.Proofs.Talk.Perspective
import Parley.Proofs.Talk.Reads

/-!
# Bystanders Make No Difference

Two sessions are twins if they differ in quest state only, and their speaker sees no difference there.
Part by part, from what only shows something to a whole run, twins do the same and leave twins:

* `Session.Twin.commit`: a turn is paid for and performed, refused or given up by both;
* `Session.Twin.follow`: the same answer chooses the same option;
* `Session.Twin.run`: twins answer the same, show, tell and note the same, and are twins again.
-/

namespace Parley.Session

/-- Two sessions differ in quest state only, and their speaker cannot tell them apart. -/
inductive Twin (s : Session) : Session → Prop
  | intro {env : Environment} (h : s.scene.env.SameFor s.speaker.id env) : Twin s (s.over env)

namespace Twin

variable {s t : Session}

/-- The speaker sees the same in both. -/
theorem env (h : s.Twin t) : s.scene.env.SameFor s.speaker.id t.scene.env := by
  cases h with
  | intro h => exact h

/-- All but quest state is the same. -/
theorem eq_over (h : s.Twin t) : t = s.over t.scene.env := by
  cases h with
  | intro h => rfl

/-- Twins have the same script. -/
theorem script (h : s.Twin t) : t.script = s.script := by
  rw [h.eq_over]
  rfl

/-- Twins have the same settings. -/
theorem config (h : s.Twin t) : t.config = s.config := by
  rw [h.eq_over]
  rfl

/-- Twins have got equally far. -/
theorem phase (h : s.Twin t) : t.phase = s.phase := by
  rw [h.eq_over]
  rfl

/-- Twins have the same outcome so far. -/
theorem outcome (h : s.Twin t) : t.outcome = s.outcome := by
  rw [h.eq_over]
  rfl

/-- Twins have the same presenter. -/
theorem presenter (h : s.Twin t) : t.presenter = s.presenter := by
  rw [h.eq_over]
  rfl

/-! ## What only shows something -/

/-- Twins tell the same. -/
theorem publish (h : s.Twin t) (what : Happening) : (s.publish what).Twin (t.publish what) := by
  cases h with
  | intro h => exact .intro h

/-- Twins go through the same phases. -/
theorem enter (h : s.Twin t) (phase : Phase) : (s.enter phase).Twin (t.enter phase) := by
  cases h with
  | intro h => exact .intro h

/-- Twins ask the presenter for the same. -/
theorem ask (h : s.Twin t) (request : Presentation) : (s.ask request).Twin (t.ask request) := by
  cases h with
  | intro h => exact .intro h

/-- Twins note the same texts as shown. -/
theorem showText (h : s.Twin t) (text : Json) : (s.showText text).Twin (t.showText text) := by
  cases h with
  | intro h => exact .intro h

/-- The presenter, who is asked for the same, shows a text to both or fails at both. -/
theorem present (h : s.Twin t) (text : Json) : Matches Twin (s.present text) (t.present text) := by
  have hasked := h.ask (.text s.phase text)
  have hreply : (t.ask (.text s.phase text)).presenter.reply () =
      (s.ask (.text s.phase text)).presenter.reply () := by rw [hasked.presenter]
  unfold Session.present
  dsimp only
  rw [h.phase, hreply]
  split
  · exact ⟨rfl, hasked⟩
  · exact ⟨rfl, hasked.showText text⟩

/-- Twins are twins at their ends. -/
theorem close (h : s.Twin t) : s.close.Twin t.close := by
  cases h with
  | intro h => exact .intro h

/-- Twins in which nothing is chosen are twins at their ends. -/
theorem cancel (h : s.Twin t) : s.cancel.Twin t.cancel := by
  cases h with
  | intro h => exact .intro h

/-- Twins close with the same text, unless the presenter fails at it. -/
theorem presentLast (h : s.Twin t) (text : Json) :
    Matches Twin (s.presentLast text) (t.presentLast text) := by
  obtain ⟨answer, s', t', hs, ht, hleft⟩ := (h.present text).split
  rw [Session.presentLast, Session.presentLast, hs, ht]
  cases answer with
  | error fault => exact ⟨rfl, hleft⟩
  | ok shown => exact ⟨rfl, hleft.close⟩

/-- Twins close alike, with a text or without. -/
theorem closeWith (h : s.Twin t) (text : Json) :
    Matches Twin (s.closeWith text) (t.closeWith text) := by
  unfold Session.closeWith
  split
  · exact h.presentLast text
  · exact ⟨rfl, h.close⟩

/-- Placeholders are replaced by the lore alone. -/
theorem substitute (h : s.Twin t) (text : String) :
    Matches Twin (s.substitute text) (t.substitute text) := by
  cases h with
  | intro h => exact ⟨rfl, .intro h⟩

/-- So are those of the lines of settings. -/
theorem substituteLine (h : s.Twin t) (line : Json) :
    Matches Twin (s.substituteLine line) (t.substituteLine line) := by
  cases line with
  | str text =>
    obtain ⟨answer, s', t', hs, ht, hleft⟩ := (h.substitute text).split
    rw [Session.substituteLine, Session.substituteLine, hs, ht]
    exact ⟨rfl, hleft⟩
  | _ => exact ⟨rfl, h⟩

/-! ## Turns and their commits -/

/-- The body is run on what the speaker sees. -/
theorem runBody (h : s.Twin t) (body : List Statement) :
    Matches Twin (s.runBody body) (t.runBody body) := by
  cases h with
  | @intro env h =>
    have hrun : Walk.run env (some s.speaker.id) s.dice body =
        Walk.run s.scene.env (some s.speaker.id) s.dice body :=
      Walk.run_congr_of_reads h.manifest (fun _ _ name _ => h.lookup (.inl rfl) name) s.dice
    have hother : (s.over env).runBody body =
        ((Walk.run s.scene.env (some s.speaker.id) s.dice body).1,
          ((s.runBody body).2.over env)) := by
      rw [Session.runBody, show Walk.run (s.over env).scene.env (some (s.over env).speaker.id)
        (s.over env).dice body = _ from hrun]
      rfl
    rw [hother]
    exact ⟨rfl, .intro h⟩

/-- The outcome of a commit is worded alike. -/
theorem shownText (h : s.Twin t) (turn : Turn) (result : CommitResult) :
    Matches Twin (s.shownText turn result) (t.shownText turn result) := by
  cases result with
  | refused =>
    have hrefused : Twin { s with outcome := { s.outcome with refused := true } }
        { t with outcome := { t.outcome with refused := true } } := by
      cases h with
      | intro h => exact .intro h
    rw [Session.shownText, Session.shownText, h.eq_over]
    rw [h.eq_over] at hrefused
    exact hrefused.substituteLine _
  | committed written =>
    rw [Session.shownText, Session.shownText]
    exact h.substituteLine _

/-- A turn is paid for and performed, refused or given up by both. -/
theorem commit (h : s.Twin t) (turn : Turn) : Matches Twin (s.commit turn) (t.commit turn) := by
  cases h with
  | @intro env h =>
    have hscene : Scene.Twin s.speaker.id s.scene { s.scene with env } := .intro h
    obtain ⟨answer, ⟨left, a⟩, ⟨left', b⟩, ha, hb, hturn, hsame⟩ :=
      (hscene.commit s.parties turn).split
    obtain rfl : left' = left := hturn
    have hleft : Twin { s with scene := a } { s with scene := b } := by
      obtain ⟨hsame⟩ : Scene.Twin s.speaker.id a b := hsame
      exact .intro hsame
    rw [Session.commit, Session.commit, ha,
      show (s.over env).parties.commit turn (s.over env).scene = _ from hb]
    cases answer with
    | error fault => exact ⟨rfl, hleft⟩
    | ok result =>
      obtain ⟨text, s', t', hs, ht, hshown⟩ := (hleft.shownText left' result).split
      dsimp only
      rw [hs, show ({ s.over env with scene := b } : Session).shownText left' result = _ from ht]
      exact ⟨rfl, hshown⟩

/-! ## The parts of a session -/

/-- Twins come to the same end without a menu. -/
theorem conclude (h : s.Twin t) (text : Json) (turn : Turn) :
    Matches Twin (s.conclude text turn) (t.conclude text turn) := by
  have hclosing : Matches Twin (s.closingText text turn) (t.closingText text turn) := by
    unfold Session.closingText
    split
    · rw [h.config]
      exact h.substituteLine _
    · exact ⟨rfl, h⟩
  obtain ⟨answer, s', t', hs, ht, hleft⟩ := hclosing.split
  rw [conclude_eq, conclude_eq, hs, ht]
  cases answer with
  | error fault => exact ⟨rfl, hleft⟩
  | ok text => exact hleft.closeWith text

/-- Twins label options with the same dice and the same lore. -/
theorem entriesFor (h : s.Twin t) (index : Nat) (choices : List Choice) :
    Matches Twin (s.entriesFor index choices) (t.entriesFor index choices) := by
  induction choices generalizing s t index with
  | nil => exact ⟨rfl, h⟩
  | cons choice rest ih =>
    have hdice : t.dice = s.dice := by rw [h.eq_over]; rfl
    have hspoken : Twin { s with dice := (s.dice.speak choice.label).2 }
        { t with dice := (s.dice.speak choice.label).2 } := by
      cases h with
      | intro h => exact .intro h
    rw [Session.entriesFor, Session.entriesFor, hdice]
    dsimp only
    obtain ⟨answer, s', t', hs, ht, hnamed⟩ :=
      (hspoken.substitute (s.dice.speak choice.label).1).split
    rw [hs, ht]
    cases answer with
    | error fault => exact ⟨rfl, hnamed⟩
    | ok label =>
      obtain ⟨answer, s'', t'', hs, ht, hrest⟩ := (ih hnamed (index + 1)).split
      dsimp only
      rw [hs, ht]
      cases answer with
      | error fault => exact ⟨rfl, hrest⟩
      | ok more => exact ⟨rfl, hrest⟩

/-- Twins build the same menu. -/
theorem buildMenu (h : s.Twin t) (options : List Choice) :
    Matches Twin (s.buildMenu options) (t.buildMenu options) := by
  unfold Session.buildMenu
  dsimp only
  generalize hkept : ({ s with scene := _, options := _ } : Session) = kept
  generalize hkept' : ({ t with scene := _, options := _ } : Session) = kept'
  -- a menu that is too long is noted and cut
  have hcut : kept.Twin kept' := by
    rw [← hkept, ← hkept']
    cases h with
    | intro h => split <;> exact .intro h
  obtain ⟨answer, s', t', hs, ht, hnamed⟩ := (hcut.entriesFor 0 (options.take menuRoom)).split
  rw [hs, ht]
  cases answer with
  | error fault => exact ⟨rfl, hnamed⟩
  | ok menu =>
    cases hnamed with
    | intro hnamed => exact ⟨rfl, .intro hnamed⟩

/-- Twins open their menus alike. -/
theorem openMenu (h : s.Twin t) (text : Json) : (s.openMenu text).Twin (t.openMenu text) := by
  cases h with
  | intro h =>
    unfold Session.openMenu
    dsimp only
    split
    · exact .intro h
    · exact .intro h

/-- While a menu is open the same is written in both, which may be refused, and the presenter answers
the same. -/
theorem presentMenu (h : s.Twin t) (text : Json) :
    Matches Twin (s.presentMenu text) (t.presentMenu text) := by
  cases h with
  | @intro env h =>
    obtain ⟨answer, a, b, ha, hb, hleft⟩ := (h.writeAll s.presenter.writes).split
    rw [Session.presentMenu, Session.presentMenu]
    dsimp only
    rw [show writeAll (s.ask _).scene.env (s.ask _).presenter.writes = _ from ha,
      show writeAll ((s.over env).ask _).scene.env ((s.over env).ask _).presenter.writes = _ from hb]
    cases answer with
    | error fault => exact ⟨rfl, .intro hleft⟩
    | ok made => exact ⟨rfl, .intro hleft⟩

/-- The same consent is asked for, and given or denied. -/
theorem consult (h : s.Twin t) (turn : Turn) : Matches Twin (s.consult turn) (t.consult turn) := by
  unfold Session.consult Session.asksFor
  rw [h.config, h.phase]
  split
  · split
    · exact ⟨rfl, h⟩
    · have hasked := h.ask (.confirm s.phase
        ("Spend " ++ toString turn.spendTotal ++ " " ++ s.config.currencyName.shown ++ "?"))
      refine ⟨?_, hasked⟩
      dsimp only
      rw [hasked.presenter]
  · exact ⟨rfl, h⟩

/-- The turn of the chosen option is committed alike. -/
theorem settle (h : s.Twin t) (turn : Turn) : Matches Twin (s.settle turn) (t.settle turn) := by
  obtain ⟨answer, s', t', hs, ht, hleft⟩ := ((h.enter .resolving).commit turn).split
  rw [Session.settle, Session.settle, hs, ht]
  cases answer with
  | error fault => exact ⟨rfl, hleft⟩
  | ok shown => exact hleft.closeWith shown.1

/-- The same body yields the same turn, and the player agrees to it in both or in neither. -/
theorem execute (h : s.Twin t) (body : List Statement) :
    Matches Twin (s.execute body) (t.execute body) := by
  obtain ⟨answer, s', t', hs, ht, hran⟩ := (h.runBody body).split
  rw [Session.execute, Session.execute, hs, ht]
  cases answer with
  | error fault => exact ⟨rfl, hran⟩
  | ok turn =>
    obtain ⟨answer, s'', t'', hs, ht, hasked⟩ := (hran.consult turn).split
    dsimp only
    rw [hs, ht]
    rcases answer with fault | _ | _
    · exact ⟨rfl, hasked⟩
    · exact ⟨rfl, hasked.cancel⟩
    · exact hasked.settle turn

/-- A chosen option is run alike. -/
theorem resolve (h : s.Twin t) (index : Nat) (choice : Choice) :
    Matches Twin (s.resolve index choice) (t.resolve index choice) := by
  have hchosen : (s.choose index).Twin (t.choose index) := by
    cases h with
    | intro h => exact .intro h
  rw [resolve_eq, resolve_eq]
  exact hchosen.execute choice.body

/-- The same answer chooses the same option. -/
theorem follow (h : s.Twin t) (answer : MenuAnswer) :
    Matches Twin (s.follow answer) (t.follow answer) := by
  have hoptions : t.options = s.options := by rw [h.eq_over]; rfl
  have hindex : t.chosenIndex? answer = s.chosenIndex? answer := by rw [h.eq_over]; rfl
  rw [Session.follow.eq_def, Session.follow.eq_def, hindex, hoptions]
  split
  · split
    · exact h.resolve _ _
    · exact ⟨rfl, h.cancel⟩
  · exact ⟨rfl, h.cancel⟩
  · cases h with
    | intro h => exact ⟨rfl, .intro h⟩

/-- Twins offer the same options and go on with the same answer. -/
theorem offer (h : s.Twin t) (text : Json) (options : List Choice) :
    Matches Twin (s.offer text options) (t.offer text options) := by
  obtain ⟨answer, s', t', hs, ht, hbuilt⟩ := (h.buildMenu options).split
  rw [offer_eq, offer_eq, hs, ht]
  cases answer with
  | error fault => exact ⟨rfl, hbuilt⟩
  | ok built =>
    obtain ⟨answer, s'', t'', hs, ht, hshown⟩ := ((hbuilt.openMenu text).presentMenu text).split
    dsimp only
    rw [hs, ht]
    cases answer with
    | error fault => exact ⟨rfl, hshown⟩
    | ok reply => exact hshown.follow reply

/-- Twins come to a menu both or neither. -/
theorem proceed (h : s.Twin t) (text : Json) (turn : Turn) :
    Matches Twin (s.proceed text turn) (t.proceed text turn) := by
  unfold Session.proceed
  rw [isOver, isOver, h.outcome]
  split
  · exact h.conclude text turn
  · exact h.offer text turn.options

/-- The roots of twins are run and committed alike. -/
theorem settleRoot (h : s.Twin t) : Matches Twin s.settleRoot t.settleRoot := by
  obtain ⟨answer, s', t', hs, ht, hran⟩ := (h.runBody s.script.body).split
  rw [Session.settleRoot, Session.settleRoot, h.script, hs, ht]
  cases answer with
  | error fault => exact ⟨rfl, hran⟩
  | ok turn => exact hran.commit turn

/-- Twins are played alike from start to end. -/
theorem play (h : s.Twin t) : Matches Twin s.play t.play := by
  have hstarted : s.started.Twin t.started := by
    cases h with
    | intro h => exact .intro h
  rw [play_eq, play_eq, h.script]
  split
  · unfold fallBack
    rw [hstarted.config]
    exact (hstarted.enter .presenting).presentLast _
  · obtain ⟨answer, s', t', hs, ht, hsettled⟩ := hstarted.settleRoot.split
    rw [hs, ht]
    cases answer with
    | error fault => exact ⟨rfl, hsettled⟩
    | ok shown => exact (hsettled.enter .presenting).proceed shown.1 shown.2

/-- Whatever other speakers remember, a session goes the same way. -/
theorem run (h : s.Twin t) : Matches Twin s.run t.run := by
  by_cases hidle : s.phase = .idle
  · rw [run_of_idle hidle, run_of_idle (h.phase.trans hidle)]
    exact h.play
  · rw [run_of_not_idle hidle, run_of_not_idle (h.phase ▸ hidle),
      show t.speaker = s.speaker by rw [h.eq_over]; rfl]
    exact ⟨rfl, h⟩

end Twin

end Parley.Session
