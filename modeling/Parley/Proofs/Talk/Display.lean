import Parley.Proofs.Talk.Commit
import Parley.Proofs.Talk.Parts
import Parley.Proofs.Talk.Placeholder

/-!
# What a Session Shows

While bodies are run, turns are committed and texts are worded nothing is shown, and the session stays
in the phase that it is in. What it shows, and in which phase, is therefore known part by part:

* `Session.Front` is what the player and the presenter see of a session, with what it was made from;
  everything that goes on behind the scenes leaves it alone;
* `Session.conclude_goesOn`: to close with a text shows that text, and nothing else;
* `Session.offer_goesOn`: to offer options shows one menu, and after it only what comes of the answer.
-/

namespace Parley

namespace Presentation

/-- What can come of the answer to a menu: a question about the price of the chosen option, or its
text. -/
def IsAftermath : Presentation → Prop
  | .confirm .awaitingChoice _ => True
  | .text .resolving _ => True
  | _ => False

end Presentation

namespace Lore

/-- What a text is shown as. It cannot be shown if it asks for something that is no text. -/
def word (lore : Lore) (text : String) : Except Fault String :=
  if (Placeholder.find text).any fun token => (lore.resolve token).any fun m => !m.isText then
    .error .notText
  else .ok (wording (some lore) text)

@[simp]
theorem word_empty (lore : Lore) : lore.word "" = .ok "" := by
  simp [word, wording, Placeholder.find, Placeholder.substitute]

/-- What the line of a setting is shown as. -/
def wordLine (lore : Lore) : Json → Except Fault Json
  | .str text => (lore.word text).map .str
  | line => if Session.isUnmarked line then .ok line else .error .notText

end Lore

namespace Session

/-- What is seen of a session from outside, and what it was made from. -/
structure Front where
  script : Script
  speaker : Speaker
  lore : Lore
  config : Config
  commitsPublish : Bool
  phase : Phase
  presenter : Presenter

/-- What is seen of a session from outside, and what it was made from. -/
def front (s : Session) : Front :=
  ⟨s.script, s.speaker, s.lore, s.config, s.commitsPublish, s.phase, s.presenter⟩

variable {s t : Session}

/-! ## Behind the scenes -/

/-- Filling in placeholders shows nothing. Nor does any other step up to the commit: these lemmas
carry the view of the player past them. -/
@[simp]
theorem substitute_front (s : Session) (text : String) : (s.substitute text).2.front = s.front := rfl

@[simp]
theorem substituteLine_front (s : Session) (line : Json) :
    (s.substituteLine line).2.front = s.front := by
  cases line <;> rfl

@[simp]
theorem runBody_front (s : Session) (body : List Statement) :
    (s.runBody body).2.front = s.front := rfl

@[simp]
theorem shownText_front (s : Session) (turn : Turn) (result : CommitResult) :
    (s.shownText turn result).2.front = s.front := by
  cases result with
  | refused => exact substituteLine_front _ _
  | committed written => exact substituteLine_front s _

/-- A commit shows nothing. -/
@[simp]
theorem commit_front (s : Session) (turn : Turn) : (s.commit turn).2.front = s.front := by
  unfold commit
  split
  · rfl
  · exact shownText_front _ _ _

/-- Up to the end of the root commit, nothing is shown. -/
@[simp]
theorem settleRoot_front (s : Session) : s.settleRoot.2.front = s.front := by
  have hran := runBody_front s s.script.body
  unfold settleRoot
  split
  · next hrun => rwa [hrun] at hran
  · next turn ran hrun =>
    rw [hrun] at hran
    exact (commit_front ran turn).trans hran

@[simp]
theorem closingText_front (s : Session) (text : Json) (turn : Turn) :
    (s.closingText text turn).2.front = s.front := by
  unfold closingText
  split
  · exact substituteLine_front s _
  · rfl

@[simp]
theorem entriesFor_front (s : Session) (index : Nat) (choices : List Choice) :
    (s.entriesFor index choices).2.front = s.front := by
  induction choices generalizing s index with
  | nil => rfl
  | cons choice rest ih =>
    have hlabel := substitute_front { s with dice := (s.dice.speak choice.label).2 }
      (s.dice.speak choice.label).1
    rw [entriesFor]
    dsimp only
    split
    · next hworded => rwa [hworded] at hlabel
    · next named hworded =>
      rw [hworded] at hlabel
      have hrest := (ih named (index + 1)).trans hlabel
      split
      · next hnamed => rwa [hnamed] at hrest
      · next hnamed => rwa [hnamed] at hrest

@[simp]
theorem buildMenu_front (s : Session) (options : List Choice) :
    (s.buildMenu options).2.front = s.front := by
  unfold buildMenu
  dsimp only
  generalize hkept : ({ s with scene := _, options := _ } : Session) = kept
  have hcut : kept.front = s.front := by rw [← hkept]; rfl
  have hnamed := (entriesFor_front kept 0 (options.take menuRoom)).trans hcut
  split
  · next hmenu => rwa [hmenu] at hnamed
  · next hmenu => rwa [hmenu] at hnamed

/-! ## Texts -/

/-- How a text is shown depends on lore alone. -/
theorem substitute_answer (s : Session) (text : String) :
    (s.substitute text).1 = s.lore.word text := rfl

/-- The answer is what the lore makes of the line. -/
theorem substituteLine_answer (s : Session) (line : Json) :
    (s.substituteLine line).1 = s.lore.wordLine line := by
  cases line <;> rfl

/-! ## What is shown -/

/-- A session goes on to another one, which has been run and has shown something more. -/
structure GoesOn (s t : Session) (shown : List Presentation) : Prop where
  shown : t.presenter.shown = s.presenter.shown ++ shown
  phase : t.phase ≠ .idle

/-- Nothing is shown behind the scenes. -/
theorem goesOn_of_front (hphase : s.phase ≠ .idle) (h : t.front = s.front) : s.GoesOn t [] := by
  have hpresenter : t.presenter = s.presenter := congrArg Front.presenter h
  have hsame : t.phase = s.phase := congrArg Front.phase h
  exact ⟨by rw [hpresenter, List.append_nil], hsame ▸ hphase⟩

/-- The texts of two stretches are shown one after the other. -/
theorem GoesOn.trans {u : Session} {first second : List Presentation} (hst : s.GoesOn t first)
    (htu : t.GoesOn u second) : s.GoesOn u (first ++ second) :=
  ⟨by rw [htu.shown, hst.shown, List.append_assoc], htu.phase⟩

/-- A text that is to be shown, if it is one that counts. -/
def textsOf (phase : Phase) (text : Json) : List Presentation :=
  if text.isTruthy then [.text phase text] else []

/-- A text is shown unless it is empty. -/
theorem mem_textsOf {phase : Phase} {text : Json} {p : Presentation} :
    p ∈ textsOf phase text ↔ text.isTruthy = true ∧ p = .text phase text := by
  unfold textsOf
  split
  · next htruthy => simp [htruthy]
  · next hempty => simp [hempty]

/-- A run shows a request, beside what was shown before. -/
def Shows (s : Session) (p : Presentation) : Prop :=
  p ∈ s.run.2.presenter.shown.drop s.presenter.shown.length

instance (s : Session) (p : Presentation) : Decidable (s.Shows p) :=
  inferInstanceAs (Decidable (_ ∈ _))

/-- A session shows what its presenter was shown during the run. -/
theorem shows_iff {shown : List Presentation}
    (h : s.run.2.presenter.shown = s.presenter.shown ++ shown) (p : Presentation) :
    s.Shows p ↔ p ∈ shown := by
  rw [Shows, h, List.drop_left]

/-- A text is asked to be shown, whether or not the presenter fails at it. -/
theorem presentLast_goesOn (hphase : s.phase ≠ .idle) (text : Json) :
    s.GoesOn (s.presentLast text).2 [.text s.phase text] := by
  unfold presentLast present
  dsimp only
  split
  · next hended =>
    split at hended
    · cases hended
      exact ⟨rfl, hphase⟩
    · cases hended
  · next hended =>
    split at hended
    · cases hended
    · cases hended
      exact ⟨rfl, Phase.noConfusion⟩

/-- Closing shows the last text in the phase that it closes. -/
theorem closeWith_goesOn (hphase : s.phase ≠ .idle) (text : Json) :
    s.GoesOn (s.closeWith text).2 (textsOf s.phase text) := by
  unfold closeWith textsOf
  split
  · exact presentLast_goesOn hphase text
  · exact ⟨(List.append_nil _).symm, Phase.noConfusion⟩

/-- Canceling shows nothing. -/
theorem cancel_goesOn (s : Session) : s.GoesOn s.cancel [] :=
  ⟨(List.append_nil _).symm, Phase.noConfusion⟩

/-- To close with the text of a turn shows that text, or the line that stands in for it. -/
theorem conclude_goesOn (hphase : s.phase ≠ .idle) (text : Json) (turn : Turn) :
    s.GoesOn (s.conclude text turn).2 (match (s.closingText text turn).1 with
      | .error _ => []
      | .ok text => textsOf s.phase text) := by
  have hclosing := goesOn_of_front hphase (closingText_front s text turn)
  have hsame : (s.closingText text turn).2.phase = s.phase :=
    congrArg Front.phase (closingText_front s text turn)
  rw [conclude_eq]
  rcases hended : s.closingText text turn with ⟨_ | shown, left⟩
  · rwa [hended] at hclosing
  · rw [hended] at hclosing hsame
    exact hsame ▸ hclosing.trans (closeWith_goesOn hclosing.phase shown)

/-- The turn of a chosen option shows at most its text. -/
theorem settle_goesOn (s : Session) (turn : Turn) :
    ∃ shown, s.GoesOn (s.settle turn).2 shown ∧ ∀ p ∈ shown, p.IsAftermath := by
  have hcommit : (s.enter .resolving).GoesOn ((s.enter .resolving).commit turn).2 [] :=
    goesOn_of_front Phase.noConfusion (commit_front _ turn)
  have hsame : ((s.enter .resolving).commit turn).2.phase = .resolving :=
    congrArg Front.phase (commit_front (s.enter .resolving) turn)
  unfold settle
  rcases hended : (s.enter .resolving).commit turn with ⟨_ | shown, left⟩
  · rw [hended] at hcommit
    exact ⟨[], ⟨hcommit.shown, hcommit.phase⟩, List.forall_mem_nil _⟩
  · rw [hended] at hcommit hsame
    have hclosed := hcommit.trans (closeWith_goesOn hcommit.phase shown.1)
    refine ⟨_, ⟨hclosed.shown, hclosed.phase⟩, ?_⟩
    intro p hp
    obtain ⟨-, rfl⟩ := mem_textsOf.1 hp
    rw [show left.phase = .resolving from hsame]
    trivial

/-- The player may be asked for consent, in the phase that the session is in. -/
theorem consult_goesOn (hphase : s.phase = .awaitingChoice) (turn : Turn) :
    ∃ shown, s.GoesOn (s.consult turn).2 shown ∧ ∀ p ∈ shown, p.IsAftermath := by
  have hrunning : s.phase ≠ .idle := hphase ▸ Phase.noConfusion
  unfold consult
  split
  · split
    · exact ⟨[], goesOn_of_front hrunning rfl, List.forall_mem_nil _⟩
    · refine ⟨[.confirm s.phase _], ⟨rfl, hrunning⟩, fun p hp => ?_⟩
      rw [List.mem_singleton.1 hp, hphase]
      trivial
  · exact ⟨[], goesOn_of_front hrunning rfl, List.forall_mem_nil _⟩

/-- What comes of the body of a chosen option. -/
theorem execute_goesOn (hphase : s.phase = .awaitingChoice) (body : List Statement) :
    ∃ shown, s.GoesOn (s.execute body).2 shown ∧ ∀ p ∈ shown, p.IsAftermath := by
  have hfront := runBody_front s body
  rw [execute]
  generalize s.runBody body = answer at hfront ⊢
  obtain ⟨answer, ran⟩ := answer
  have hran : s.GoesOn ran [] := goesOn_of_front (hphase ▸ Phase.noConfusion) hfront
  have hsame : ran.phase = .awaitingChoice := (congrArg Front.phase hfront).trans hphase
  cases answer with
  | error fault => exact ⟨[], hran, List.forall_mem_nil _⟩
  | ok turn =>
    obtain ⟨asked, hasked, hconfirm⟩ := consult_goesOn hsame turn
    have hended := hran.trans hasked
    dsimp only
    rcases hconsulted : ran.consult turn with ⟨_ | _ | _, left⟩
    · rw [hconsulted] at hended
      exact ⟨_, hended, hconfirm⟩
    · rw [hconsulted] at hended
      have hcancelled := hended.trans (cancel_goesOn _)
      rw [List.append_nil] at hcancelled
      exact ⟨_, hcancelled, hconfirm⟩
    · rw [hconsulted] at hended
      obtain ⟨told, htold, haftermath⟩ := settle_goesOn left turn
      refine ⟨_, hended.trans htold, fun p hp => ?_⟩
      exact (List.mem_append.1 hp).elim (hconfirm p) (haftermath p)

/-- An option is told of when it is chosen, which shows nothing. -/
theorem resolve_goesOn (hphase : s.phase = .awaitingChoice) (index : Nat) (choice : Choice) :
    ∃ shown, s.GoesOn (s.resolve index choice).2 shown ∧ ∀ p ∈ shown, p.IsAftermath := by
  have hchosen : (s.choose index).phase = .awaitingChoice := hphase
  obtain ⟨shown, hended, haftermath⟩ := execute_goesOn hchosen choice.body
  exact ⟨shown, ⟨hended.shown, hended.phase⟩, haftermath⟩

/-- What comes of the answer to a menu. -/
theorem follow_goesOn (hphase : s.phase = .awaitingChoice) (answer : MenuAnswer) :
    ∃ shown, s.GoesOn (s.follow answer).2 shown ∧ ∀ p ∈ shown, p.IsAftermath := by
  have hcancelled : ∃ shown, s.GoesOn s.cancel shown ∧ ∀ p ∈ shown, p.IsAftermath :=
    ⟨[], cancel_goesOn s, List.forall_mem_nil _⟩
  rw [follow.eq_def]
  split
  · split
    · exact resolve_goesOn hphase _ _
    · exact hcancelled
  · exact hcancelled
  · exact ⟨[], ⟨(cancel_goesOn s).shown, (cancel_goesOn s).phase⟩, List.forall_mem_nil _⟩

/-- Opening a menu shows nothing, and changes the phase. -/
theorem openMenu_front (s : Session) (text : Json) :
    (s.openMenu text).front = { s.front with phase := .awaitingChoice } := by
  unfold openMenu
  dsimp only
  split <;> rfl

theorem openMenu_menu (s : Session) (text : Json) : (s.openMenu text).menu = s.menu := by
  unfold openMenu
  dsimp only
  split <;> rfl

theorem presentMenu_phase (s : Session) (text : Json) :
    (s.presentMenu text).2.phase = s.phase := by
  unfold presentMenu
  dsimp only
  split <;> rfl

/-- A menu is shown whether or not the writes succeed that are made while it is open. -/
theorem presentMenu_goesOn (hphase : s.phase ≠ .idle) (text : Json) :
    s.GoesOn (s.presentMenu text).2 [.menu s.phase text s.menu] := by
  unfold presentMenu
  dsimp only
  split
  · exact ⟨rfl, hphase⟩
  · exact ⟨rfl, hphase⟩

/-- To offer options shows one menu, unless its entries cannot be worded, and after it only what comes
of the answer. -/
theorem offer_goesOn (hphase : s.phase ≠ .idle) (text : Json) (options : List Choice) :
    (∃ fault left, s.buildMenu options = (.error fault, left) ∧
      s.GoesOn (s.offer text options).2 []) ∨
    ∃ built later, s.buildMenu options = (.ok (), built) ∧
      s.GoesOn (s.offer text options).2 (.menu .awaitingChoice text built.menu :: later) ∧
      ∀ p ∈ later, p.IsAftermath := by
  have hmenu := goesOn_of_front hphase (buildMenu_front s options)
  rw [offer_eq]
  rcases hbuilt : s.buildMenu options with ⟨fault | _, built⟩
  · rw [hbuilt] at hmenu
    exact .inl ⟨fault, built, rfl, hmenu⟩
  · rw [hbuilt] at hmenu
    -- the menu is opened, which shows nothing yet
    have hopen := openMenu_front built text
    have hphase' : (built.openMenu text).phase = .awaitingChoice := congrArg Front.phase hopen
    have hopened : s.GoesOn (built.openMenu text) [] := by
      have hpresenter : (built.openMenu text).presenter = built.presenter :=
        congrArg Front.presenter hopen
      exact ⟨hpresenter ▸ hmenu.shown, hphase' ▸ Phase.noConfusion⟩
    have hasked := hopened.trans (presentMenu_goesOn (hphase' ▸ Phase.noConfusion) text)
    have hwaiting := (presentMenu_phase (built.openMenu text) text).trans hphase'
    rw [hphase', openMenu_menu] at hasked
    refine .inr ⟨built, ?_⟩
    dsimp only
    rcases hanswer : (built.openMenu text).presentMenu text with ⟨fault | answer, asked⟩
    · rw [hanswer] at hasked
      exact ⟨[], rfl, hasked, List.forall_mem_nil _⟩
    · rw [hanswer] at hasked hwaiting
      obtain ⟨later, hlater, haftermath⟩ := follow_goesOn hwaiting answer
      exact ⟨later, rfl, hasked.trans hlater, haftermath⟩

/-! ## What a run shows -/

/-- A script that could not be loaded has one line shown for it. -/
theorem fallBack_goesOn (s : Session) :
    s.GoesOn s.fallBack.2 [.text .presenting s.config.fallbackLine] := by
  have hended := presentLast_goesOn (s := s.enter .presenting) Phase.noConfusion s.config.fallbackLine
  exact ⟨hended.shown, hended.phase⟩

/-- A session that has left its first phase does not come back to it. -/
theorem proceed_phase (hphase : s.phase ≠ .idle) (text : Json) (turn : Turn) :
    (s.proceed text turn).2.phase ≠ .idle := by
  unfold proceed
  split
  · exact (conclude_goesOn hphase text turn).phase
  · rcases offer_goesOn hphase text turn.options with ⟨_, _, _, hended⟩ | ⟨_, _, _, hended, _⟩
    · exact hended.phase
    · exact hended.phase

end Session

end Parley
