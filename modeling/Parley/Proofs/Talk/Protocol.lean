import Mathlib.Computability.RegularExpressions
import Parley.Proofs.Talk.Course
import Parley.Proofs.Talk.Receipts

/-!
# The Protocol of a Session

Whoever mirrors a conversation from its events relies on their order. We give the order as regular
expressions over the kinds of events (`Protocol.session`), one for each part of a session, and prove
that a session that returns has told of itself in this order, whatever its script, its economy and the
player did:

* `Session.Tells` says what a part of a session tells, in which order, and that the texts among it are
  the texts that were shown and those that the outcome lists; there is one lemma for each part;
* `Parties.commit_tells`: what a commit tells follows from how it ends;
* `Session.run_protocol`: the law for whole sessions.
-/

namespace Parley

/-! ## The order of events -/

/-- An order of events, by their kinds. -/
abbrev Protocol := RegularExpression EventKind

namespace Protocol

/-- Something that may be left out. -/
def optional (p : Protocol) : Protocol :=
  1 + p

/-- A commit that is refused. -/
def refused : Protocol :=
  .char .purchaseRefused

/-- A commit that is performed: first the price, then the variables, then the items. -/
def performed : Protocol :=
  optional (.char .currencySpent) * .star (.char .variableSet) *
    .star (.char .itemGiven + .char .itemOffered)

/-- The end of a session, with a text if there is one. -/
def closing : Protocol :=
  optional (.char .textPresented) * .char .sessionClosed

/-- The end of a session in which nothing was chosen. -/
def cancelling : Protocol :=
  .char .sessionCancelled * .char .sessionClosed

/-- What follows the choice of an option: it is declined, or its turn is committed. -/
def choosing : Protocol :=
  .char .optionSelected * (cancelling + (refused + performed) * closing)

/-- A menu, and what follows it. -/
def offering : Protocol :=
  .char .menuPresented * optional (.char .textPresented) * (cancelling + choosing)

/-- A session of a script that failed to load. -/
def fallback : Protocol :=
  .char .sessionStarted * .char .textPresented * .char .sessionClosed

/-- A session of any other script. Only a root that was not refused leads to a menu. -/
def conversation : Protocol :=
  .char .sessionStarted * (refused * closing + performed * (closing + offering))

/-- The order of events in a session. -/
def session (disabled : Bool) : Protocol :=
  if disabled then fallback else conversation

/-- The kinds of events can come in an order. -/
def Reads (p : Protocol) (kinds : List EventKind) : Prop :=
  kinds ∈ p.matches'

variable {p q : Protocol} {kinds more : List EventKind}

theorem reads_one : Reads 1 [] :=
  Language.nil_mem_one

theorem reads_char (kind : EventKind) : Reads (.char kind) [kind] :=
  Set.mem_singleton [kind]

theorem Reads.append (h : p.Reads kinds) (h' : q.Reads more) : (p * q).Reads (kinds ++ more) :=
  Language.append_mem_mul h h'

theorem Reads.left (h : p.Reads kinds) : (p + q).Reads kinds :=
  .inl h

theorem Reads.right (h : q.Reads kinds) : (p + q).Reads kinds :=
  .inr h

/-- Events that are each in an order of single events repeat it. -/
theorem reads_star (h : ∀ kind ∈ kinds, p.Reads [kind]) : Reads (.star p) kinds := by
  refine Language.mem_kstar.2 ⟨kinds.map ([·]), ?_, ?_⟩
  · induction kinds with
    | nil => rfl
    | cons kind rest ih =>
      rw [List.map_cons, List.flatten_cons, ← ih fun k hk => h k (List.mem_cons_of_mem _ hk)]
      rfl
  · intro word hword
    obtain ⟨kind, hkind, rfl⟩ := List.mem_map.1 hword
    exact h kind hkind

/-- The kinds of events that an order speaks of. -/
def letters : RegularExpression EventKind → List EventKind
  | .zero | .epsilon => []
  | .char kind => [kind]
  | .plus p q | .comp p q => letters p ++ letters q
  | .star p => letters p

/-- Events that come in an order are of the kinds that it speaks of. -/
theorem Reads.mem_letters (h : p.Reads kinds) : ∀ kind ∈ kinds, kind ∈ letters p := by
  induction p generalizing kinds with
  | zero => exact absurd h (Set.notMem_empty kinds)
  | epsilon =>
    obtain rfl : kinds = [] := h
    exact List.forall_mem_nil _
  | char kind =>
    obtain rfl : kinds = [kind] := h
    exact fun k hk => hk
  | plus p q ihp ihq =>
    intro kind hkind
    rcases h with hp | hq
    · exact List.mem_append_left _ (ihp hp kind hkind)
    · exact List.mem_append_right _ (ihq hq kind hkind)
  | comp p q ihp ihq =>
    obtain ⟨first, hfirst, second, hsecond, rfl⟩ := Language.mem_mul.1 h
    intro kind hkind
    rcases List.mem_append.1 hkind with hkind | hkind
    · exact List.mem_append_left _ (ihp hfirst kind hkind)
    · exact List.mem_append_right _ (ihq hsecond kind hkind)
  | star p ih =>
    obtain ⟨words, rfl, hwords⟩ := Language.mem_kstar.1 h
    intro kind hkind
    obtain ⟨word, hword, hmem⟩ := List.mem_flatten.1 hkind
    exact ih (hwords word hword) kind hmem

/-- If the root is refused no menu follows. -/
theorem not_mem_of_refused {disabled : Bool} {rest : List EventKind}
    (h : (session disabled).Reads (.sessionStarted :: .purchaseRefused :: rest)) :
    .menuPresented ∉ rest := by
  intro hmenu
  cases disabled with
  | true =>
    have hmem := h.mem_letters .purchaseRefused (by simp)
    simp [session, fallback, letters] at hmem
  | false =>
    obtain ⟨started, hstarted, after, hafter, hkinds⟩ := Language.mem_mul.1 h
    obtain rfl : started = [.sessionStarted] := hstarted
    obtain rfl : after = .purchaseRefused :: rest := (List.cons.inj hkinds).2
    rcases hafter with hrefused | hperformed
    · obtain ⟨first, hfirst, last, hlast, hkinds⟩ := Language.mem_mul.1 hrefused
      obtain rfl : first = [.purchaseRefused] := hfirst
      obtain rfl : last = rest := (List.cons.inj hkinds).2
      have hmem := Reads.mem_letters hlast .menuPresented hmenu
      simp [closing, optional, letters] at hmem
    · -- nothing of a performed commit, of a closing or of a menu starts with a refusal
      obtain ⟨first, hfirst, last, hlast, hkinds⟩ := Language.mem_mul.1 hperformed
      cases first with
      | cons kind more =>
        obtain rfl : kind = .purchaseRefused := (List.cons.inj hkinds).1
        have hmem := Reads.mem_letters hfirst .purchaseRefused List.mem_cons_self
        simp [performed, optional, letters] at hmem
      | nil =>
        obtain rfl : last = .purchaseRefused :: rest := hkinds
        rcases hlast with hclosing | hoffering
        · have hmem := Reads.mem_letters hclosing .purchaseRefused List.mem_cons_self
          simp [closing, optional, letters] at hmem
        · obtain ⟨menu, hmenu', more, -, hkinds⟩ := Language.mem_mul.1 hoffering
          obtain ⟨listed, hlisted, texts, -, rfl⟩ := Language.mem_mul.1 hmenu'
          obtain rfl : listed = [.menuPresented] := hlisted
          cases hkinds

end Protocol

/-! ## What is told and shown -/

/-- The text that is made known. -/
def Happening.text? : Happening → Option Json
  | .textPresented text => some text
  | _ => none

/-- The text that a presenter is asked to show. The text above a menu counts if there is one. -/
def Presentation.text? : Presentation → Option Json
  | .text _ shown => some shown
  | .menu _ shown _ => if shown.isTruthy then some shown else none
  | .confirm _ _ => none

namespace Session

/-- On the way from one session to another events come in an order, and the texts among them are those
that the presenter was asked to show and those that the outcome lists. -/
structure Tells (s : Session) (p : Protocol) (t : Session) : Prop where
  parties : t.parties = s.parties
  told : ∃ (whats : List Happening) (shown : List Presentation) (texts : List Json),
    t.scene.events = s.scene.events ++ whats.map (⟨some s.speaker.id, ·⟩) ∧
    t.presenter.shown = s.presenter.shown ++ shown ∧
    t.outcome.texts = s.outcome.texts ++ texts ∧
    p.Reads (whats.map Happening.kind) ∧
    whats.filterMap Happening.text? = texts ∧ shown.filterMap Presentation.text? = texts

variable {s t u : Session} {p q : Protocol}

theorem Tells.trans (hst : s.Tells p t) (htu : t.Tells q u) : s.Tells (p * q) u := by
  obtain ⟨hparties, whats, shown, texts, hevents, hshown, htexts, hreads, htold, hasked⟩ := hst
  obtain ⟨hparties', whats', shown', texts', hevents', hshown', htexts', hreads', htold', hasked'⟩ :=
    htu
  have hspeaker : some t.speaker.id = some s.speaker.id := congrArg Parties.npc hparties
  refine ⟨hparties'.trans hparties, whats ++ whats', shown ++ shown', texts ++ texts', ?_, ?_, ?_, ?_,
    ?_, ?_⟩
  · rw [hevents', hevents, hspeaker, List.map_append, List.append_assoc]
  · rw [hshown', hshown, List.append_assoc]
  · rw [htexts', htexts, List.append_assoc]
  · rw [List.map_append]
    exact hreads.append hreads'
  · rw [List.filterMap_append, htold, htold']
  · rw [List.filterMap_append, hasked, hasked']

/-- What is told in one order is told in any order that allows it. -/
theorem Tells.mono (h : s.Tells p t) (hpq : ∀ kinds, p.Reads kinds → q.Reads kinds) :
    s.Tells q t := by
  obtain ⟨hparties, whats, shown, texts, hevents, hshown, htexts, hreads, htold, hasked⟩ := h
  exact ⟨hparties, whats, shown, texts, hevents, hshown, htexts, hpq _ hreads, htold, hasked⟩

theorem Tells.left (h : s.Tells p t) : s.Tells (p + q) t :=
  h.mono fun _ => .left

theorem Tells.right (h : s.Tells q t) : s.Tells (p + q) t :=
  h.mono fun _ => .right

/-- Something that may be left out was told. -/
theorem Tells.some (h : s.Tells p t) : s.Tells p.optional t :=
  h.right

/-- Silence before or after what is told does not matter. -/
theorem Tells.after (h : s.Tells 1 t) (h' : t.Tells p u) : s.Tells p u := by
  refine (h.trans h').mono fun kinds hkinds => ?_
  rwa [Protocol.Reads, RegularExpression.matches'_mul, RegularExpression.matches'_epsilon,
    one_mul] at hkinds

theorem Tells.before (h : s.Tells p t) (h' : t.Tells 1 u) : s.Tells p u := by
  refine (h.trans h').mono fun kinds hkinds => ?_
  rwa [Protocol.Reads, RegularExpression.matches'_mul, RegularExpression.matches'_epsilon,
    mul_one] at hkinds

/-- Nothing is told, and no text is shown. -/
theorem tells_nothing (shown : List Presentation) (hparties : t.parties = s.parties)
    (hevents : t.scene.events = s.scene.events)
    (hshown : t.presenter.shown = s.presenter.shown ++ shown)
    (hasked : shown.filterMap Presentation.text? = [])
    (htexts : t.outcome.texts = s.outcome.texts) : s.Tells 1 t :=
  ⟨hparties, [], shown, [], by simp [hevents], hshown, by simp [htexts], Protocol.reads_one, rfl,
    hasked⟩

/-- Nothing is told or shown. -/
theorem tells_of_silence (hparties : t.parties = s.parties)
    (hevents : t.scene.events = s.scene.events) (hpresenter : t.presenter.shown = s.presenter.shown)
    (htexts : t.outcome.texts = s.outcome.texts) : s.Tells 1 t :=
  tells_nothing [] hparties hevents (by simp [hpresenter]) rfl htexts

theorem Tells.refl (s : Session) : s.Tells 1 s :=
  tells_of_silence rfl rfl rfl rfl

/-- It may be left out. -/
theorem Tells.none (h : s.Tells 1 t) : s.Tells p.optional t :=
  h.left

/-! ## Single events -/

/-- An event that is no text. -/
theorem publish_tells (s : Session) (what : Happening) (h : what.text? = Option.none) :
    s.Tells (.char what.kind) (s.publish what) :=
  ⟨rfl, [what], [], [], rfl, by simp [publish], by simp [publish], Protocol.reads_char _,
    by simp [h], rfl⟩

/-- A text that the presenter does not fail at is shown and made known. -/
theorem present_tells {text : Json} (h : s.present text = (.ok (), t)) :
    s.Tells (.char .textPresented) t := by
  unfold present at h
  dsimp only at h
  split at h
  · cases h
  · cases h
    exact ⟨rfl, [.textPresented text], [.text s.phase text], [text], rfl, rfl, rfl,
      Protocol.reads_char _, rfl, rfl⟩

theorem close_tells (s : Session) : s.Tells (.char .sessionClosed) s.close := by
  have hended : s.Tells 1 { s with phase := .closed, menu := [], options := [] } :=
    tells_of_silence rfl rfl rfl rfl
  exact hended.after (publish_tells _ .sessionClosed rfl)

theorem cancel_tells (s : Session) : s.Tells Protocol.cancelling s.cancel := by
  have hcancelled : s.Tells 1 { s with outcome := { s.outcome with cancelled := true } } :=
    tells_of_silence rfl rfl rfl rfl
  exact (hcancelled.after (publish_tells _ .sessionCancelled rfl)).trans (close_tells _)

/-- A text is shown, if there is one, before the session closes. -/
theorem closeWith_tells {text : Json} (h : s.closeWith text = (.ok (), t)) :
    s.Tells Protocol.closing t := by
  unfold closeWith at h
  split at h
  · obtain ⟨shown, hpresented, rfl⟩ := presentLast_ok h
    exact (present_tells hpresented).some.trans (close_tells shown)
  · cases h
    exact (Tells.refl s).none.trans (close_tells s)

/-! ## Silence -/

theorem enter_tells (s : Session) (phase : Phase) : s.Tells 1 (s.enter phase) :=
  tells_of_silence rfl rfl rfl rfl

theorem runBody_tells (s : Session) (body : List Statement) : s.Tells 1 (s.runBody body).2 :=
  tells_of_silence rfl rfl rfl rfl

theorem substitute_tells (s : Session) (text : String) : s.Tells 1 (s.substitute text).2 :=
  tells_of_silence rfl rfl rfl rfl

theorem substituteLine_tells (s : Session) (line : Json) : s.Tells 1 (s.substituteLine line).2 := by
  cases line with
  | str text => exact substitute_tells s text
  | _ => exact .refl s

theorem shownText_tells (s : Session) (turn : Turn) (result : CommitResult) :
    s.Tells 1 (s.shownText turn result).2 := by
  cases result with
  | refused =>
    have hrefused : s.Tells 1 { s with outcome := { s.outcome with refused := true } } :=
      tells_of_silence rfl rfl rfl rfl
    exact hrefused.after (substituteLine_tells _ _)
  | committed written => exact substituteLine_tells s _

theorem closingText_tells (s : Session) (text : Json) (turn : Turn) :
    s.Tells 1 (s.closingText text turn).2 := by
  unfold closingText
  split
  · exact substituteLine_tells s _
  · exact .refl s

theorem entriesFor_tells (s : Session) (index : Nat) (choices : List Choice) :
    s.Tells 1 (s.entriesFor index choices).2 := by
  induction choices generalizing s index with
  | nil => exact .refl s
  | cons choice rest ih =>
    have hspoken : s.Tells 1 { s with dice := (s.dice.speak choice.label).2 } :=
      tells_of_silence rfl rfl rfl rfl
    have hlabel := hspoken.after (substitute_tells _ (s.dice.speak choice.label).1)
    rw [entriesFor]
    dsimp only
    split
    · next hworded => rwa [hworded] at hlabel
    · next named hworded =>
      rw [hworded] at hlabel
      have hrest := ih named (index + 1)
      split
      · next hnamed =>
        rw [hnamed] at hrest
        exact hlabel.after hrest
      · next hnamed =>
        rw [hnamed] at hrest
        exact hlabel.after hrest

theorem buildMenu_tells (s : Session) (options : List Choice) :
    s.Tells 1 (s.buildMenu options).2 := by
  unfold buildMenu
  dsimp only
  generalize hkept : ({ s with scene := _, options := _ } : Session) = kept
  have hcut : s.Tells 1 kept := by
    rw [← hkept]
    split <;> exact tells_of_silence rfl rfl rfl rfl
  have hnamed := hcut.after (entriesFor_tells kept 0 (options.take menuRoom))
  split
  · next hmenu => rwa [hmenu] at hnamed
  · next hmenu =>
    rw [hmenu] at hnamed
    exact hnamed.after (tells_of_silence rfl rfl rfl rfl)

end Session

/-! ## Commits -/

/-- The order of what a commit tells, by its result. -/
def CommitResult.protocol : CommitResult → Protocol
  | .refused => Protocol.refused
  | .committed _ => Protocol.performed

/-- What is told of the price, the variables and the items of a turn comes in this order. -/
theorem Protocol.reads_performed {turn : Turn} {written : List (String × Value)}
    {items : List Happening} (hitems : ∀ what ∈ items, what.IsDelivery) :
    Protocol.performed.Reads ((turn.toll ++ told written ++ items).map Happening.kind) := by
  rw [List.map_append, List.map_append]
  refine Reads.append (Reads.append ?_ (reads_star ?_)) (reads_star ?_)
  · unfold Turn.toll
    split
    · exact reads_one.left
    · exact (reads_char _).right
  · intro kind hkind
    simp only [told, List.map_map, List.mem_map, Function.comp_apply] at hkind
    obtain ⟨w, -, rfl⟩ := hkind
    exact reads_char _
  · intro kind hkind
    obtain ⟨what, hwhat, rfl⟩ := List.mem_map.1 hkind
    rcases hitems what hwhat with hgiven | hoffered
    · rw [hgiven]
      exact (reads_char _).left
    · rw [hoffered]
      exact (reads_char _).right

/-- No text is told of by a commit. -/
theorem filterMap_text?_of_commit {turn : Turn} {written : List (String × Value)}
    {items : List Happening} (hitems : ∀ what ∈ items, what.IsDelivery) :
    (turn.toll ++ told written ++ items).filterMap Happening.text? = [] := by
  refine List.filterMap_eq_nil_iff.2 fun what hwhat => ?_
  have hkind : what.kind ≠ .textPresented := by
    simp only [Turn.toll, told, List.mem_append, List.mem_map] at hwhat
    rcases hwhat with (htoll | ⟨w, -, rfl⟩) | hitem
    · split at htoll
      · cases htoll
      · rw [List.mem_singleton.1 htoll]
        simp [Happening.kind]
    · simp [Happening.kind]
    · rcases hitems what hitem with hgiven | hoffered
      · simp [hgiven]
      · simp [hoffered]
  cases what with
  | textPresented text => exact absurd rfl hkind
  | _ => rfl

/-- A commit that is answered has told of itself in the order of its result, and of no text. -/
theorem Parties.commit_tells {p : Parties} {turn left : Turn} {scene after : Scene}
    {result : CommitResult} (hpublishes : p.publishes = true)
    (h : p.commit turn scene = (.ok result, left, after)) :
    ∃ whats : List Happening, after.events = scene.events ++ whats.map (⟨p.npc, ·⟩) ∧
      result.protocol.Reads (whats.map Happening.kind) ∧ whats.filterMap Happening.text? = [] := by
  have hends := p.commit_ends turn scene
  rw [h] at hends
  have hnews : ∀ whats, p.news whats = whats.map (⟨p.npc, ·⟩) := fun whats => if_pos hpublishes
  cases hends with
  | refused hprice hkept hevents =>
    exact ⟨[.purchaseRefused turn.spendTotal], by rw [hevents, hnews], Protocol.reads_char _, rfl⟩
  | applied charged hpays hmanifest happlies =>
    obtain ⟨written, items, -, hitems, hevents⟩ := happlies.events
    refine ⟨turn.toll ++ told written ++ items, ?_, ?_, filterMap_text?_of_commit hitems⟩
    · rw [hevents, ← hnews, news_append, news_append]
      simp only [List.append_assoc]
    · cases result with
      | refused => exact absurd rfl happlies.answer
      | committed written => exact Protocol.reads_performed hitems

/-! ## The parts of a session -/

namespace Session

variable {s t : Session}

/-- A commit tells of itself in the order of its result, and marks the session if it is refused. -/
theorem commit_tells {turn left : Turn} {text : Json} (hpublishes : s.commitsPublish = true)
    (h : s.commit turn = (.ok (text, left), t)) :
    ∃ result : CommitResult, s.Tells result.protocol t ∧
      t.outcome.refused = (s.outcome.refused || result.isRefused) := by
  have hmarked := commit_ok h
  rw [commit] at h
  rcases hcommit : s.parties.commit turn s.scene with ⟨answer, left', after⟩
  rw [hcommit] at h
  cases answer with
  | error fault => cases h
  | ok result =>
    obtain ⟨whats, hevents, hreads, htexts⟩ :=
      Parties.commit_tells (p := s.parties) hpublishes hcommit
    have hsettled : s.Tells result.protocol { s with scene := after } :=
      ⟨rfl, whats, [], [], hevents, by simp, by simp, hreads, htexts, rfl⟩
    have hshown := hsettled.before (shownText_tells { s with scene := after } left' result)
    dsimp only at h
    generalize ({ s with scene := after } : Session).shownText left' result = shown at h hshown
    obtain ⟨shown, s'⟩ := shown
    cases shown with
    | error fault => cases h
    | ok shown =>
      cases h
      obtain ⟨result', hsettle, hstanding, -⟩ := hmarked
      have hresult : result' = result := by
        have hsame := Parties.commit_settle hcommit
        rw [hsettle] at hsame
        exact Except.ok.inj (congrArg Prod.fst hsame)
      rw [hresult] at hstanding
      exact ⟨result, hshown, congrArg Standing.refused hstanding⟩

theorem conclude_tells {text : Json} {turn : Turn} (h : s.conclude text turn = (.ok (), t)) :
    s.Tells Protocol.closing t := by
  have hclosing := closingText_tells s text turn
  rw [conclude_eq] at h
  generalize s.closingText text turn = answer at h hclosing
  obtain ⟨answer, s'⟩ := answer
  cases answer with
  | error fault => cases h
  | ok text => exact hclosing.after (closeWith_tells h)

/-- The entries of a menu are made known, and then its text, if there is one; the presenter is asked to
show both at once. -/
theorem presentMenu_tells {text : Json} {answer : MenuAnswer}
    (h : (s.openMenu text).presentMenu text = (.ok answer, t)) :
    s.Tells (.char .menuPresented * Protocol.optional (.char .textPresented)) t := by
  rw [openMenu] at h
  by_cases htext : text.isTruthy = true
  · rw [if_pos htext, presentMenu] at h
    dsimp only at h
    split at h
    · cases h
    · next env hwrites =>
      obtain ⟨-, rfl⟩ := Prod.mk.inj h
      refine ⟨rfl, [.menuPresented (s.menu.map MenuEntry.label), .textPresented text],
        [.menu .awaitingChoice text s.menu], [text], ?_, rfl, rfl, ?_, rfl, ?_⟩
      · simp [showText, publish, ask, enter, Scene.publish]
      · exact (Protocol.reads_char _).append (Protocol.reads_char _).right
      · simp [Presentation.text?, htext]
  · rw [if_neg htext, presentMenu] at h
    dsimp only at h
    split at h
    · cases h
    · next env hwrites =>
      obtain ⟨-, rfl⟩ := Prod.mk.inj h
      refine ⟨rfl, [.menuPresented (s.menu.map MenuEntry.label)],
        [.menu .awaitingChoice text s.menu], [], rfl, rfl, by simp [publish, ask, enter], ?_, rfl, ?_⟩
      · exact (Protocol.reads_char _).append Protocol.reads_one.left
      · simp [Presentation.text?, htext]

theorem settle_tells {turn : Turn} (hpublishes : s.commitsPublish = true)
    (h : s.settle turn = (.ok (), t)) :
    s.Tells ((Protocol.refused + Protocol.performed) * Protocol.closing) t := by
  unfold settle at h
  split at h
  · cases h
  · next text left settled hcommit =>
    obtain ⟨result, hsettled, -⟩ := commit_tells (s := s.enter .resolving) hpublishes hcommit
    refine Tells.trans ((enter_tells s .resolving).after ?_) (closeWith_tells h)
    cases result with
    | refused => exact hsettled.left
    | committed written => exact hsettled.right

theorem resolve_tells {index : Nat} {choice : Choice} (hpublishes : s.commitsPublish = true)
    (h : s.resolve index choice = (.ok (), t)) : s.Tells Protocol.choosing t := by
  have hchosen : s.Tells 1 { s with outcome := { s.outcome with chosen := some index } } :=
    tells_of_silence rfl rfl rfl rfl
  have hstart : s.Tells (.char .optionSelected) (s.choose index) :=
    hchosen.after (publish_tells _ (.optionSelected index _) rfl)
  have hran := hstart.before (runBody_tells (s.choose index) choice.body)
  rw [resolve_eq, execute] at h
  split at h
  · cases h
  · next turn ran hrun =>
    rw [hrun] at hran
    -- asking for consent shows no text
    have hasked : ran.Tells 1 (ran.consult turn).2 := by
      unfold consult
      split
      · split
        · exact .refl ran
        · exact tells_nothing _ rfl rfl rfl rfl rfl
      · exact .refl ran
    have hconsent := hran.before hasked
    rcases hconsulted : ran.consult turn with ⟨_ | _ | _, asked⟩
    · rw [hconsulted] at h
      cases h
    · rw [hconsulted] at h hconsent
      cases h
      exact hconsent.trans (cancel_tells _).left
    · rw [hconsulted] at h hconsent
      have hpublishes' : asked.commitsPublish = true :=
        (congrArg Parties.publishes hconsent.parties).trans hpublishes
      exact hconsent.trans (settle_tells hpublishes' h).right

theorem follow_tells {answer : MenuAnswer} (hpublishes : s.commitsPublish = true)
    (h : s.follow answer = (.ok (), t)) : s.Tells (Protocol.cancelling + Protocol.choosing) t := by
  rw [follow.eq_def] at h
  split at h
  · split at h
    · exact (resolve_tells hpublishes h).right
    · -- a number that no option of the menu has
      cases h
      exact (cancel_tells s).left
  · cases h
    exact (cancel_tells s).left
  · next document _ =>
    cases h
    have hnoted : s.Tells 1 { s with scene := s.scene.noteAll [.invalidChoice document] } :=
      tells_of_silence rfl rfl rfl rfl
    exact (hnoted.after (cancel_tells _)).left

theorem offer_tells {text : Json} {options : List Choice} (hpublishes : s.commitsPublish = true)
    (h : s.offer text options = (.ok (), t)) : s.Tells Protocol.offering t := by
  have hmenu := buildMenu_tells s options
  rw [offer_eq] at h
  split at h
  · cases h
  · next built hbuilt =>
    rw [hbuilt] at hmenu
    split at h
    · cases h
    · next answer asked hasked =>
      have hpresented := hmenu.after (presentMenu_tells hasked)
      have hpublishes' : asked.commitsPublish = true :=
        (congrArg Parties.publishes hpresented.parties).trans hpublishes
      exact hpresented.trans (follow_tells hpublishes' h)

/-- The commit of the root tells of itself, and marks the session if it is refused. -/
theorem settleRoot_tells {text : Json} {left : Turn} (hnew : s.outcome.refused = false)
    (hpublishes : s.commitsPublish = true) (h : s.settleRoot = (.ok (text, left), t)) :
    ∃ result : CommitResult, s.Tells result.protocol t ∧ t.outcome.refused = result.isRefused := by
  have hran := runBody_tells s s.script.body
  unfold settleRoot at h
  split at h
  · cases h
  · next turn ran hrun =>
    rw [hrun] at hran
    obtain ⟨w, -, hstanding⟩ := runBody_ok hrun
    have hunmarked : ran.outcome.refused = false :=
      (congrArg Standing.refused hstanding).trans hnew
    have hpublishes' : ran.commitsPublish = true :=
      (congrArg Parties.publishes hran.parties).trans hpublishes
    obtain ⟨result, hsettled, hrefused⟩ := commit_tells hpublishes' h
    rw [hunmarked, Bool.false_or] at hrefused
    exact ⟨result, hran.after hsettled, hrefused⟩

theorem play_tells (hnew : s.outcome.refused = false) (hpublishes : s.commitsPublish = true)
    (h : s.play = (.ok (), t)) : s.Tells (Protocol.session s.script.disabled) t := by
  have hstart : s.Tells (.char .sessionStarted) s.started :=
    publish_tells s (.sessionStarted s.script.archetype) rfl
  unfold Protocol.session
  rw [play_eq] at h
  split at h
  · next hdisabled =>
    rw [if_pos hdisabled]
    have hentered := hstart.before (enter_tells s.started .presenting)
    obtain ⟨shown, hpresented, rfl⟩ := presentLast_ok h
    exact (hentered.trans (present_tells hpresented)).trans (close_tells shown)
  · next henabled =>
    rw [if_neg henabled]
    refine hstart.trans ?_
    split at h
    · cases h
    · next text left settled hroot =>
      obtain ⟨result, hsettled, hrefused⟩ := settleRoot_tells (s := s.started) hnew hpublishes hroot
      have hcommitted := hsettled.before (enter_tells settled .presenting)
      have hpublishes' : (settled.enter .presenting).commitsPublish = true :=
        (congrArg Parties.publishes hcommitted.parties).trans hpublishes
      rw [proceed, isOver, show (settled.enter .presenting).outcome.refused = _ from hrefused] at h
      cases result with
      | refused =>
        -- the mark of a refusal keeps the menu away
        rw [if_pos (by simp [CommitResult.isRefused])] at h
        exact (hcommitted.trans (conclude_tells h)).left
      | committed written =>
        refine Tells.right (hcommitted.trans ?_)
        split at h
        · exact (conclude_tells h).left
        · exact (offer_tells hpublishes' h).right

/-- A session that returns has told of itself in the order of its protocol, all in the name of its
speaker. If its root was refused no menu followed. The texts that it made known are those that its
outcome lists, and those that the presenter was asked to show, as texts or above a menu. -/
theorem run_protocol (hnew : s.outcome = {}) (hpublishes : s.commitsPublish = true)
    (h : s.run = (.ok (), t)) :
    ∃ (whats : List Happening) (shown : List Presentation),
      t.scene.events = s.scene.events ++ whats.map (⟨some s.speaker.id, ·⟩) ∧
      t.presenter.shown = s.presenter.shown ++ shown ∧
      (Protocol.session s.script.disabled).Reads (whats.map Happening.kind) ∧
      (∀ rest, whats.map Happening.kind = .sessionStarted :: .purchaseRefused :: rest →
        .menuPresented ∉ rest) ∧
      whats.filterMap Happening.text? = t.outcome.texts ∧
      shown.filterMap Presentation.text? = t.outcome.texts := by
  have hplay : s.play = (.ok (), t) := by
    rw [run] at h
    split at h
    · exact h
    · cases h
  obtain ⟨-, whats, shown, texts, hevents, hshown, htexts, hreads, htold, hasked⟩ :=
    play_tells (by rw [hnew]) hpublishes hplay
  have hall : t.outcome.texts = texts := by
    rw [htexts, hnew]
    exact List.nil_append texts
  refine ⟨whats, shown, hevents, hshown, hreads, ?_, htold.trans hall.symm, hasked.trans hall.symm⟩
  intro rest hrest
  rw [hrest] at hreads
  exact Protocol.not_mem_of_refused hreads

/-- The purchase tells of its start and its menu, of the choice and what it costs, and of its end. -/
theorem run_protocol_of_purchase :
    purchase.outcome = {} ∧ purchase.commitsPublish = true ∧
    ∃ t, purchase.run = (.ok (), t) ∧ ∃ whats : List Happening,
      t.scene.events = purchase.scene.events ++ whats.map (⟨some purchase.speaker.id, ·⟩) ∧
      whats.map Happening.kind = [.sessionStarted, .menuPresented, .optionSelected, .currencySpent,
        .sessionClosed] ∧
      (Protocol.session purchase.script.disabled).Reads (whats.map Happening.kind) := by
  have hreturns : (purchase.run.1.toOption.map fun _ => true) = some true := by decide +kernel
  obtain ⟨_, hanswer, -⟩ := exists_of_toOption_map hreturns
  have hrun : purchase.run = (.ok (), purchase.run.2) := Prod.ext hanswer rfl
  have hkinds : purchase.run.2.scene.events.map (·.what.kind) = [.sessionStarted, .menuPresented,
      .optionSelected, .currencySpent, .sessionClosed] := by decide +kernel
  obtain ⟨whats, shown, hevents, -, hreads, -⟩ := run_protocol rfl rfl hrun
  refine ⟨rfl, rfl, purchase.run.2, hrun, whats, hevents, ?_, hreads⟩
  rw [hevents] at hkinds
  rw [← hkinds]
  show _ = List.map _ ([] ++ _)
  rw [List.nil_append, List.map_map]
  rfl

end Session

end Parley
