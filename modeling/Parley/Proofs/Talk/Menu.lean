import Parley.Proofs.Talk.Course
import Parley.Proofs.Talk.Display
import Parley.Proofs.Talk.Visits

/-!
# Menus and Choices Agree

A menu lists the options that the root gathered, and its answer is looked up among the options that were
kept for it. These are two lists, one of entries and one of options. We prove that they stay side by side:

* `Session.buildMenu_lists`: a menu has one entry for each option that it has room for (`ListsOptions`);
* `Session.presentMenu_waits`: while a menu is open nothing happens to either list;
* `Session.run_menu`: the body that is run is the one whose entry was answered with, and an answer that is
  no place in the menu leads to no body at all.
-/

namespace Parley

/-- The letters that entries are chosen by. -/
def menuLetters : List Char :=
  "abcdefghijklmnopqrstuvwxyz".toList

/-- Entries list options: each at its place, under its letter, and labelled as it is spoken and worded
after those before it. -/
structure ListsOptions (lore : Lore) (dice : Dice) (options : List Choice)
    (entries : List MenuEntry) : Prop where
  length : entries.length = options.length
  keys : entries.map MenuEntry.key = menuLetters.take options.length
  entry : ∀ i choice, options[i]? = some choice → ∃ key label,
    entries[i]? = some ⟨i, key, label⟩ ∧
      lore.word ((dice.afterAll ((options.take i).map Choice.label)).speak choice.label).1 = .ok label

/-- No two entries have the same key, as no letter is given twice. -/
theorem ListsOptions.keys_distinct {lore : Lore} {dice : Dice} {options : List Choice}
    {entries : List MenuEntry} (h : ListsOptions lore dice options entries) :
    entries.Pairwise fun e e' => e.key ≠ e'.key := by
  have hletters : menuLetters.Nodup := by decide
  rw [← List.pairwise_map (f := MenuEntry.key) (R := (· ≠ ·)), h.keys]
  exact hletters.sublist (List.take_sublist _ _)

namespace Session

variable {s t : Session}

/-- Entries are made one by one, from a place on. -/
theorem entriesFor_entry {index : Nat} {choices : List Choice} {menu : List MenuEntry}
    (h : s.entriesFor index choices = (.ok menu, t)) :
    menu.length = choices.length ∧ ∀ i choice, choices[i]? = some choice → ∃ label,
      menu[i]? = some ⟨index + i, menuKey (index + i), label⟩ ∧
      s.lore.word ((s.dice.afterAll ((choices.take i).map Choice.label)).speak choice.label).1 =
        .ok label := by
  induction choices generalizing s index menu with
  | nil =>
    cases h
    exact ⟨rfl, fun i choice hchoice => by simp at hchoice⟩
  | cons choice rest ih =>
    rw [entriesFor] at h
    dsimp only at h
    rcases hworded : ({ s with dice := (s.dice.speak choice.label).2 } : Session).substitute
      (s.dice.speak choice.label).1 with ⟨fault | label, named⟩
    · rw [hworded] at h
      cases h
    · rw [hworded] at h
      dsimp only at h
      -- a label is worded by the same lore, and the next one is spoken with the dice it left
      have hlabel : s.lore.word (s.dice.speak choice.label).1 = .ok label :=
        (substitute_answer _ _).symm.trans (congrArg Prod.fst hworded)
      have hlore : s.lore = named.lore := congrArg (fun x => x.2.lore) hworded
      have hdice : (s.dice.speak choice.label).2 = named.dice := congrArg (fun x => x.2.dice) hworded
      rcases hrest : named.entriesFor (index + 1) rest with ⟨fault | more, last⟩
      · rw [hrest] at h
        cases h
      · rw [hrest] at h
        cases h
        obtain ⟨hlength, hentry⟩ := ih hrest
        refine ⟨congrArg (· + 1) hlength, fun i c hc => ?_⟩
        cases i with
        | zero =>
          obtain rfl : choice = c := Option.some.inj hc
          exact ⟨label, rfl, hlabel⟩
        | succ i =>
          obtain ⟨text, hplace, htext⟩ := hentry i c hc
          rw [Nat.add_right_comm, Nat.add_assoc] at hplace
          refine ⟨text, hplace, ?_⟩
          rw [← hlore, ← hdice] at htext
          exact htext

theorem menuLetters_getElem? : ∀ i < menuRoom, menuLetters[i]? = some (menuKey i) := by
  decide

/-- A menu lists the options that it has room for. -/
theorem buildMenu_lists {options : List Choice} (h : s.buildMenu options = (.ok (), t)) :
    ListsOptions s.lore s.dice (options.take menuRoom) t.menu := by
  unfold buildMenu at h
  dsimp only at h
  generalize hkept : ({ s with scene := _, options := _ } : Session) = kept at h
  have hlore : kept.lore = s.lore := by rw [← hkept]
  have hdice : kept.dice = s.dice := by rw [← hkept]
  split at h
  · cases h
  · next menu named hnamed =>
    cases h
    obtain ⟨hlength, hentry⟩ := entriesFor_entry hnamed
    rw [hlore, hdice] at hentry
    simp only [Nat.zero_add] at hentry
    refine ⟨hlength, ?_, fun i choice hchoice => ?_⟩
    · refine List.ext_getElem? fun i => ?_
      by_cases hi : i < (options.take menuRoom).length
      · obtain ⟨label, hplace, -⟩ := hentry i _ (List.getElem?_eq_getElem hi)
        have hroom : i < menuRoom := Nat.lt_of_lt_of_le hi (List.length_take_le _ _)
        rw [List.getElem?_map, hplace, List.getElem?_take_of_lt hi, menuLetters_getElem? i hroom]
        rfl
      · -- beyond the last entry there is neither a key nor a letter
        have hend := Nat.le_of_not_lt hi
        rw [List.getElem?_eq_none, List.getElem?_eq_none]
        · exact Nat.le_trans (List.length_take_le _ _) hend
        · rwa [List.length_map, hlength]
    · obtain ⟨label, hplace, hlabel⟩ := hentry i choice hchoice
      exact ⟨_, label, hplace, hlabel⟩

/-- The session at the answer to a menu that it has shown. -/
structure WaitsAt (s m : Session) (text : Json) (entries : List MenuEntry) (options : List Choice)
    (dice : Dice) : Prop where
  cast : m.cast = s.cast
  phase : m.phase = .awaitingChoice
  shown : m.presenter.shown = s.presenter.shown ++ [.menu .awaitingChoice text entries]
  menu : m.menu = entries
  options : m.options = options
  dice : m.dice = dice

/-- While the menu is open the lists stay as they are, whatever the presenter writes. -/
theorem presentMenu_waits (s : Session) (text : Json) :
    s.WaitsAt ((s.openMenu text).presentMenu text).2 text s.menu s.options s.dice := by
  obtain ⟨hcast, hphase, hshown, hmenu, hoptions, hdice⟩ : (s.openMenu text).cast = s.cast ∧
      (s.openMenu text).phase = .awaitingChoice ∧
      (s.openMenu text).presenter.shown = s.presenter.shown ∧
      (s.openMenu text).menu = s.menu ∧ (s.openMenu text).options = s.options ∧
      (s.openMenu text).dice = s.dice := by
    unfold openMenu
    dsimp only
    split <;> exact ⟨rfl, rfl, rfl, rfl, rfl, rfl⟩
  generalize s.openMenu text = opened at *
  have hasked : (opened.ask (.menu opened.phase text opened.menu)).presenter.shown =
      s.presenter.shown ++ [.menu .awaitingChoice text s.menu] := by
    rw [← hshown, ← hphase, ← hmenu]
    rfl
  unfold presentMenu
  dsimp only
  split
  · exact ⟨hcast, hphase, hasked, hmenu, hoptions, hdice⟩
  · exact ⟨hcast, hphase, hasked, hmenu, hoptions, hdice⟩

/-- The place of an option chooses that option. -/
theorem follow_of_place {i : Nat} {choice : Choice} (h : s.options[i]? = some choice) :
    s.follow (.reply (.int i)) = s.resolve i choice := by
  have hplace : s.chosenIndex? (.reply (.int i)) = some i :=
    if_pos (List.getElem?_eq_some_iff.1 h).1
  rw [follow.eq_def, hplace]
  dsimp only
  rw [h]

/-- Whatever is no place of an option chooses nothing. -/
theorem follow_of_other {document : Json}
    (h : ∀ i : Nat, i < s.options.length → document ≠ .int i) :
    s.follow (.reply document) =
      (.ok (), ({ s with scene := s.scene.noteAll [.invalidChoice document] } : Session).cancel) := by
  have hnone : s.chosenIndex? (.reply document) = none := by
    rw [chosenIndex?.eq_def]
    split
    · next n hanswer => exact if_neg fun hn => h n hn (MenuAnswer.reply.inj hanswer)
    · rfl
  rw [follow.eq_def, hnone]

/-- How a session that waits at a menu ends by an answer. The place of an entry leads to the body of the
option in that place, and whatever else is answered to no body. -/
inductive Obeys (m : Session) (ending : Except Fault Unit × Session) : MenuAnswer → Prop
  | chosen {i : Nat} {choice : Choice} {entry : MenuEntry} (hoption : m.options[i]? = some choice)
      (hentry : m.menu[i]? = some entry) (h : ending = (m.choose i).execute choice.body) :
      Obeys m ending (.reply (.int i))
  | cancelled (h : ending = (.ok (), m.cancel)) : Obeys m ending .cancel
  | invalid {document : Json} (hother : ∀ i : Nat, i < m.menu.length → document ≠ .int i)
      (h : ending = (.ok (),
        ({ m with scene := m.scene.noteAll [.invalidChoice document] } : Session).cancel)) :
      Obeys m ending (.reply document)

theorem follow_obeys {m : Session} (hsame : m.menu.length = m.options.length)
    (answer : MenuAnswer) : m.Obeys (m.follow answer) answer := by
  cases answer with
  | cancel => exact .cancelled rfl
  | reply document =>
    by_cases hplace : ∃ i : Nat, i < m.options.length ∧ document = .int i
    · obtain ⟨i, hi, rfl⟩ := hplace
      have hoption := List.getElem?_eq_getElem hi
      have hentry := List.getElem?_eq_getElem (hsame ▸ hi)
      exact .chosen hoption hentry ((follow_of_place hoption).trans (resolve_eq m i _))
    · have hother : ∀ i : Nat, i < m.options.length → document ≠ .int i :=
        fun i hi hdocument => hplace ⟨i, hi, hdocument⟩
      exact .invalid (hsame ▸ hother) (follow_of_other hother)

/-- A run shows a menu only if its root was committed and its options could be listed, and then it goes on
with the answer to that menu. -/
theorem exists_of_shows_menu {phase : Phase} {text : Json} {entries : List MenuEntry}
    (h : s.Shows (.menu phase text entries)) :
    phase = .awaitingChoice ∧ ∃ left settled built,
      s.started.settleRoot = (.ok (text, left), settled) ∧
      (settled.enter .presenting).buildMenu left.options = (.ok (), built) ∧ built.menu = entries ∧
      s.run = match (built.openMenu text).presentMenu text with
        | (.error fault, m) => (.error fault, m)
        | (.ok answer, m) => m.follow answer := by
  have hnothing : s.run.2.presenter.shown ≠ s.presenter.shown := by
    intro hsame
    rw [← List.append_nil s.presenter.shown] at hsame
    rw [shows_iff hsame] at h
    cases h
  have hidle : s.phase = .idle := by
    refine Decidable.byContradiction fun hran => hnothing ?_
    rw [run_of_not_idle hran]
  have hrun := run_of_idle hidle
  have hfront := settleRoot_front s.started
  cases hdisabled : s.script.disabled with
  | true =>
    rw [play_of_disabled hdisabled] at hrun
    rw [shows_iff (by rw [hrun]; exact (fallBack_goesOn s.started).shown), List.mem_singleton] at h
    cases h
  | false =>
    rw [play_of_enabled hdisabled] at hrun
    rcases hsettled : s.started.settleRoot with ⟨fault | ⟨said, left⟩, settled⟩
    · rw [hsettled] at hrun hfront
      refine absurd ?_ hnothing
      rw [hrun]
      exact congrArg (fun f => f.presenter.shown) hfront
    · rw [hsettled] at hrun hfront
      have hshown : (settled.enter .presenting).presenter.shown = s.presenter.shown :=
        congrArg (fun f => f.presenter.shown) hfront
      have hrunning : (settled.enter .presenting).phase ≠ .idle := Phase.noConfusion
      dsimp only at hrun
      unfold proceed at hrun
      split at hrun
      · -- a session that closes with a text shows no menu
        rw [shows_iff (by rw [hrun, ← hshown]; exact (conclude_goesOn hrunning said left).shown)] at h
        split at h
        · cases h
        · cases (mem_textsOf.1 h).2
      · rcases offer_goesOn hrunning said left.options with
          ⟨_, _, _, hended⟩ | ⟨built, later, hbuilt, hended, haftermath⟩
        · rw [shows_iff (by rw [hrun, ← hshown]; exact hended.shown)] at h
          cases h
        · rw [shows_iff (by rw [hrun, ← hshown]; exact hended.shown)] at h
          rcases List.mem_cons.1 h with hmenu | hlater
          · obtain ⟨rfl, rfl, rfl⟩ := Presentation.menu.inj hmenu
            have hoffered := offer_eq (settled.enter .presenting) text left.options
            rw [hbuilt] at hoffered
            exact ⟨rfl, left, settled, built, rfl, hbuilt, rfl, hrun.trans hoffered⟩
          · exact (haftermath _ hlater).elim

/-- While a menu is open a write may be refused, or the presenter fails. -/
theorem presentMenu_error {text : Json} {fault : Fault} (h : s.presentMenu text = (.error fault, t)) :
    (writeAll s.scene.env s.presenter.writes).1 = .error fault ∨
      ∃ error, s.presenter.breaks t.presenter.shown = some error ∧ fault = .presenter error := by
  unfold presentMenu at h
  dsimp only at h
  split at h
  · next hwrites =>
    cases h
    exact .inl (congrArg Prod.fst hwrites)
  · obtain ⟨hreply, rfl⟩ := Prod.mk.inj h
    exact .inr (Presenter.breaks_of_reply hreply)

/-- Menu and choice agree. If a run shows a menu, then it ran its root, whose options are those that it
came to while their guards held, in the order in which they are written. The menu has an entry for each
of the first 26 of them. The session then waits with that menu and those options, and goes on with the
answer: the place of an entry leads to the body of the option in that place, and every other answer to no
body at all. All that can come between are the writes that others make meanwhile, if one of them is
refused, and a fault of the presenter at the menu. -/
theorem run_menu {phase : Phase} {text : Json} {entries : List MenuEntry}
    (h : s.Shows (.menu phase text entries)) :
    ∃ root w m,
      Walk.run s.scene.env (some s.speaker.id) s.dice s.script.body = (.ok root, w) ∧
      root.options = (Walk.visitsBody s.scene.env s.script.body
        (Walk.start (some s.speaker.id) s.dice)).filterMap (Walk.offered? s.scene.env) ∧
      (root.options.map Choice.statement).Sublist (Statement.surfaceBody s.script.body) ∧
      entries.length = min root.options.length 26 ∧
      ListsOptions s.lore w.dice (root.options.take 26) entries ∧
      entries.Pairwise (fun e e' => e.key ≠ e'.key) ∧
      s.WaitsAt m text entries (root.options.take 26)
        (w.dice.afterAll ((root.options.take 26).map Choice.label)) ∧
      (m.Obeys s.run (s.presenter.answers.headD .cancel) ∨
        (∃ fault env, (writeAll env s.presenter.writes).1 = .error fault ∧
          s.run = (.error fault, m)) ∨
        ∃ error, s.presenter.breaks m.presenter.shown = some error ∧
          s.run = (.error (.presenter error), m)) := by
  obtain ⟨-, left, settled, built, hroot, hbuilt, rfl, hrun⟩ := exists_of_shows_menu h
  obtain ⟨root, w, hwalk, hoptions, hdice⟩ := settleRoot_ok hroot
  -- behind the scenes, up to the menu, the session keeps its lore and its presenter
  have hsettled : settled.front = s.front := by
    have hfront := settleRoot_front s.started
    rwa [hroot] at hfront
  have hshown : built.presenter = s.presenter := by
    have hfront := buildMenu_front (settled.enter .presenting) left.options
    rw [hbuilt] at hfront
    exact (congrArg Front.presenter hfront).trans (congrArg Front.presenter hsettled)
  have hcast : built.cast = s.cast := by
    have hmenu := (buildMenu_reaches (settled.enter .presenting) left.options).cast
    have hopening := (settleRoot_reaches s.started).cast
    rw [hbuilt] at hmenu
    rw [hroot] at hopening
    exact hmenu.trans hopening
  have hlists : ListsOptions s.lore w.dice (root.options.take menuRoom) built.menu := by
    rw [← hoptions, ← hdice, show s.lore = settled.lore from (congrArg Front.lore hsettled).symm]
    exact buildMenu_lists (s := settled.enter .presenting) hbuilt
  have hkept := buildMenu_ok hbuilt
  rw [hoptions] at hkept
  have hafter : built.dice = w.dice.afterAll ((root.options.take menuRoom).map Choice.label) := by
    rw [← hdice]
    exact congrArg Standing.dice hkept
  -- the answer comes to a session that still has the menu and its options
  have hwaits := presentMenu_waits built text
  have hwaiting : s.WaitsAt ((built.openMenu text).presentMenu text).2 text built.menu
      (root.options.take menuRoom)
      (w.dice.afterAll ((root.options.take menuRoom).map Choice.label)) :=
    ⟨hwaits.cast.trans hcast, hwaits.phase, by rw [hwaits.shown, hshown], hwaits.menu,
      hwaits.options.trans (congrArg Standing.options hkept), hwaits.dice.trans hafter⟩
  refine ⟨root, w, _, hwalk, Walk.run_options hwalk, Walk.run_options_sublist hwalk, ?_, hlists,
    hlists.keys_distinct, hwaiting, ?_⟩
  · rw [hlists.length, List.length_take, Nat.min_comm]
    rfl
  · have hpresenter : (built.openMenu text).presenter = s.presenter :=
      (congrArg Front.presenter (openMenu_front built text)).trans hshown
    rcases hanswer : (built.openMenu text).presentMenu text with ⟨fault | answer, m⟩
    · rw [hanswer] at hrun
      rcases presentMenu_error hanswer with hwrites | ⟨error, hbreaks, rfl⟩
      · rw [hpresenter] at hwrites
        exact .inr (.inl ⟨fault, _, hwrites, hrun⟩)
      · rw [hpresenter] at hbreaks
        exact .inr (.inr ⟨error, hbreaks, hrun⟩)
    · obtain ⟨env, -, hfirst, -⟩ := presentMenu_ok hanswer
      rw [hanswer] at hrun hwaiting
      rw [hpresenter] at hfirst
      have hsame : m.menu.length = m.options.length := by
        rw [hwaiting.menu, hwaiting.options, hlists.length]
      rw [hrun, ← hfirst]
      exact .inl (follow_obeys hsame answer)

/-- The purchase has a menu of one entry. The player answers with its place, and the body of the option
is run. -/
theorem run_menu_of_purchase :
    purchase.Shows (.menu .awaitingChoice (.str "") [⟨0, 'a', "Buy"⟩]) ∧
      ∃ m : Session, m.menu = [⟨0, 'a', "Buy"⟩] ∧ purchase.run = (m.choose 0).execute [.spend 4] := by
  have hshows : purchase.Shows (.menu .awaitingChoice (.str "") [⟨0, 'a', "Buy"⟩]) := by
    decide +kernel
  obtain ⟨root, w, m, hwalk, -, -, -, -, -, hwaits,
    hobeys | ⟨fault, env, hwrites, -⟩ | ⟨error, hbreaks, -⟩⟩ := run_menu hshows
  · cases hwalk
    refine ⟨hshows, m, hwaits.menu, ?_⟩
    cases hobeys with
    | chosen hoption _ h =>
      rw [hwaits.options] at hoption
      cases hoption
      exact h
    | invalid hother _ =>
      rw [hwaits.menu] at hother
      exact absurd rfl (hother 0 Nat.zero_lt_one)
  · -- nobody writes while the menu is open
    cases hwrites
  · cases hbreaks

end Session

end Parley
