import Mathlib.Logic.Relation
import Parley.Proofs.Bus.Roster

/-!
# Walking over a Roster

A delivery looks at one place of its roster after the other. We take it apart into these steps, so
that what every step keeps is kept up to any point of the walk, whether or not the walk ever ends:

* `Walk.Next`, `Walk.Ends`: one place on, and the end of a walk; `run_iff`: a walk that is run to
  its end is a sequence of these;
* `react_induction`: what the actions of a call keep is kept by the call;
* `Walk.Grows`: entries are put into the roster that is walked over and none are taken from it;
* `Next.grows`, `Ends.grows`: this is so at every step, if the rosters are numbered.
-/

namespace Parley.Bus.Walk

open Relation

variable {reactions : Reactions} {w w' w'' u : Walk} {s t : Subscription}

/-! ## Steps -/

/-- The first point of a walk over a roster. -/
def start (b : Bus) (e : Event) (number : Nat) : Walk :=
  { bus := b, event := e, number }

/-- The subscription that a walk calls next, if it does not come upon a dead one and is not at its
end. -/
def next? (w : Walk) : Option Subscription :=
  w.entries[w.place]?.filter fun s => !w.isDead s

theorem next?_eq_some_iff :
    w.next? = some s ↔ w.entries[w.place]? = some s ∧ w.isDead s = false := by
  rw [next?, Option.filter_eq_some_iff, Bool.not_eq_true']

/-- The walk after it has met an entry. -/
def visit (w : Walk) (reactions : Reactions) (s : Subscription) : Walk :=
  if w.isDead s then w.skip else w.meet reactions s

/-- The walk at the beginning of a call. -/
def answering (w : Walk) (s : Subscription) : Walk :=
  { w with bus := w.bus.record (.called s w.event), calling := some s.handler }

/-- The walk after a call, whose entry may have ended with it. -/
theorem visit_of_lives (hlives : w.isDead s = false) (reactions : Reactions) :
    w.visit reactions s =
      let after := (w.answering s).react s (reactions (w.answering s).bus.journal)
      if s.oneShot then after.vacate else after := by
  rw [visit, if_neg (by simp [hlives])]
  rfl

theorem visit_of_dead (hdead : w.isDead s = true) (reactions : Reactions) :
    w.visit reactions s = w.skip :=
  if_pos hdead

/-- Whether the walk stops at an entry: its call has put an end to the event. -/
def stopsAt (w : Walk) (reactions : Reactions) (s : Subscription) : Bool :=
  !w.isDead s && (w.meet reactions s).event.consumed

/-- A walk goes on to the next place. -/
inductive Next (reactions : Reactions) : Walk → Walk → Prop
  | intro {w : Walk} {s : Subscription} (hmeets : w.entries[w.place]? = some s)
      (hgoes : w.stopsAt reactions s = false) : Next reactions w (w.visit reactions s).advance

/-- A walk ends. -/
inductive Ends (reactions : Reactions) : Walk → Walk → Prop
  /-- There are no more entries. -/
  | exhausted {w : Walk} (hnone : w.entries[w.place]? = none) : Ends reactions w w
  /-- The event has come to an end. -/
  | stopped {w : Walk} {s : Subscription} (hmeets : w.entries[w.place]? = some s)
      (hstops : w.stopsAt reactions s = true) : Ends reactions w (w.visit reactions s)

theorem run_succ (reactions : Reactions) (fuel : Nat) (w : Walk) :
    run reactions (fuel + 1) w = match w.entries[w.place]? with
      | none => some w
      | some s =>
        if w.stopsAt reactions s then some (w.visit reactions s)
        else run reactions fuel (w.visit reactions s).advance := by
  rw [run]
  cases w.entries[w.place]? with
  | none => rfl
  | some s =>
    dsimp only
    cases hdead : w.isDead s with
    | true => simp only [if_true, visit, stopsAt, hdead, Bool.not_true, Bool.false_and,
        Bool.false_eq_true, if_false]
    | false => simp only [visit, stopsAt, hdead, Bool.not_false, Bool.true_and,
        Bool.false_eq_true, if_false]

/-- A step leads to one walk only. -/
theorem Next.eq (h : Next reactions w w') (h' : Next reactions w w'') : w' = w'' := by
  obtain ⟨hmeets, -⟩ := h
  obtain ⟨hmeets', -⟩ := h'
  cases hmeets.symm.trans hmeets'
  rfl

/-- A walk that ends does not go on. -/
theorem Ends.not_next (h : Ends reactions w w') : ¬ Next reactions w w'' := by
  rintro ⟨hmeets, hgoes⟩
  cases h with
  | exhausted hnone =>
    rw [hnone] at hmeets
    cases hmeets
  | stopped hmeets' hstops =>
    cases hmeets.symm.trans hmeets'
    rw [hgoes] at hstops
    cases hstops

theorem run_of_next (h : Next reactions w w') (fuel : Nat) :
    run reactions (fuel + 1) w = run reactions fuel w' := by
  obtain ⟨hmeets, hgoes⟩ := h
  rw [run_succ, hmeets]
  dsimp only
  rw [if_neg (by simp [hgoes])]

theorem run_of_ends (h : Ends reactions w w') (fuel : Nat) :
    run reactions (fuel + 1) w = some w' := by
  cases h with
  | exhausted hnone => rw [run_succ, hnone]
  | stopped hmeets hstops =>
    rw [run_succ, hmeets]
    dsimp only
    rw [if_pos hstops]

/-- A walk ends or goes on. -/
theorem ends_or_next (reactions : Reactions) (w : Walk) :
    (∃ w', Ends reactions w w') ∨ ∃ w', Next reactions w w' := by
  cases hmeets : w.entries[w.place]? with
  | none => exact .inl ⟨w, .exhausted hmeets⟩
  | some s =>
    cases hstops : w.stopsAt reactions s with
    | true => exact .inl ⟨_, .stopped hmeets hstops⟩
    | false => exact .inr ⟨_, hmeets, hstops⟩

/-- A walk that is run to its end goes on for some places and ends. -/
theorem run_iff : (∃ fuel, run reactions fuel w = some w') ↔
    ∃ u, ReflTransGen (Next reactions) w u ∧ Ends reactions u w' := by
  constructor
  · rintro ⟨fuel, hrun⟩
    -- The induction is on the fuel, one unit of which is used up at every place.
    induction fuel generalizing w with
    | zero => cases hrun
    | succ fuel ih =>
      rcases ends_or_next reactions w with ⟨v, hends⟩ | ⟨v, hnext⟩
      · rw [run_of_ends hends] at hrun
        cases hrun
        exact ⟨w, .refl, hends⟩
      · rw [run_of_next hnext] at hrun
        obtain ⟨u, hsteps, hends⟩ := ih hrun
        exact ⟨u, hsteps.head hnext, hends⟩
  · rintro ⟨u, hsteps, hends⟩
    induction hsteps using ReflTransGen.head_induction_on with
    | refl => exact ⟨1, run_of_ends hends 0⟩
    | head hnext _ ih =>
      obtain ⟨fuel, hrun⟩ := ih
      exact ⟨fuel + 1, (run_of_next hnext fuel).trans hrun⟩

/-- More fuel does not change where a walk ends. -/
theorem run_mono {fuel fuel' : Nat} (h : run reactions fuel w = some w') (hle : fuel ≤ fuel') :
    run reactions fuel' w = some w' := by
  induction fuel generalizing w fuel' with
  | zero => cases h
  | succ fuel ih =>
    obtain ⟨more, rfl⟩ : ∃ more, fuel' = more + 1 := ⟨fuel' - 1, by omega⟩
    rcases ends_or_next reactions w with ⟨v, hends⟩ | ⟨v, hnext⟩
    · rw [run_of_ends hends] at h ⊢
      exact h
    · rw [run_of_next hnext] at h ⊢
      exact ih h (by omega)

/-! ## Calls -/

/-- What every action of a call keeps, and its failure too, is kept by the call. -/
theorem react_induction {P : Walk → Prop} {actions : List Action}
    (hperform : ∀ w, ∀ a ∈ actions, w.bus.refusal? a = none → P w → P (w.perform a))
    (hfail : ∀ w, P w → P (w.fail s)) (h : P w) : P (w.react s actions) := by
  induction actions generalizing w with
  | nil => exact h
  | cons a rest ih =>
    cases a with
    | fail => exact hfail w h
    | _ =>
      rw [react]
      · split
        · exact hfail w h
        · next hallowed =>
          rw [Option.isSome_iff_ne_none, not_not] at hallowed
          exact ih (fun v b hb => hperform v b (List.mem_cons_of_mem _ hb))
            (hperform w _ List.mem_cons_self hallowed h)
      · exact nofun

/-- A call does not move the walk. -/
theorem react_place (w : Walk) (s : Subscription) (actions : List Action) :
    (w.react s actions).place = w.place ∧ (w.react s actions).vacating = w.vacating ∧
      (w.react s actions).calling = w.calling := by
  refine react_induction (P := fun v => v.place = w.place ∧ v.vacating = w.vacating ∧
    v.calling = w.calling) (fun v a _ _ hv => ?_) (fun v hv => hv) ⟨rfl, rfl, rfl⟩
  cases a <;> exact hv

/-- A call changes the event in nothing but its end. -/
theorem react_event (w : Walk) (s : Subscription) (actions : List Action) :
    (w.react s actions).event.kind = w.event.kind ∧ (w.react s actions).event.data = w.event.data := by
  refine react_induction (P := fun v => v.event.kind = w.event.kind ∧ v.event.data = w.event.data)
    (fun v a _ _ hv => ?_) (fun v hv => hv) ⟨rfl, rfl⟩
  cases a <;> exact hv

/-! ## What a walk keeps -/

/-- The rosters are numbered, and the walk has not left the one that it is over. -/
structure Sound (w : Walk) : Prop where
  bus : w.bus.Sound
  number : w.number < w.bus.count w.event.kind
  place : w.place ≤ w.entries.length

theorem sound_start {b : Bus} {e : Event} {number : Nat} (h : b.Sound)
    (hcurrent : b.current e.kind = some number) : (start b e number).Sound :=
  ⟨h, h.current hcurrent, Nat.zero_le _⟩

/-- Between two points of a walk, entries are put into the roster that is walked over, with numbers
that were still to be given, and none are taken from it. -/
structure Grows (w w' : Walk) : Prop where
  kind : w'.event.kind = w.event.kind
  data : w'.event.data = w.event.data
  number : w'.number = w.number
  made : w.bus.made ≤ w'.bus.made
  /-- The older entries are those that there were, in the same order. -/
  old : ∀ m ≤ w.bus.made, w'.entries.filter (·.serial < m) = w.entries.filter (·.serial < m)
  /-- There are no more new entries than subscriptions were made. -/
  room : w'.entries.length + w.bus.made ≤ w.entries.length + w'.bus.made

theorem Grows.refl (w : Walk) : Grows w w :=
  ⟨rfl, rfl, rfl, Nat.le_refl _, fun _ _ => rfl, Nat.le_refl _⟩

theorem Grows.trans (h : Grows w w') (h' : Grows w' w'') : Grows w w'' where
  kind := h'.kind.trans h.kind
  data := h'.data.trans h.data
  number := h'.number.trans h.number
  made := Nat.le_trans h.made h'.made
  old m hm := (h'.old m (Nat.le_trans hm h.made)).trans (h.old m hm)
  room := by
    have := h.room
    have := h'.room
    omega

/-- All entries of a numbered roster are still there, in the same order. -/
theorem Grows.filter_eq (h : Grows w w') (hw : w.Sound) :
    w'.entries.filter (·.serial < w.bus.made) = w.entries := by
  rw [h.old _ (Nat.le_refl _), List.filter_eq_self]
  intro s hs
  exact decide_eq_true (hw.bus.numbered _ _ s hs)

theorem Grows.sublist (h : Grows w w') (hw : w.Sound) : w.entries.Sublist w'.entries := by
  rw [← h.filter_eq hw]
  exact List.filter_sublist

/-- An older entry was there before. -/
theorem Grows.mem (h : Grows w w') (hw : w.Sound) (hs : s ∈ w'.entries)
    (hold : s.serial < w.bus.made) : s ∈ w.entries := by
  rw [← h.filter_eq hw]
  exact List.mem_filter.2 ⟨hs, decide_eq_true hold⟩

theorem perform_entries (w : Walk) (a : Action) :
    (w.perform a).entries = (w.bus.act a).rosters w.event.kind w.number := by
  cases a <;> rfl

theorem Sound.perform (h : w.Sound) (a : Action) : (w.perform a).Sound ∧ Grows w (w.perform a) := by
  have hkind : (w.perform a).event.kind = w.event.kind := by cases a <;> rfl
  have hdata : (w.perform a).event.data = w.event.data := by cases a <;> rfl
  have hnumber : (w.perform a).number = w.number := by cases a <;> rfl
  have hplace : (w.perform a).place = w.place := by cases a <;> rfl
  have hcount := w.bus.count_le_act a w.event.kind
  have hmade : (w.perform a).bus.made = (w.bus.act a).made := by rw [perform_bus]
  have hgrows : Grows w (w.perform a) := by
    rcases w.bus.act_rosters a h.number with ⟨hsame, hle⟩ | ⟨s, hserial, hsucc, henlist, -⟩
    · refine ⟨hkind, hdata, hnumber, hmade ▸ hle, fun m _ => ?_, ?_⟩
      · rw [perform_entries, hsame, entries]
      · rw [perform_entries, hsame, hmade, entries]
        exact Nat.add_le_add_left hle _
    · refine ⟨hkind, hdata, hnumber, by omega, fun m hm => ?_, ?_⟩
      · rw [perform_entries, henlist, filter_enlist (decide_eq_false (by omega)), entries]
      · rw [perform_entries, henlist, length_enlist, hmade, hsucc, entries]
        omega
  refine ⟨⟨?_, ?_, ?_⟩, hgrows⟩
  · rw [perform_bus]
    exact h.bus.act a
  · rw [perform_bus, hkind, hnumber]
    exact Nat.lt_of_lt_of_le h.number (w.bus.count_le_act a w.event.kind)
  · rw [hplace]
    exact Nat.le_trans h.place (hgrows.sublist h).length_le

/-- A walk that differs in nothing but what it holds and what it has noted. -/
theorem Sound.congr {v : Walk} (h : w.Sound) (hbus : v.bus.Sound)
    (hrosters : v.bus.rosters = w.bus.rosters) (hcount : v.bus.count = w.bus.count)
    (hmade : v.bus.made = w.bus.made) (hevent : v.event = w.event) (hnumber : v.number = w.number)
    (hplace : v.place ≤ w.entries.length) : v.Sound ∧ Grows w v := by
  have hentries : v.entries = w.entries := by
    rw [entries, entries, hrosters, hevent, hnumber]
  refine ⟨⟨hbus, ?_, ?_⟩, by rw [hevent], by rw [hevent], hnumber,
    Nat.le_of_eq hmade.symm, fun m _ => ?_, ?_⟩
  · rw [hcount, hevent, hnumber]
    exact h.number
  · rw [hentries]
    exact hplace
  · rw [hentries]
  · exact Nat.le_of_eq (by rw [hentries, hmade])

theorem Sound.react (h : w.Sound) (s : Subscription) (actions : List Action) :
    (w.react s actions).Sound ∧ Grows w (w.react s actions) := by
  refine react_induction (P := fun v => v.Sound ∧ Grows w v) (fun v a _ _ hv => ?_) (fun v hv => ?_)
    ⟨h, .refl w⟩
  · obtain ⟨hsound, hgrows⟩ := hv.1.perform a
    exact ⟨hsound, hv.2.trans hgrows⟩
  · obtain ⟨hsound, hgrows⟩ := hv.1.congr (v := v.fail s) (hv.1.bus.record _) rfl rfl rfl rfl rfl
      hv.1.place
    exact ⟨hsound, hv.2.trans hgrows⟩

/-- A walk that has met the entry at its place has not moved. -/
theorem visit_place (w : Walk) (reactions : Reactions) (s : Subscription) :
    (w.visit reactions s).place = w.place := by
  cases hdead : w.isDead s with
  | true => rw [visit_of_dead hdead]; rfl
  | false =>
    rw [visit_of_lives hdead]
    dsimp only
    split <;> exact (react_place _ _ _).1

theorem visit_event (w : Walk) (reactions : Reactions) (s : Subscription) :
    (w.visit reactions s).event.kind = w.event.kind ∧
      (w.visit reactions s).event.data = w.event.data := by
  cases hdead : w.isDead s with
  | true => rw [visit_of_dead hdead]; exact ⟨rfl, rfl⟩
  | false =>
    rw [visit_of_lives hdead]
    dsimp only
    split <;> exact react_event _ _ _

/-- The place of an entry that is dead or ends with its call is to be vacated. -/
theorem visit_vacating (w : Walk) (reactions : Reactions) (s : Subscription) :
    (w.visit reactions s).vacating =
      if w.isDead s || s.oneShot then w.place :: w.vacating else w.vacating := by
  cases hdead : w.isDead s with
  | true => rw [visit_of_dead hdead]; rfl
  | false =>
    obtain ⟨hplace, hvacating, -⟩ :=
      react_place (w.answering s) s (reactions (w.answering s).bus.journal)
    rw [visit_of_lives hdead, Bool.false_or]
    dsimp only
    split
    · rw [vacate, hplace, hvacating]
      rfl
    · exact hvacating

theorem Sound.answering (h : w.Sound) (s : Subscription) :
    (w.answering s).Sound ∧ Grows w (w.answering s) :=
  h.congr (h.bus.record _) rfl rfl rfl rfl rfl h.place

theorem Sound.visit (h : w.Sound) (reactions : Reactions) (s : Subscription) :
    (w.visit reactions s).Sound ∧ Grows w (w.visit reactions s) := by
  cases hdead : w.isDead s with
  | true =>
    rw [visit_of_dead hdead]
    exact h.congr h.bus rfl rfl rfl rfl rfl h.place
  | false =>
    -- The call is noted, then the handler acts, then the place is marked.
    obtain ⟨hsound, hgrows⟩ := h.answering s
    obtain ⟨hsound', hgrows'⟩ := hsound.react s (reactions (w.answering s).bus.journal)
    rw [visit_of_lives hdead]
    dsimp only
    split
    · obtain ⟨hsound'', hgrows''⟩ := hsound'.congr (v := Walk.vacate _) hsound'.bus rfl rfl rfl rfl
        rfl hsound'.place
      exact ⟨hsound'', (hgrows.trans hgrows').trans hgrows''⟩
    · exact ⟨hsound', hgrows.trans hgrows'⟩

/-- A walk goes on over the roster that it has begun with. -/
theorem Next.grows (h : Next reactions w w') (hw : w.Sound) :
    w'.Sound ∧ Grows w w' ∧ w'.place = w.place + 1 := by
  obtain ⟨hmeets, -⟩ := h
  rename_i s
  obtain ⟨hsound, hgrows⟩ := hw.visit reactions s
  have hplace : (w.visit reactions s).advance.place = w.place + 1 := by
    rw [advance, visit_place]
  have hlt : w.place < w.entries.length := (List.getElem?_eq_some_iff.1 hmeets).1
  obtain ⟨hsound', hgrows'⟩ := hsound.congr (v := (w.visit reactions s).advance) hsound.bus rfl rfl
    rfl rfl rfl (hplace ▸ Nat.lt_of_lt_of_le hlt (hgrows.sublist hw).length_le)
  exact ⟨hsound', hgrows.trans hgrows', hplace⟩

theorem Ends.grows (h : Ends reactions w w') (hw : w.Sound) :
    w'.Sound ∧ Grows w w' ∧ w'.place = w.place := by
  cases h with
  | exhausted _ => exact ⟨hw, .refl w, rfl⟩
  | stopped hmeets _ =>
    obtain ⟨hsound, hgrows⟩ := hw.visit reactions _
    exact ⟨hsound, hgrows, visit_place _ _ _⟩

/-- What holds of one place after the other holds along a walk. -/
theorem grows_of_steps (h : ReflTransGen (Next reactions) w w') (hw : w.Sound) :
    w'.Sound ∧ Grows w w' ∧ w.place ≤ w'.place := by
  induction h with
  | refl => exact ⟨hw, .refl w, Nat.le_refl _⟩
  | tail _ hnext ih =>
    obtain ⟨hsound, hgrows, hplace⟩ := ih
    obtain ⟨hsound', hgrows', hplace'⟩ := hnext.grows hsound
    exact ⟨hsound', hgrows.trans hgrows', by omega⟩

end Parley.Bus.Walk
