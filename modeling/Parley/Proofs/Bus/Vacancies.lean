import Mathlib.Data.List.Forall2
import Parley.Proofs.Bus.Lifetimes
import Parley.Proofs.Bus.Moments
import Parley.Proofs.Bus.Recall

/-!
# Vacated Places

A walk notes the places of entries that it finds dead or calls for their only time, and vacates
these places when it has ended. Meanwhile entries may be put ahead of them. So the places need not
hold the entries any more for which they were noted.

* `mem_foldl_eraseIdx`: what is left when places are vacated, the last one first;
* `Walk.Noted`: what a walk has noted is behind or at the places it has noted, and it is dead or was
  called; `Noted.visit`: this is kept at every place;
* `Noted.vacated_iff`: the places hold what was noted, and only this, exactly if each place still
  holds the entry for which it was noted.
-/

namespace Parley.Bus

open Walk

variable {s : Subscription} {entries spent : List Subscription} {places : List Nat}

/-! ## Vacating -/

theorem mem_foldl_eraseIdx (h : places.Pairwise (· > ·)) :
    s ∈ places.foldl List.eraseIdx entries ↔ ∃ i, i ∉ places ∧ entries[i]? = some s := by
  induction places generalizing entries with
  | nil => simp [List.mem_iff_getElem?]
  | cons p rest ih =>
    obtain ⟨hp, hrest⟩ := List.pairwise_cons.1 h
    rw [List.foldl_cons, ih hrest]
    simp only [List.getElem?_eraseIdx, List.mem_cons, not_or]
    constructor
    · rintro ⟨i, hi, hget⟩
      split at hget
      · exact ⟨i, ⟨by omega, hi⟩, hget⟩
      · refine ⟨i + 1, ⟨by omega, fun hmem => ?_⟩, hget⟩
        have := hp _ hmem
        omega
    · rintro ⟨i, ⟨hne, hi⟩, hget⟩
      by_cases hlt : i < p
      · exact ⟨i, hi, by rw [if_pos hlt]; exact hget⟩
      · -- The places that are still to be vacated come before the one that was.
        refine ⟨i - 1, fun hmem => ?_, ?_⟩
        · have := hp _ hmem
          omega
        · rw [if_neg (by omega), Nat.sub_add_cancel (by omega)]
          exact hget

theorem exists_place_iff_mem
    (h : List.Forall₂ (fun p t => entries[p]? = some t) places spent) (s : Subscription) :
    (∃ p ∈ places, entries[p]? = some s) ↔ s ∈ spent := by
  induction h with
  | nil => simp
  | @cons p t places spent hplace _ ih =>
    simp only [List.mem_cons, exists_eq_or_imp, ih, hplace, Option.some.injEq, eq_comm (a := t)]

/-- If entries stand at or behind places, from the last place to the first, and there is one of them
at every place, then each of them stands at its own place. -/
theorem forall₂_of_exists (hnodup : entries.Nodup) (hdescending : places.Pairwise (· > ·))
    (hbehind : List.Forall₂ (fun p t => ∃ i, p ≤ i ∧ entries[i]? = some t) places spent)
    (h : ∀ p ∈ places, ∃ t ∈ spent, entries[p]? = some t) :
    List.Forall₂ (fun p t => entries[p]? = some t) places spent := by
  have hunique : ∀ {i j : Nat} {t}, entries[i]? = some t → entries[j]? = some t → i = j := by
    intro i j t hi hj
    exact (List.getElem?_inj (List.getElem?_eq_some_iff.1 hi).1 hnodup).1 (hi.trans hj.symm)
  induction hbehind with
  | nil => exact .nil
  | @cons p t places spent hfirst _ ih =>
    obtain ⟨i, hle, hi⟩ := hfirst
    obtain ⟨hp, hrest⟩ := List.pairwise_cons.1 hdescending
    have htail := ih hrest fun q hq => by
      obtain ⟨u, hu, hget⟩ := h q (List.mem_cons_of_mem _ hq)
      rcases List.mem_cons.1 hu with rfl | hu
      · -- The last entry stands behind all other places.
        have := hunique hget hi
        have := hp q hq
        omega
      · exact ⟨u, hu, hget⟩
    refine .cons ?_ htail
    obtain ⟨u, hu, hget⟩ := h p List.mem_cons_self
    rcases List.mem_cons.1 hu with rfl | hu
    · exact hget
    · obtain ⟨q, hq, hget'⟩ := (exists_place_iff_mem htail u).2 hu
      have := hunique hget hget'
      have := hp q hq
      omega

namespace Walk

variable {reactions : Reactions} {w : Walk} {bound : Nat}

/-- What a walk has noted: the places from the last to the first, and as many entries, none of which
has moved ahead of its place, and each of which is dead or was called for its only time. -/
structure Noted (w : Walk) (bound : Nat) (spent : List Subscription) : Prop where
  descending : w.vacating.Pairwise (· > ·)
  below : ∀ p ∈ w.vacating, p < bound
  behind : List.Forall₂ (fun p s => ∃ i, p ≤ i ∧ w.entries[i]? = some s) w.vacating spent
  reason : ∀ s ∈ spent, w.isDead s = true ∨ s.oneShot = true ∧ 0 < w.bus.calls s

theorem noted_start (b : Bus) (e : Event) (number : Nat) : (start b e number).Noted 0 [] :=
  ⟨.nil, nofun, .nil, nofun⟩

/-- What was noted still stands at or behind its places when an entry was met. -/
theorem Noted.behind_visit (h : w.Noted bound spent) (hw : w.Sound) (reactions : Reactions)
    (s : Subscription) :
    List.Forall₂ (fun p t => ∃ i, p ≤ i ∧ (w.visit reactions s).entries[i]? = some t)
      w.vacating spent := by
  obtain ⟨hsound, hgrows⟩ := hw.visit reactions s
  refine h.behind.imp fun p t hplace => ?_
  obtain ⟨i, hle, hi⟩ := hplace
  exact ⟨_, Nat.le_trans hle (Nat.le_add_right i _), (hgrows.getElem?_iff hw hsound hi).2 rfl⟩

/-- What was noted is dead or was called, and so is the entry that was met, if it is noted. -/
theorem Noted.reason_visit (h : w.Noted bound spent) (hw : w.Sound)
    (hmeets : w.entries[w.place]? = some s) (reactions : Reactions) :
    ∀ t ∈ w.spend spent, (w.visit reactions s).isDead t = true ∨
      t.oneShot = true ∧ 0 < (w.visit reactions s).bus.calls t := by
  have hdead : ∀ t, w.isDead t = true → (w.visit reactions s).isDead t = true := by
    intro t ht
    obtain ⟨hweak, hgone⟩ := isDead_iff.1 ht
    exact isDead_iff.2 ⟨hweak, hgone.visit hw hmeets reactions⟩
  have hold : ∀ t ∈ spent, (w.visit reactions s).isDead t = true ∨
      t.oneShot = true ∧ 0 < (w.visit reactions s).bus.calls t := by
    intro t ht
    rcases h.reason t ht with ht | ⟨honeShot, hcalls⟩
    · exact .inl (hdead t ht)
    · refine .inr ⟨honeShot, ?_⟩
      rw [calls_visit]
      exact Nat.add_pos_left hcalls _
  rw [spend_of_meets hmeets]
  split
  · next hspent =>
    intro t ht
    rcases List.mem_cons.1 ht with rfl | ht
    · cases hlives : w.isDead t with
      | true => exact .inl (hdead t hlives)
      | false =>
        rw [hlives, Bool.false_or] at hspent
        refine .inr ⟨hspent, ?_⟩
        rw [calls_visit, if_pos ⟨hlives, rfl⟩]
        exact Nat.succ_pos _
    · exact hold t ht
  · exact hold

theorem Noted.visit (h : w.Noted w.place spent) (hw : w.Sound)
    (hmeets : w.entries[w.place]? = some s) (reactions : Reactions) :
    (w.visit reactions s).Noted (w.place + 1) (w.spend spent) := by
  have hbehind := h.behind_visit hw reactions s
  have hbelow : ∀ p ∈ w.vacating, p < w.place + 1 := fun p hp => Nat.lt_succ_of_lt (h.below p hp)
  obtain ⟨hsound, hgrows⟩ := hw.visit reactions s
  refine ⟨?_, ?_, ?_, h.reason_visit hw hmeets reactions⟩
  · rw [visit_vacating]
    split
    · exact List.pairwise_cons.2 ⟨h.below, h.descending⟩
    · exact h.descending
  · rw [visit_vacating]
    split
    · intro p hp
      rcases List.mem_cons.1 hp with rfl | hp
      · exact Nat.lt_succ_self _
      · exact hbelow p hp
    · exact hbelow
  · rw [visit_vacating, spend_of_meets hmeets]
    split
    · have hplace := (hgrows.getElem?_iff hw hsound hmeets).2 rfl
      exact .cons ⟨_, Nat.le_add_right w.place _, hplace⟩ hbehind
    · exact hbehind

/-- The places that a walk has noted hold what it has noted and nothing else exactly if each place
holds the entry for which it was noted. -/
theorem Noted.vacated_iff (h : w.Noted bound spent) (hw : w.Sound) :
    (∀ s, (∃ p ∈ w.vacating, w.entries[p]? = some s) ↔ s ∈ spent) ↔
      List.Forall₂ (fun p s => w.entries[p]? = some s) w.vacating spent := by
  constructor
  · intro hvacated
    refine forall₂_of_exists hw.nodup h.descending h.behind fun p hp => ?_
    -- There is an entry at the place, since the one for which it was noted is not ahead of it.
    have hlt : p < w.entries.length := by
      obtain ⟨i, hi⟩ := List.getElem_of_mem hp
      obtain ⟨hlength, hplaces⟩ := List.forall₂_iff_get.1 h.behind
      obtain ⟨hi, rfl⟩ := hi
      obtain ⟨j, hle, hj⟩ := hplaces i hi (hlength ▸ hi)
      exact Nat.lt_of_le_of_lt hle (List.getElem?_eq_some_iff.1 hj).1
    refine ⟨w.entries[p], (hvacated _).1 ⟨p, hp, ?_⟩, ?_⟩ <;> exact List.getElem?_eq_getElem hlt
  · exact exists_place_iff_mem

end Walk

end Parley.Bus
