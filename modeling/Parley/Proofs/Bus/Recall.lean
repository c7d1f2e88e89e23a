import Parley.Proofs.Bus.Journal

/-!
# Entries That Are Met Again

A walk goes over the places of a roster while calls put entries into it. An entry that was met moves
back by one place for every entry that is put ahead of it, and the walk comes upon it again if it
moves back as fast as the walk goes on. We say exactly when this happens, and when a walk ends, for
buses with numbered rosters; every bus that has begun empty is one (`sound_of_reached`).

* `newer`: how many of the entries ahead of a subscription have been made since;
* `Grows.getElem?_iff`: the place of an entry is its former place and the newer entries ahead of it;
* `Walk.recalled_iff`: when a subscription is called once at most, how often it can be called, and
  that a walk ends exactly if it makes finitely many subscriptions.
-/

namespace Parley.Bus

variable {s t : Subscription} {entries entries' : List Subscription} {m : Nat}

/-! ## Entries ahead -/

/-- The entries ahead of a subscription. -/
def ahead (s : Subscription) (entries : List Subscription) : List Subscription :=
  entries.takeWhile (· ≠ s)

/-- How many entries ahead of a subscription have a number that was still to be given when the next
one was `m`. -/
def newer (m : Nat) (s : Subscription) (entries : List Subscription) : Nat :=
  (ahead s entries).countP (m ≤ ·.serial)

/-- How many entries ahead of a subscription are not newer. -/
def older (m : Nat) (s : Subscription) (entries : List Subscription) : Nat :=
  (ahead s entries).countP (·.serial < m)

theorem older_add_newer (m : Nat) (s : Subscription) (entries : List Subscription) :
    older m s entries + newer m s entries = (ahead s entries).length := by
  rw [older, newer, List.length_eq_countP_add_countP (·.serial < m)]
  simp

theorem getElem?_eq_some_iff_ahead (h : entries.Nodup) {i : Nat} :
    entries[i]? = some s ↔ s ∈ entries ∧ (ahead s entries).length = i := by
  induction entries generalizing i with
  | nil => simp
  | cons t rest ih =>
    obtain ⟨hnot, hrest⟩ := List.nodup_cons.1 h
    by_cases hts : t = s
    · subst hts
      cases i with
      | zero => simp [ahead]
      | succ i =>
        have hnone : rest[i]? ≠ some t := fun hi => hnot (List.mem_of_getElem? hi)
        simp [ahead, hnone]
    · cases i with
      | zero => simp [ahead, hts]
      | succ i =>
        have := ih hrest (i := i)
        simp [ahead, hts, Ne.symm hts] at this ⊢
        exact this

/-- Of the entries ahead of one that is kept, those that are kept stay ahead of it. -/
theorem ahead_filter {p : Subscription → Bool} (h : p s = true) (entries : List Subscription) :
    (ahead s entries).filter p = ahead s (entries.filter p) := by
  induction entries with
  | nil => rfl
  | cons t rest ih =>
    rw [ahead] at ih ⊢
    by_cases hts : t = s
    · subst hts
      simp [ahead, h]
    · cases hp : p t <;> simp_all [ahead]

namespace Walk

open Relation

variable {reactions : Reactions} {w w' : Walk}

theorem Sound.nodup (h : w.Sound) : w.entries.Nodup :=
  h.bus.nodup _ _

/-- The entries ahead of an entry that were there before are still ahead of it, in the same order.
-/
theorem Grows.ahead_filter (h : Grows w w') (hw : w.Sound) (hs : s ∈ w.entries) :
    (ahead s w'.entries).filter (·.serial < w.bus.made) = ahead s w.entries := by
  rw [Bus.ahead_filter (decide_eq_true (hw.bus.numbered _ _ s hs)), h.filter_eq hw]

/-- As entries are put into a roster, an entry moves back by as many places as newer entries stand
ahead of it. -/
theorem Grows.getElem?_iff (h : Grows w w') (hw : w.Sound) (hw' : w'.Sound) {i j : Nat}
    (hs : w.entries[i]? = some s) :
    w'.entries[j]? = some s ↔ i + newer w.bus.made s w'.entries = j := by
  have hmem : s ∈ w.entries := List.mem_of_getElem? hs
  have hmem' : s ∈ w'.entries := (h.sublist hw).subset hmem
  -- The older entries ahead of it are those that stood ahead of it before.
  have holder : older w.bus.made s w'.entries = i := by
    rw [older, List.countP_eq_length_filter, h.ahead_filter hw hmem]
    exact ((getElem?_eq_some_iff_ahead hw.nodup).1 hs).2
  rw [getElem?_eq_some_iff_ahead hw'.nodup, ← older_add_newer w.bus.made, holder]
  exact and_iff_right hmem'

/-! ## How often an entry is called -/

/-- A point of a walk, be it at one of its places or at its end. -/
def Reaches (reactions : Reactions) (w w' : Walk) : Prop :=
  ∃ u, ReflTransGen (Next reactions) w u ∧ (w' = u ∨ Ends reactions u w')

/-- How often entries were called since a subscription was the next one to be made, if the walk is
about to look at a place. Every further call of an entry takes one more place and one more newer
entry ahead of it. -/
def CallsWithin (m : Nat) (calls : Subscription → Nat) (place : Nat) (w : Walk) : Prop :=
  ∀ s, w.bus.calls s = calls s ∨ s ∈ w.entries ∧
    older m s w.entries + w.bus.calls s ≤ calls s + place ∧
    w.bus.calls s ≤ calls s + 1 + newer m s w.entries

theorem CallsWithin.le {calls : Subscription → Nat} {place : Nat}
    (h : CallsWithin m calls place w) (s : Subscription) :
    w.bus.calls s ≤ calls s + 1 + newer m s w.entries := by
  rcases h s with hsame | ⟨-, -, hle⟩
  · omega
  · exact hle

/-- Of the older entries ahead of an entry none are lost and none are added; newer ones may be
added. -/
theorem Grows.older_newer (h : Grows w w') (hw : w.Sound) (hs : s ∈ w.entries)
    (hm : m ≤ w.bus.made) :
    older m s w'.entries = older m s w.entries ∧ newer m s w.entries ≤ newer m s w'.entries := by
  have hahead := h.ahead_filter hw hs
  constructor
  · rw [older, older, ← hahead, List.countP_filter]
    refine List.countP_congr fun t _ => ?_
    simp only [Bool.and_eq_true, decide_eq_true_eq]
    omega
  · rw [newer, newer, ← hahead]
    exact List.filter_sublist.countP_le

theorem CallsWithin.visit {calls : Subscription → Nat} (h : CallsWithin m calls w.place w)
    (hw : w.Sound) (hm : m ≤ w.bus.made) (hmeets : w.entries[w.place]? = some s)
    (reactions : Reactions) : CallsWithin m calls (w.place + 1) (w.visit reactions s) := by
  have hs : s ∈ w.entries := List.mem_of_getElem? hmeets
  obtain ⟨-, hgrows⟩ := hw.visit reactions s
  intro t
  rw [calls_visit]
  split
  · next hcalled =>
    obtain ⟨-, rfl⟩ := hcalled
    obtain ⟨holder, hnewer⟩ := hgrows.older_newer hw hs hm
    -- The entry is at the place of the walk, so all places before it are taken by those ahead of it.
    have hplace := ((getElem?_eq_some_iff_ahead hw.nodup).1 hmeets).2
    have hsum := older_add_newer m t w.entries
    refine .inr ⟨(hgrows.sublist hw).subset hs, ?_, ?_⟩
    · rcases h t with hsame | ⟨-, hle, -⟩ <;> omega
    · rcases h t with hsame | ⟨-, hle, -⟩ <;> omega
  · rcases h t with hsame | ⟨ht, hle, hle'⟩
    · exact .inl hsame
    · obtain ⟨holder, hnewer⟩ := hgrows.older_newer hw ht hm
      exact .inr ⟨(hgrows.sublist hw).subset ht, by omega, by omega⟩

theorem callsWithin_of_steps {u : Walk} (hw : w.Sound) (h : ReflTransGen (Next reactions) w u) :
    CallsWithin w.bus.made w.bus.calls u.place u := by
  induction h with
  | refl => exact fun s => .inl rfl
  | tail hsteps hnext ih =>
    obtain ⟨hsound, hgrows, -⟩ := grows_of_steps hsteps hw
    obtain ⟨hmeets, -⟩ := hnext
    have hvisit := ih.visit hsound hgrows.made hmeets reactions
    rw [advance, visit_place]
    exact hvisit

/-- At every point of a walk, an entry was called at most once more than there are entries ahead of
it that have been made during the walk. -/
theorem calls_le_of_reaches {u : Walk} (hw : w.Sound) (h : Reaches reactions w u)
    (s : Subscription) : u.bus.calls s ≤ w.bus.calls s + 1 + newer w.bus.made s u.entries := by
  obtain ⟨v, hsteps, rfl | hends⟩ := h
  · exact (callsWithin_of_steps hw hsteps).le s
  · have hwithin := callsWithin_of_steps hw hsteps
    cases hends with
    | exhausted _ => exact hwithin.le s
    | stopped hmeets _ =>
      obtain ⟨hsound, hgrows, -⟩ := grows_of_steps hsteps hw
      exact (hwithin.visit hsound hgrows.made hmeets reactions).le s

theorem calls_visit_of_meets (hmeets : w.entries[w.place]? = some s) (reactions : Reactions)
    (t : Subscription) :
    (w.visit reactions s).bus.calls t = w.bus.calls t + if w.next? = some t then 1 else 0 := by
  rw [calls_visit]
  refine congrArg (w.bus.calls t + ·) (if_congr ?_ rfl rfl)
  rw [next?_eq_some_iff, hmeets]
  constructor
  · rintro ⟨hlives, rfl⟩
    exact ⟨rfl, hlives⟩
  · rintro ⟨heq, hlives⟩
    cases heq
    exact ⟨hlives, rfl⟩

/-- A step calls the subscription that is next, once, and no other one. -/
theorem calls_of_step (h : Next reactions w w' ∨ Ends reactions w w') (t : Subscription) :
    w'.bus.calls t = w.bus.calls t + if w.next? = some t then 1 else 0 := by
  rcases h with ⟨hmeets, -⟩ | hends
  · exact calls_visit_of_meets hmeets reactions t
  · cases hends with
    | exhausted hnone => rw [next?, hnone, Option.filter_none, if_neg (by simp)]; rfl
    | stopped hmeets _ => exact calls_visit_of_meets hmeets reactions t

/-- A subscription that is called is called again exactly if, while it lives, as many newer entries
are put ahead of it as the walk has gone on. -/
theorem next?_again_iff (hw : w.Sound) (hcalled : w.next? = some s)
    (h : ReflTransGen (Next reactions) w w') :
    w'.next? = some s ↔
      w'.isDead s = false ∧ newer w.bus.made s w'.entries = w'.place - w.place := by
  obtain ⟨hsound, hgrows, hplace⟩ := grows_of_steps h hw
  rw [next?_eq_some_iff] at hcalled ⊢
  rw [hgrows.getElem?_iff hw hsound hcalled.1, and_comm]
  exact and_congr_right fun _ => by omega

theorem calls_mono (h : ReflTransGen (Next reactions) w w') (s : Subscription) :
    w.bus.calls s ≤ w'.bus.calls s := by
  induction h with
  | refl => exact Nat.le_refl _
  | tail _ hnext ih =>
    rw [calls_of_step (.inl hnext)]
    exact Nat.le_add_right_of_le ih

/-- What was called on the way was the next at some point of it. -/
theorem exists_next?_of_calls_lt (h : ReflTransGen (Next reactions) w w')
    (hlt : w.bus.calls s < w'.bus.calls s) :
    ∃ v, ReflTransGen (Next reactions) w v ∧ v.next? = some s ∧ TransGen (Next reactions) v w' := by
  induction h with
  | refl => exact absurd hlt (Nat.lt_irrefl _)
  | @tail u u' hsteps hnext ih =>
    by_cases hcalled : u.next? = some s
    · exact ⟨u, hsteps, hcalled, .single hnext⟩
    · rw [calls_of_step (.inl hnext), if_neg hcalled] at hlt
      obtain ⟨v, hv, hs, hlater⟩ := ih hlt
      exact ⟨v, hv, hs, hlater.tail hnext⟩

/-- A subscription is called at most once during a walk exactly if it is not the next again after it
was called. -/
theorem calls_le_succ_iff :
    (∀ u, Reaches reactions w u → u.bus.calls s ≤ w.bus.calls s + 1) ↔
      ∀ v, ReflTransGen (Next reactions) w v → v.next? = some s →
        ∀ v', TransGen (Next reactions) v v' → v'.next? ≠ some s := by
  constructor
  · intro hle v hv hcalled v' hlater hagain
    obtain ⟨first, hnext, hrest⟩ := TransGen.head'_iff.1 hlater
    obtain ⟨last, hlast⟩ : ∃ u, Next reactions v' u ∨ Ends reactions v' u := by
      rcases ends_or_next reactions v' with ⟨u, hends⟩ | ⟨u, hnext⟩
      · exact ⟨u, .inr hends⟩
      · exact ⟨u, .inl hnext⟩
    have hreaches : Reaches reactions w last := by
      have hto := (hv.tail hnext).trans hrest
      rcases hlast with hnext' | hends
      · exact ⟨last, hto.tail hnext', .inl rfl⟩
      · exact ⟨v', hto, .inr hends⟩
    -- One call behind the earlier point and one behind the later one.
    have hbefore := calls_mono hv s
    have honce := calls_of_step (.inl hnext) s
    have hbetween := calls_mono hrest s
    have htwice := calls_of_step hlast s
    rw [if_pos hcalled] at honce
    rw [if_pos hagain] at htwice
    have := hle last hreaches
    omega
  · intro hnever
    -- Where it is the next, it was not called on the way.
    have hfresh : ∀ v, ReflTransGen (Next reactions) w v → v.next? = some s →
        v.bus.calls s = w.bus.calls s := by
      intro v hv hcalled
      by_contra hne
      have hmono := calls_mono hv s
      obtain ⟨u, hu, hs, hlater⟩ := exists_next?_of_calls_lt hv (s := s) (by omega)
      exact hnever u hu hs v hlater hcalled
    have hstep : ∀ v u, ReflTransGen (Next reactions) w v → v.bus.calls s ≤ w.bus.calls s + 1 →
        Next reactions v u ∨ Ends reactions v u → u.bus.calls s ≤ w.bus.calls s + 1 := by
      intro v u hv hle hstep
      rw [calls_of_step hstep]
      split
      · next hcalled =>
        have := hfresh v hv hcalled
        omega
      · exact hle
    have hle : ∀ v, ReflTransGen (Next reactions) w v → v.bus.calls s ≤ w.bus.calls s + 1 := by
      intro v hv
      induction hv with
      | refl => exact Nat.le_succ _
      | tail hv hnext ih => exact hstep _ _ hv ih (.inl hnext)
    rintro u ⟨v, hv, rfl | hends⟩
    · exact hle _ hv
    · exact hstep v u hv (hle v hv) (.inr hends)

/-! ## How long a walk is -/

/-- A walk that makes only so many subscriptions comes to an end: it has no more places than there
were entries and are subscriptions made. -/
theorem run_of_made_le {bound : Nat} (hw : w.Sound)
    (hbound : ∀ u, ReflTransGen (Next reactions) w u → u.bus.made ≤ bound) :
    ∃ fuel u, run reactions fuel w = some u := by
  have hroom : ∀ {u}, ReflTransGen (Next reactions) w u →
      u.place ≤ w.entries.length + bound := by
    intro u hsteps
    obtain ⟨hsound, hgrows, -⟩ := grows_of_steps hsteps hw
    have := hsound.place
    have := hgrows.room
    have := hbound u hsteps
    omega
  -- The induction is on the places that are left.
  have hleft : ∀ (left : Nat) (u : Walk), ReflTransGen (Next reactions) w u →
      w.entries.length + bound < u.place + left →
      ∃ fuel v, run reactions fuel u = some v := by
    intro left
    induction left with
    | zero =>
      intro u hsteps hlt
      have := hroom hsteps
      omega
    | succ left ih =>
      intro u hsteps hlt
      rcases ends_or_next reactions u with ⟨v, hends⟩ | ⟨v, hnext⟩
      · exact ⟨1, v, run_of_ends hends 0⟩
      · obtain ⟨hsound, -⟩ := grows_of_steps hsteps hw
        obtain ⟨-, -, hplace⟩ := hnext.grows hsound
        obtain ⟨fuel, end', hrun⟩ := ih v (hsteps.tail hnext) (by omega)
        exact ⟨fuel + 1, end', (run_of_next hnext fuel).trans hrun⟩
  exact hleft _ w .refl (Nat.lt_add_left _ (Nat.lt_succ_self _))

/-- A walk that comes to an end has made the most subscriptions there. -/
theorem made_le_of_run {fuel : Nat} {u v : Walk} (hw : w.Sound) (hrun : run reactions fuel w = some u)
    (h : ReflTransGen (Next reactions) w v) : v.bus.made ≤ u.bus.made := by
  obtain ⟨last, hsteps, hends⟩ := run_iff.1 ⟨fuel, hrun⟩
  obtain ⟨hsound, -⟩ := grows_of_steps hsteps hw
  have hlast := (hends.grows hsound).2.1.made
  have hunique : Relator.RightUnique (Next reactions) := fun _ _ _ => Next.eq
  rcases ReflTransGen.total_of_right_unique hunique h hsteps with hto | hfrom
  · obtain ⟨hsound', -⟩ := grows_of_steps h hw
    obtain ⟨-, hgrows, -⟩ := grows_of_steps hto hsound'
    exact Nat.le_trans hgrows.made hlast
  · rcases hfrom.cases_head with rfl | ⟨beyond, hnext, -⟩
    · exact hlast
    · exact absurd hnext hends.not_next

/-- During the delivery of an event, a subscription is called at most once exactly if, while it
lives, never as many newer entries are put ahead of it as places were walked since its call; in any
case it is called at most once more than there are newer entries ahead of it. The walk ends exactly
if there is a bound on the subscriptions that are made. -/
theorem recalled_iff (reactions : Reactions) {b : Bus} (hb : b.Sound) {e : Event} {number : Nat}
    (hcurrent : b.current e.kind = some number) :
    (∀ s, (∀ w, Reaches reactions (start b e number) w → w.bus.calls s ≤ b.calls s + 1) ↔
        ∀ w, ReflTransGen (Next reactions) (start b e number) w → w.next? = some s →
          ∀ w', TransGen (Next reactions) w w' →
            ¬ (w'.isDead s = false ∧ newer w.bus.made s w'.entries = w'.place - w.place)) ∧
      (∀ w, Reaches reactions (start b e number) w → ∀ s,
        w.bus.calls s ≤ b.calls s + 1 + newer b.made s w.entries) ∧
      ((∃ fuel w, run reactions fuel (start b e number) = some w) ↔
        ∃ bound, ∀ w, ReflTransGen (Next reactions) (start b e number) w → w.bus.made ≤ bound) := by
  have hstart := sound_start hb hcurrent
  refine ⟨fun s => ?_, fun w hreaches s => calls_le_of_reaches hstart hreaches s, ?_, ?_⟩
  · refine calls_le_succ_iff.trans ?_
    refine forall₂_congr fun w hsteps => forall_congr' fun hcalled => ?_
    refine forall₂_congr fun w' hlater => ?_
    have hw := (grows_of_steps hsteps hstart).1
    rw [Ne, next?_again_iff hw hcalled hlater.to_reflTransGen]
  · rintro ⟨fuel, w, hrun⟩
    exact ⟨w.bus.made, fun v hsteps => made_le_of_run hstart hrun hsteps⟩
  · rintro ⟨bound, hbound⟩
    exact run_of_made_le hstart hbound

/-- A subscription that stays. -/
def bell : Subscription :=
  ⟨0, .ofInt 0, "bell", .bool false, false⟩

/-- A bus on which one handler has subscribed. -/
def ringing : Bus :=
  ({} : Bus).subscribe .sessionStarted bell.handler bell.priority bell.mark bell.weak

/-- At its first call, a handler subscribes another one of higher priority. -/
def newcomer : Reactions := fun journal =>
  if journal.countP (·.isCall bell) = 1 then
    [.subscribe .sessionStarted "door" (.ofInt 10) (.bool false) false]
  else []

theorem recalled_iff_of_newcomer : ringing.Sound ∧ ringing.current .sessionStarted = some 0 ∧
    (∀ w, Reaches newcomer (start ringing { kind := .sessionStarted } 0) w → ∀ s,
      w.bus.calls s ≤ ringing.calls s + 1 + newer ringing.made s w.entries) ∧
    ∃ bound, ∀ w, ReflTransGen (Next newcomer) (start ringing { kind := .sessionStarted } 0) w →
      w.bus.made ≤ bound :=
  have hsound : ringing.Sound := sound_empty.subscribe _ _ _ _ _
  have hcurrent : ringing.current .sessionStarted = some 0 := rfl
  have hrecalled := recalled_iff newcomer hsound (e := { kind := .sessionStarted }) hcurrent
  ⟨hsound, hcurrent, hrecalled.2.1, hrecalled.2.2.1 ⟨5, _, rfl⟩⟩

/-- A subscription is called twice for one event, behind another one that its first call has put
ahead of it. -/
theorem called_twice_of_newcomer : ∃ e b,
    publish newcomer 10 1 ringing { kind := .sessionStarted } = some (.ok (e, b)) ∧
      b.calls bell = 2 :=
  ⟨_, _, rfl, rfl⟩

end Walk

end Parley.Bus
