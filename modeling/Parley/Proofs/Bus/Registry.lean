import Parley.Proofs.Bus.Turns
import Parley.Proofs.Bus.Vacancies

/-!
# What Leaves a Bus

A subscription leaves its kind when somebody unsubscribes its handler or clears the kind, or when a
delivery has ended and vacates the places that it has noted. We say exactly when a delivery removes
what it means to remove: what it found dead, and what it called for its only time. This is so as
long as the places that it has noted hold the entries for which they were noted; then an entry that
ends with its first call is called at most once, however long the bus is used.

* `Step.leaves`, `finish_leaves_iff`: the ways in which a subscription leaves;
* `noted_of_reached`: what the noted entries of a walk are, at every moment;
* `Moment.Settled`: the noted places hold what was noted; `once_of_settled`: what follows from it
  for entries that end with their first call;
* `leaves_of_reached`: all of it for every moment of a bus that has begun empty.
-/

namespace Parley.Bus

open Relation Walk

variable {reactions : Reactions} {b : Bus} {w : Walk} {s t : Subscription}
  {spent : List Subscription} {kind : EventKind} {m m' : Moment} {actions : List Action}

/-! ## Ways to leave -/

/-- At an entry, subscriptions leave by what the handler is asked to do. -/
theorem visit_leaves (hmeets : w.entries[w.place]? = some t) (hs : s ∈ w.bus.subscribers kind)
    (hgone : s ∉ (w.visit reactions t).bus.subscribers kind) :
    ∃ a ∈ (Moment.walking w spent).asked reactions, a.Removes kind s := by
  have hkept : s ∈ (w.visit reactions t).bus.subscribers kind ∨
      ∃ a ∈ (Moment.walking w spent).asked reactions, a.Removes kind s := by
    refine visit_induction (P := fun b => s ∈ b.subscribers kind ∨
      ∃ a ∈ (Moment.walking w spent).asked reactions, a.Removes kind s) spent hmeets ?_ ?_ (.inl hs)
    · rintro b a ha - (hb | hleft)
      · by_cases hafter : s ∈ (b.act a).subscribers kind
        · exact .inl hafter
        · exact .inr ⟨a, ha, act_leaves hb hafter⟩
      · exact .inr hleft
    · exact fun b x hb => hb
  exact hkept.resolve_left hgone

/-- At an entry, subscriptions come with numbers that were still to be given. -/
theorem visit_enters (hmeets : w.entries[w.place]? = some t) (reactions : Reactions)
    (hs : s ∈ (w.visit reactions t).bus.subscribers kind) :
    s ∈ w.bus.subscribers kind ∨ w.bus.made ≤ s.serial := by
  refine (visit_induction (P := fun b => w.bus.made ≤ b.made ∧
    ∀ s ∈ b.subscribers kind, s ∈ w.bus.subscribers kind ∨ w.bus.made ≤ s.serial) [] hmeets ?_ ?_
    ⟨Nat.le_refl _, fun s hs => .inl hs⟩).2 s hs
  · rintro b a - - ⟨hmade, hold⟩
    refine ⟨Nat.le_trans hmade (b.made_le_act a), fun s hs => ?_⟩
    rcases act_enters hs with hs | hserial
    · exact hold s hs
    · exact .inr (hserial ▸ hmade)
  · exact fun b x hb => hb

theorem finish_subscribers (w : Walk) (kind : EventKind) :
    w.finish.subscribers kind =
      if kind = w.event.kind ∧ w.bus.current kind = some w.number then
        w.vacating.foldl List.eraseIdx w.entries
      else w.bus.subscribers kind := by
  have hcurrent : w.finish.current = w.bus.current := rfl
  have hrosters : ∀ n, w.finish.rosters kind n =
      if kind = w.event.kind ∧ n = w.number then w.vacating.foldl List.eraseIdx w.entries
      else w.bus.rosters kind n := fun _ => rfl
  simp only [subscribers, roster, hcurrent]
  cases w.bus.current kind with
  | none => rw [if_neg (by simp)]; rfl
  | some n => simp only [Option.map_some, Option.getD_some, Option.some.injEq, hrosters]

/-- When a walk has ended, the entries leave that stand at the places it has noted, if its roster is
still that of its kind. -/
theorem finish_leaves_iff {bound : Nat} (hw : w.Sound) (hnoted : w.Noted bound spent) :
    s ∈ w.bus.subscribers kind ∧ s ∉ w.finish.subscribers kind ↔
      kind = w.event.kind ∧ w.bus.current kind = some w.number ∧
        ∃ p ∈ w.vacating, w.entries[p]? = some s := by
  rw [finish_subscribers]
  split
  · next heq =>
    obtain ⟨rfl, hcurrent⟩ := heq
    have hsubscribers : w.bus.subscribers w.event.kind = w.entries := by
      rw [subscribers, roster, hcurrent]
      rfl
    rw [hsubscribers, mem_foldl_eraseIdx hnoted.descending]
    constructor
    · rintro ⟨hs, hnone⟩
      obtain ⟨i, hi⟩ := List.mem_iff_getElem?.1 hs
      exact ⟨rfl, hcurrent, i, by_contra fun hnot => hnone ⟨i, hnot, hi⟩, hi⟩
    · rintro ⟨-, -, p, hp, hplace⟩
      refine ⟨List.mem_of_getElem? hplace, ?_⟩
      rintro ⟨i, hi, hget⟩
      have hlt := (List.getElem?_eq_some_iff.1 hplace).1
      cases (List.getElem?_inj hlt hw.nodup).1 (hplace.trans hget.symm)
      exact hi hp
  · next hne =>
    constructor
    · exact fun h => absurd h.1 h.2
    · exact fun h => absurd ⟨h.1, h.2.1⟩ hne

/-- A subscription leaves by what a bus is asked to do, or with the end of a walk. -/
theorem Step.leaves (h : Step m actions m') (hs : s ∈ m.bus.subscribers kind)
    (hgone : s ∉ m'.bus.subscribers kind) :
    (∃ a ∈ actions, a.Removes kind s) ∨ ∃ w spent, m = .ending w spent ∧ m' = .resting w.finish := by
  cases h with
  | @act b a _ _ =>
    have hs' : s ∈ b.release.subscribers kind := hs
    exact .inl ⟨a, List.mem_singleton_self a, act_leaves hs' hgone⟩
  | deliver h =>
    cases h with
    | pass _ _ => exact absurd hs hgone
    | begin _ _ _ => exact absurd hs hgone
    | next hnext =>
      obtain ⟨hmeets, -⟩ := hnext
      exact .inl (visit_leaves hmeets hs hgone)
    | ends hends =>
      cases hends with
      | exhausted _ => exact absurd hs hgone
      | stopped hmeets _ => exact .inl (visit_leaves hmeets hs hgone)
    | finish => exact .inr ⟨_, _, rfl, rfl⟩

/-! ## What is noted -/

/-- What the walk of a moment has noted, if there is one, is in order. -/
def Moment.Noted : Moment → Prop
  | .resting _ => True
  | .walking w spent => w.Noted w.place spent
  | .ending w spent => w.Noted (w.place + 1) spent

theorem Delivers.noted (h : Delivers reactions m m') (hm : m.Sound) (hnoted : m.Noted) :
    m'.Noted := by
  cases h with
  | pass _ _ => trivial
  | begin _ _ _ => exact noted_start _ _ _
  | @next w w' spent hnext =>
    obtain ⟨hmeets, -⟩ := hnext
    have hvisit := Walk.Noted.visit hnoted hm hmeets reactions
    refine ⟨hvisit.descending, ?_, hvisit.behind, hvisit.reason⟩
    rw [advance, visit_place]
    exact hvisit.below
  | @ends w w' spent hends =>
    cases hends with
    | exhausted hnone =>
      rw [spend_of_none hnone]
      exact ⟨hnoted.descending, fun p hp => Nat.lt_succ_of_lt (hnoted.below p hp), hnoted.behind,
        hnoted.reason⟩
    | stopped hmeets _ =>
      rw [Moment.Noted, visit_place]
      exact Walk.Noted.visit hnoted hm hmeets reactions
  | finish => trivial

theorem Step.noted (h : Step m actions m') (hm : m.Sound) (hnoted : m.Noted) : m'.Noted := by
  cases h with
  | act _ _ => trivial
  | deliver h => exact h.noted hm hnoted

theorem noted_of_reached (h : Reached m) : m.Noted := by
  induction h with
  | refl => trivial
  | tail hreached hproceeds ih =>
    obtain ⟨actions, hstep⟩ := hproceeds
    exact hstep.noted (sound_of_reached hreached) ih

/-! ## Only calls -/

/-- The places that a walk has noted hold what it has noted. If at its end the kind of its event has
another roster, none of the entries is on it that the walk has called for their only time. -/
def Moment.Settled : Moment → Prop
  | .resting _ => True
  | .walking w spent => List.Forall₂ (fun p s => w.entries[p]? = some s) w.vacating spent
  | .ending w spent => List.Forall₂ (fun p s => w.entries[p]? = some s) w.vacating spent ∧
      (w.bus.current w.event.kind = some w.number ∨
        ∀ s ∈ spent, s.oneShot = true → s ∉ w.bus.subscribers w.event.kind)

/-- One moment comes after another one, and its places hold what was noted. -/
def Settles (m m' : Moment) : Prop :=
  Proceeds m m' ∧ m'.Settled

/-- The entries that the walk of a moment has noted. -/
def Moment.noted : Moment → List Subscription
  | .resting _ => []
  | .walking _ spent => spent
  | .ending _ spent => spent

/-- The roster that is walked over. -/
def Moment.entries : Moment → List Subscription
  | .resting _ => []
  | .walking w _ => w.entries
  | .ending w _ => w.entries

/-- Entries that end with their first call were called at most once, and one that was called is on
no roster any more, unless a walk has just noted it. -/
structure Once (m : Moment) : Prop where
  made : ∀ s, 0 < m.bus.calls s → s.serial < m.bus.made
  calls : ∀ s, s.oneShot = true → m.bus.calls s ≤ 1
  off : ∀ s, s.oneShot = true → 0 < m.bus.calls s → ∀ kind, s ∈ m.bus.subscribers kind → s ∈ m.noted
  walked : ∀ s, s.oneShot = true → 0 < m.bus.calls s → s ∈ m.entries → s ∈ m.noted

theorem once_start : Once (.resting {}) :=
  ⟨nofun, fun _ _ => Nat.zero_le _, nofun, nofun⟩

/-- The beginning of a delivery is no call. -/
theorem Once.began (h : Once (.resting b)) (e : Event) (rest : List Event) :
    Once (.resting (({ b with queue := rest } : Bus).record (.began e))) := by
  have hcalls : ∀ s, (({ b with queue := rest } : Bus).record (.began e)).calls s = b.calls s := by
    intro s
    rw [Bus.calls, record, List.countP_cons]
    exact Nat.add_zero _
  refine ⟨fun s => ?_, fun s => ?_, fun s => ?_, fun s _ _ hmem => absurd hmem List.not_mem_nil⟩ <;>
    rw [Moment.bus, hcalls]
  · exact h.made s
  · exact h.calls s
  · exact h.off s

theorem calls_act (b : Bus) (a : Action) (s : Subscription) : (b.act a).calls s = b.calls s := by
  rw [(act_adds b a).calls s]
  cases a <;> rfl

theorem Once.act {a : Action} (h : Once (.resting b)) : Once (.resting (b.act a)) where
  made s hcalls := by
    rw [Moment.bus, calls_act] at hcalls
    exact Nat.lt_of_lt_of_le (h.made s hcalls) (b.made_le_act a)
  calls s hs := by
    rw [Moment.bus, calls_act]
    exact h.calls s hs
  off s hs hcalls kind hmem := by
    rw [Moment.bus, calls_act] at hcalls
    rcases act_enters hmem with hmem | hserial
    · exact h.off s hs hcalls kind hmem
    · exact absurd hserial (Nat.ne_of_lt (h.made s hcalls))
  walked := nofun

/-- An entry that ends with its first call and was called is not met again, as long as its place
holds it. -/
theorem Once.calls_eq_zero (h : Once (.walking w spent)) (hw : w.Sound)
    (hnoted : w.Noted w.place spent) (hsettled : (Moment.walking w spent).Settled)
    (hmeets : w.entries[w.place]? = some s) (hs : s.oneShot = true) : w.bus.calls s = 0 := by
  by_contra hcalls
  have hspent := h.walked s hs (Nat.pos_of_ne_zero hcalls) (List.mem_of_getElem? hmeets)
  obtain ⟨p, hp, hplace⟩ := (exists_place_iff_mem hsettled s).2 hspent
  have hlt := (List.getElem?_eq_some_iff.1 hplace).1
  have heq : p = w.place := (List.getElem?_inj hlt hw.nodup).1 (hplace.trans hmeets.symm)
  exact Nat.ne_of_lt (hnoted.below p hp) heq

/-- The moment after an entry was met, be it the next place of the walk or its end. -/
theorem Once.visit (h : Once (.walking w spent)) (hw : w.Sound)
    (hnoted : w.Noted w.place spent) (hsettled : (Moment.walking w spent).Settled)
    (hmeets : w.entries[w.place]? = some s) (hbus : m'.bus = (w.visit reactions s).bus)
    (hentries : m'.entries = (w.visit reactions s).entries) (hspent : m'.noted = w.spend spent) :
    Once m' := by
  obtain ⟨hsound, hgrows⟩ := hw.visit reactions s
  have hcalls : ∀ t, m'.bus.calls t =
      w.bus.calls t + if w.isDead s = false ∧ t = s then 1 else 0 := by
    intro t
    rw [hbus, calls_visit]
  -- A subscription that was called was called before, or it is the one that was met.
  have hcases : ∀ t, 0 < m'.bus.calls t → 0 < w.bus.calls t ∨ t = s := by
    intro t ht
    rw [hcalls] at ht
    by_cases heq : t = s
    · exact .inr heq
    · rw [if_neg (fun h => heq h.2)] at ht
      exact .inl ht
  have hkept : ∀ t ∈ spent, t ∈ m'.noted := by
    intro t ht
    rw [hspent, spend_of_meets hmeets]
    split
    · exact List.mem_cons_of_mem _ ht
    · exact ht
  have hmet : s.oneShot = true → s ∈ m'.noted := by
    intro hs
    rw [hspent, spend_of_meets hmeets, hs, Bool.or_true, if_pos rfl]
    exact List.mem_cons_self
  refine ⟨fun t ht => ?_, fun t ht => ?_, fun t ht hpos kind hmem => ?_, fun t ht hpos hmem => ?_⟩
  · rw [hbus]
    refine Nat.lt_of_lt_of_le ?_ hgrows.made
    rcases hcases t ht with ht | rfl
    · exact h.made t ht
    · exact hw.bus.numbered _ _ t (List.mem_of_getElem? hmeets)
  · rw [hcalls]
    split
    · next hcalled =>
      obtain ⟨-, rfl⟩ := hcalled
      have hzero := h.calls_eq_zero hw hnoted hsettled hmeets ht
      omega
    · exact h.calls t ht
  · rcases hcases t hpos with hbefore | rfl
    · rw [hbus] at hmem
      rcases visit_enters hmeets reactions hmem with hmem | hserial
      · exact hkept t (h.off t ht hbefore kind hmem)
      · exact absurd (h.made t hbefore) (Nat.not_lt.2 hserial)
    · exact hmet ht
  · rcases hcases t hpos with hbefore | rfl
    · rw [hentries] at hmem
      exact hkept t (h.walked t ht hbefore (hgrows.mem hw hmem (h.made t hbefore)))
    · exact hmet ht

/-- When a walk has ended, an entry that it has called for its only time is on no roster. -/
theorem Once.finish (h : Once (.ending w spent)) (hw : w.Sound) {bound : Nat}
    (hnoted : w.Noted bound spent) (hsettled : (Moment.ending w spent).Settled) :
    Once (.resting w.finish) := by
  obtain ⟨hplaces, hroster⟩ := hsettled
  refine ⟨h.made, h.calls, fun s hs hcalls kind hmem => ?_, nofun⟩
  exfalso
  have hbefore : s ∈ w.bus.subscribers kind := by
    rw [Moment.bus, finish_subscribers] at hmem
    split at hmem
    · next heq =>
      obtain ⟨rfl, hcurrent⟩ := heq
      exact mem_subscribers.2 ⟨_, hcurrent, (foldl_eraseIdx_sublist _ _).subset hmem⟩
    · exact hmem
  have hspent : s ∈ spent := h.off s hs hcalls kind hbefore
  have hplace : ∃ p ∈ w.vacating, w.entries[p]? = some s := (exists_place_iff_mem hplaces s).2 hspent
  have hmeets : s ∈ w.entries := by
    obtain ⟨p, -, hget⟩ := hplace
    exact List.mem_of_getElem? hget
  obtain ⟨n, -, hrosters⟩ := mem_subscribers.1 hbefore
  obtain ⟨rfl, -⟩ := hw.bus.unique hmeets hrosters rfl
  -- It has left with the end of the walk, or it was on no new roster.
  rcases hroster with hcurrent | hother
  · exact ((finish_leaves_iff hw hnoted).2 ⟨rfl, hcurrent, hplace⟩).2 hmem
  · exact hother s hspent hs hbefore

theorem Delivers.once (h : Delivers reactions m m') (hm : m.Sound) (hnoted : m.Noted)
    (hsettled : m.Settled) (honce : Once m) : Once m' := by
  cases h with
  | pass _ _ => exact honce.began _ _
  | @begin b e rest number _ hcurrent _ =>
    have hbegan := honce.began e rest
    refine ⟨hbegan.made, hbegan.calls, hbegan.off, fun s hs hcalls hmem => ?_⟩
    exact hbegan.off s hs hcalls _ (mem_subscribers.2 ⟨_, hcurrent, hmem⟩)
  | next hnext =>
    obtain ⟨hmeets, -⟩ := hnext
    exact honce.visit hm hnoted hsettled hmeets rfl rfl rfl
  | @ends w w' spent hends =>
    cases hends with
    | exhausted hnone =>
      rw [spend_of_none hnone]
      exact ⟨honce.made, honce.calls, honce.off, honce.walked⟩
    | stopped hmeets _ => exact honce.visit hm hnoted hsettled hmeets rfl rfl rfl
  | finish => exact honce.finish hm hnoted hsettled

theorem once_of_settled (h : ReflTransGen Settles (.resting {}) m) :
    Reached m ∧ m.Settled ∧ Once m := by
  induction h with
  | refl => exact ⟨.refl, trivial, once_start⟩
  | tail _ hsettles ih =>
    obtain ⟨hreached, hsettled, honce⟩ := ih
    obtain ⟨⟨actions, hstep⟩, hsettled'⟩ := hsettles
    refine ⟨hreached.tail ⟨actions, hstep⟩, hsettled', ?_⟩
    cases hstep with
    | @act b a _ _ =>
      have hidle : Once (.resting b.release) :=
        ⟨honce.made, honce.calls, honce.off, nofun⟩
      exact hidle.act
    | deliver hdelivers =>
      exact hdelivers.once (sound_of_reached hreached) (noted_of_reached hreached) hsettled honce

/-- What is published on a bus that rests leads through moments of the bus. -/
theorem reached_of_delivers (h : Reached (.resting b)) (hidle : b.queue = []) {e : Event}
    (hdelivers : ReflTransGen (Delivers reactions) (.resting (b.release.enqueue e)) m) :
    Reached m := by
  have hbegin : Reached (.resting (b.release.enqueue e)) :=
    h.tail ⟨_, .act (a := .publish e) hidle rfl⟩
  have hproceeds : Delivers reactions ≤ Proceeds := fun _ _ hdelivers => ⟨_, .deliver hdelivers⟩
  exact hbegin.trans (ReflTransGen.mono hproceeds _ _ hdelivers)

theorem reached_of_publish (h : Reached (.resting b)) (hidle : b.queue = []) {fuel room : Nat}
    {e e' : Event} {b' : Bus}
    (hpublish : publish reactions fuel room b.release e = some (.ok (e', b'))) :
    ∃ b₂, Reached (.resting b₂) ∧ b₂.queue = [] ∧ b' = b₂.release := by
  have hrest : b.release.queue = [] := hidle
  obtain ⟨events, b₂, hworks, -, hb'⟩ := (publish_iff_works hrest).1 ⟨fuel, hpublish⟩
  exact ⟨b₂, reached_of_delivers h hidle (delivers_of_works hworks), hworks.queue, hb'⟩

/-- Deliveries that end for want of room end at a moment of the bus too. -/
theorem reached_of_overrun (h : Reached (.resting b)) (hidle : b.queue = []) {fuel room : Nat}
    {e : Event} {b' : Bus}
    (hpublish : publish reactions fuel room b.release e = some (.error ⟨b'⟩)) :
    ∃ b₂ next, Reached (.resting b₂) ∧ b₂.queue = next :: b'.queue ∧
      b' = ({ b₂ with queue := b'.queue } : Bus).release := by
  have hrest : b.release.queue = [] := hidle
  obtain ⟨_, hoverruns, rfl⟩ := (publish_overruns_iff hrest).1 ⟨fuel, hpublish⟩
  obtain ⟨b₂, next, rest, hdelivers, hqueue, -, -, rfl⟩ := overruns_iff.1 hoverruns
  exact ⟨b₂, next, reached_of_delivers h hidle hdelivers, hqueue, rfl⟩

/-- At every moment of a bus, a subscription leaves its kind only by an action that removes it, or
when a walk over the roster of the kind has ended and has noted the place of the subscription. What
a walk has noted is dead or was called for its only time, and this is what leaves with its end
exactly if each noted place holds the entry for which it was noted. As long as this is so, an entry
that ends with its first call is called at most once, and with the end of a walk nothing leaves but
what is dead or was called for its only time. What is published while the bus rests leads to such
moments, also if there is no room for all deliveries. -/
theorem leaves_of_reached (hreached : Reached m) :
    (∀ actions m', Step m actions m' → ∀ kind s, s ∈ m.bus.subscribers kind →
        s ∉ m'.bus.subscribers kind →
          (∃ a ∈ actions, a.Removes kind s) ∨
            ∃ w spent, m = .ending w spent ∧ m' = .resting w.finish) ∧
      (∀ w spent, m = .ending w spent →
        (∀ s ∈ spent, w.isDead s = true ∨ s.oneShot = true ∧ 0 < w.bus.calls s) ∧
        (∀ kind s, s ∈ w.bus.subscribers kind ∧ s ∉ w.finish.subscribers kind ↔
          kind = w.event.kind ∧ w.bus.current kind = some w.number ∧
            ∃ p ∈ w.vacating, w.entries[p]? = some s) ∧
        ((∀ s, (∃ p ∈ w.vacating, w.entries[p]? = some s) ↔ s ∈ spent) ↔
          List.Forall₂ (fun p s => w.entries[p]? = some s) w.vacating spent)) ∧
      (ReflTransGen Settles (.resting {}) m →
        (∀ s, s.oneShot = true → m.bus.calls s ≤ 1) ∧
        ∀ actions m', Step m actions m' → ∀ kind s, s ∈ m.bus.subscribers kind →
          s ∉ m'.bus.subscribers kind →
            (∃ a ∈ actions, a.Removes kind s) ∨ ∃ w spent, m = .ending w spent ∧
              (w.isDead s = true ∨ s.oneShot = true ∧ w.bus.calls s = 1)) ∧
      ∀ b, m = .resting b → b.queue = [] → ∀ reactions fuel room e,
        (∀ e' b', publish reactions fuel room b.release e = some (.ok (e', b')) →
          ∃ b₂, Reached (.resting b₂) ∧ b₂.queue = [] ∧ b' = b₂.release) ∧
        ∀ b', publish reactions fuel room b.release e = some (.error ⟨b'⟩) →
          ∃ b₂ next, Reached (.resting b₂) ∧ b₂.queue = next :: b'.queue ∧
            b' = ({ b₂ with queue := b'.queue } : Bus).release := by
  refine ⟨fun actions m' hstep kind s hs hgone => hstep.leaves hs hgone, ?_, fun hsettles => ?_, ?_⟩
  · rintro w spent rfl
    have hw : w.Sound := sound_of_reached hreached
    have hnoted : w.Noted (w.place + 1) spent := noted_of_reached hreached
    exact ⟨hnoted.reason, fun kind s => finish_leaves_iff hw hnoted, hnoted.vacated_iff hw⟩
  · obtain ⟨-, hsettled, honce⟩ := once_of_settled hsettles
    refine ⟨honce.calls, fun actions m' hstep kind s hs hgone => ?_⟩
    rcases hstep.leaves hs hgone with hremoves | ⟨w, spent, rfl, rfl⟩
    · exact .inl hremoves
    · refine .inr ⟨w, spent, rfl, ?_⟩
      have hw : w.Sound := sound_of_reached hreached
      have hnoted : w.Noted (w.place + 1) spent := noted_of_reached hreached
      obtain ⟨-, -, hplace⟩ := (finish_leaves_iff hw hnoted).1 ⟨hs, hgone⟩
      have hspent := (exists_place_iff_mem hsettled.1 s).1 hplace
      rcases hnoted.reason s hspent with hdead | ⟨honeShot, hcalls⟩
      · exact .inl hdead
      · exact .inr ⟨honeShot, Nat.le_antisymm (honce.calls s honeShot) hcalls⟩
  · rintro b rfl hidle reactions fuel room e
    exact ⟨fun e' b' => reached_of_publish hreached hidle,
      fun b' => reached_of_overrun hreached hidle⟩

/-- A subscription that ends with its first call. -/
def usher : Subscription :=
  ⟨0, .ofInt 5, "usher", .bool true, false⟩

/-- A bus with this subscription only. -/
def booked : Bus :=
  ({} : Bus).act
    (.subscribe .sessionStarted usher.handler usher.priority usher.mark usher.weak)

/-- The walk that is about to deliver an event to it. -/
def opening : Walk :=
  start (({ booked.act (.publish { kind := .sessionStarted }) with queue := [] } : Bus).record
    (.began { kind := .sessionStarted })) { kind := .sessionStarted } 0

/-- The walk after its only call. -/
def opened : Walk :=
  (opening.visit (fun _ => []) usher).advance

theorem leaves_of_reached_of_usher : Reached (.ending opened [usher]) ∧
    ReflTransGen Settles (.resting {}) (.ending opened [usher]) ∧
    usher ∈ opened.bus.subscribers .sessionStarted ∧
    usher ∉ opened.finish.subscribers .sessionStarted ∧
    (∀ s, (∃ p ∈ opened.vacating, opened.entries[p]? = some s) ↔ s ∈ [usher]) ∧
    opened.bus.calls usher ≤ 1 ∧
    (opened.isDead usher = true ∨ usher.oneShot = true ∧ opened.bus.calls usher = 1) := by
  have hsubscribe : Settles (.resting {}) (.resting booked) := ⟨⟨_, .act rfl rfl⟩, trivial⟩
  have hpublish : Settles (.resting booked)
      (.resting (booked.act (.publish { kind := .sessionStarted }))) := ⟨⟨_, .act rfl rfl⟩, trivial⟩
  have hbegin : Delivers (fun _ => [])
      (.resting (booked.act (.publish { kind := .sessionStarted }))) (.walking opening []) :=
    .begin rfl rfl (by decide)
  have hcall : Delivers (fun _ => []) (.walking opening []) (.walking opened [usher]) :=
    .next ⟨rfl, rfl⟩
  have hends : Delivers (fun _ => []) (.walking opened [usher]) (.ending opened [usher]) :=
    .ends (.exhausted rfl)
  have hplaces : List.Forall₂ (fun p s => opened.entries[p]? = some s) opened.vacating [usher] :=
    .cons rfl .nil
  have hsettles : ReflTransGen Settles (.resting {}) (.ending opened [usher]) :=
    ((((ReflTransGen.single hsubscribe).tail hpublish).tail ⟨⟨_, .deliver hbegin⟩, .nil⟩).tail
      ⟨⟨_, .deliver hcall⟩, hplaces⟩).tail ⟨⟨_, .deliver hends⟩, hplaces, .inl rfl⟩
  have hreached : Reached (.ending opened [usher]) := (once_of_settled hsettles).1
  have hs : usher ∈ opened.bus.subscribers .sessionStarted := List.mem_singleton_self _
  have hgone : usher ∉ opened.finish.subscribers .sessionStarted := nofun
  have hfinish : Delivers (fun _ => []) (.ending opened [usher]) (.resting opened.finish) := .finish
  obtain ⟨-, hspent, hsettled, -⟩ := leaves_of_reached hreached
  obtain ⟨hcalls, hleaves⟩ := hsettled hsettles
  refine ⟨hreached, hsettles, hs, hgone, (hspent opened [usher] rfl).2.2.2 hplaces,
    hcalls usher rfl, ?_⟩
  rcases hleaves _ _ (.deliver hfinish) _ _ hs hgone with ⟨a, ha, -⟩ | ⟨w, spent, heq, hcause⟩
  · cases ha
  · cases heq
    exact hcause

/-- A subscription that stays. -/
def adder : Subscription :=
  ⟨1, .ofInt 0, "adder", .bool false, false⟩

/-- A bus with a subscription that ends with its first call, and behind it one that stays. -/
def crowded : Bus :=
  (({} : Bus).subscribe .sessionStarted usher.handler usher.priority usher.mark usher.weak).subscribe
    .sessionStarted adder.handler adder.priority adder.mark adder.weak

/-- At its first call, the second handler puts another one ahead of the first and ends the event. -/
def latecomer : Reactions
  | .called s _ :: journal =>
    if s = adder ∧ journal.countP (·.isCall adder) = 0 then
      [.subscribe .sessionStarted "late" (.ofInt 10) (.bool false) false, .consume]
    else []
  | _ => []

/-- The delivery of an event removes the entry that was put ahead of the one that it has called for
its only time. This one stays, and the next event calls it again. -/
theorem called_again_of_latecomer : ∃ e b e' b',
    publish latecomer 10 1 crowded { kind := .sessionStarted } = some (.ok (e, b)) ∧
      b.subscribers .sessionStarted = [usher, adder] ∧
      publish latecomer 10 1 b { kind := .sessionStarted } = some (.ok (e', b')) ∧
      b'.calls usher = 2 ∧ usher.oneShot = true := by
  exact ⟨_, _, _, _, rfl, rfl, rfl, rfl, rfl⟩

end Parley.Bus
