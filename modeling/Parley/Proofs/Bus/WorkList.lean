import Parley.Proofs.Bus.Moments

/-!
# Working off the Queue

A delivery that has walked over its roster delivers what waits in the queue, and every delivery that
begins there does the same. We show that this comes to a plain loop over the queue, which takes one
event after the other, as long as there is room for the deliveries that are nested. What a delivery
holds is held until all are done, in the loop as well, so that the holds count the deliveries that are
nested in the recursion.

* `dispatch`, `workOff`: the delivery of one event alone, and the loop over the queue;
* `Works`: what the loop does, whatever its fuel (`workOff_iff`);
* `Dispatches.held`: a delivery adds one hold, unless nobody has subscribed;
* `works_of_deliver_and_drain`, `drain_of_works`: deliveries that deliver what waits do the same, if
  there is room for as many as the loop adds holds;
* `publish_iff_works`: to publish an event is to work off a queue that holds this event.
-/

namespace Parley.Bus

open Relation Walk

variable {reactions : Reactions} {b b' b'' : Bus} {e e' : Event} {m m' : Moment}

/-! ## The loop -/

/-- Delivers one event, and nothing of what waits in the queue. -/
def dispatch (reactions : Reactions) (fuel : Nat) (b : Bus) (e : Event) : Option (Event × Bus) :=
  let b := b.record (.began e)
  match b.current e.kind with
  | none => some (e, b)
  | some number =>
    if (b.rosters e.kind number).isEmpty then some (e, b)
    else (run reactions fuel (start b e number)).map fun w => (w.event, w.finish)

/-- An event can be delivered. -/
def Dispatches (reactions : Reactions) (b : Bus) (e e' : Event) (b' : Bus) : Prop :=
  ∃ fuel, dispatch reactions fuel b e = some (e', b')

/-- The events of the queue, and those that are published meanwhile, are delivered one after the
other. -/
inductive Works (reactions : Reactions) : Bus → List Event → Bus → Prop
  | done {b : Bus} (hqueue : b.queue = []) : Works reactions b [] b
  | more {b b' b'' : Bus} {e e' : Event} {rest events : List Event} (hqueue : b.queue = e :: rest)
      (hdispatches : Dispatches reactions { b with queue := rest } e e' b')
      (hworks : Works reactions b' events b'') : Works reactions b (e' :: events) b''

/-- Nobody has subscribed where there is no roster, or an empty one. -/
theorem subscribers_eq_nil_iff {kind : EventKind} :
    b.subscribers kind = [] ↔ ∀ n, b.current kind = some n → (b.rosters kind n).isEmpty = true := by
  rw [subscribers, roster]
  cases b.current kind <;> simp

/-- The delivery of an event for nobody is noted, and nothing else happens. -/
theorem dispatch_of_nobody (h : b.subscribers e.kind = []) (reactions : Reactions) (fuel : Nat) :
    dispatch reactions fuel b e = some (e, b.record (.began e)) := by
  rw [dispatch]
  change (match b.current e.kind with | none => _ | some _ => _) = _
  cases hcurrent : b.current e.kind with
  | none => rfl
  | some n => exact if_pos (subscribers_eq_nil_iff.1 h n hcurrent)

/-- An event for somebody is delivered by a walk over the roster of its kind. -/
theorem dispatch_of_current {number : Nat} (hcurrent : b.current e.kind = some number)
    (hsomebody : ¬ (b.rosters e.kind number).isEmpty = true) (reactions : Reactions) (fuel : Nat) :
    dispatch reactions fuel b e =
      (run reactions fuel (start (b.record (.began e)) e number)).map
        fun w => (w.event, w.finish) := by
  rw [dispatch]
  change (match b.current e.kind with | none => _ | some _ => _) = _
  rw [hcurrent]
  exact if_neg hsomebody

/-- Nobody has subscribed to a kind of events or somebody has. -/
theorem nobody_or_current (b : Bus) (kind : EventKind) : b.subscribers kind = [] ∨
    ∃ n, b.current kind = some n ∧ ¬ (b.rosters kind n).isEmpty = true := by
  by_cases h : b.subscribers kind = []
  · exact .inl h
  · rw [subscribers_eq_nil_iff] at h
    push Not at h
    exact .inr h

/-- An event for nobody can be delivered in one way only. -/
theorem dispatches_iff_of_nobody (h : b.subscribers e.kind = []) :
    Dispatches reactions b e e' b' ↔ e' = e ∧ b' = b.record (.began e) := by
  simp only [Dispatches, dispatch_of_nobody h, Option.some.injEq, Prod.mk.injEq, exists_const,
    eq_comm (b := e'), eq_comm (b := b')]

/-- An event for somebody can be delivered if the walk comes to an end. -/
theorem dispatches_iff_of_current {number : Nat} (hcurrent : b.current e.kind = some number)
    (hsomebody : ¬ (b.rosters e.kind number).isEmpty = true) :
    Dispatches reactions b e e' b' ↔
      ∃ w, (∃ fuel, run reactions fuel (start (b.record (.began e)) e number) = some w) ∧
        e' = w.event ∧ b' = w.finish := by
  simp only [Dispatches, dispatch_of_current hcurrent hsomebody, Option.map_eq_some_iff,
    Prod.mk.injEq, eq_comm (b := e'), eq_comm (b := b')]
  constructor
  · rintro ⟨fuel, w, hrun, h⟩
    exact ⟨w, ⟨fuel, hrun⟩, h⟩
  · rintro ⟨w, ⟨fuel, hrun⟩, h⟩
    exact ⟨fuel, w, hrun, h⟩

/-- More fuel does no harm to a delivery. -/
theorem dispatch_mono {fuel fuel' : Nat} {r : Event × Bus}
    (h : dispatch reactions fuel b e = some r) (hle : fuel ≤ fuel') :
    dispatch reactions fuel' b e = some r := by
  rcases b.nobody_or_current e.kind with hnobody | ⟨n, hcurrent, hsomebody⟩
  · rw [dispatch_of_nobody hnobody] at h ⊢
    exact h
  · rw [dispatch_of_current hcurrent hsomebody, Option.map_eq_some_iff] at h ⊢
    obtain ⟨w, hrun, hr⟩ := h
    exact ⟨w, run_mono hrun hle, hr⟩

/-- An empty queue is worked off. -/
theorem works_iff_of_nil {events : List Event} (hqueue : b.queue = []) :
    Works reactions b events b' ↔ events = [] ∧ b' = b := by
  constructor
  · intro h
    cases h with
    | done _ => exact ⟨rfl, rfl⟩
    | more hmore _ _ => rw [hqueue] at hmore; cases hmore
  · rintro ⟨rfl, rfl⟩
    exact .done hqueue

/-- A queue is worked off by the delivery of its first event, and of what waits then. -/
theorem works_iff_of_cons {rest events : List Event} (hqueue : b.queue = e :: rest) :
    Works reactions b events b'' ↔ ∃ e' b' more, events = e' :: more ∧
      Dispatches reactions { b with queue := rest } e e' b' ∧ Works reactions b' more b'' := by
  constructor
  · intro h
    cases h with
    | done hdone => rw [hqueue] at hdone; cases hdone
    | more hmore hdispatches hworks =>
      rw [hqueue] at hmore
      cases hmore
      exact ⟨_, _, _, rfl, hdispatches, hworks⟩
  · rintro ⟨e', b', more, rfl, hdispatches, hworks⟩
    exact .more hqueue hdispatches hworks

/-- Nothing waits after the queue was worked off. -/
theorem Works.queue {events : List Event} (h : Works reactions b events b') : b'.queue = [] := by
  induction h with
  | done hqueue => exact hqueue
  | more _ _ _ ih => exact ih

/-- Working off what is already worked off changes nothing. -/
theorem Works.trans {events more : List Event} (h : Works reactions b events b')
    (h' : Works reactions b' more b'') : b'' = b' := by
  exact ((works_iff_of_nil h.queue).1 h').2

/-- A call leaves what deliveries hold as it is. -/
theorem held_visit {w : Walk} {s : Subscription} (hmeets : w.entries[w.place]? = some s)
    (reactions : Reactions) : (w.visit reactions s).bus.held = w.bus.held :=
  visit_induction (P := fun b => b.held = w.bus.held) [] hmeets
    (fun b a _ _ hb => (held_act b a).trans hb) (fun _ _ hb => hb) rfl

/-- A walk has no part in what other deliveries hold. -/
theorem held_of_run {w u : Walk} {fuel : Nat} (h : run reactions fuel w = some u) :
    u.bus.held = w.bus.held := by
  obtain ⟨v, hsteps, hends⟩ := run_iff.1 ⟨fuel, h⟩
  have hheld : v.bus.held = w.bus.held := by
    clear hends
    induction hsteps with
    | refl => rfl
    | tail _ hnext ih =>
      obtain ⟨hmeets, -⟩ := hnext
      exact (held_visit hmeets reactions).trans ih
  cases hends with
  | exhausted _ => exact hheld
  | stopped hmeets _ => exact (held_visit hmeets reactions).trans hheld

/-- A delivery adds what it holds itself, unless nobody has subscribed. -/
theorem Dispatches.held (h : Dispatches reactions b e e' b') :
    b.subscribers e.kind = [] ∧ b'.held = b.held ∨
      b.subscribers e.kind ≠ [] ∧ b'.held.length = b.held.length + 1 := by
  rcases b.nobody_or_current e.kind with hnobody | ⟨n, hcurrent, hsomebody⟩
  · obtain ⟨-, rfl⟩ := (dispatches_iff_of_nobody hnobody).1 h
    exact .inl ⟨hnobody, rfl⟩
  · obtain ⟨w, ⟨fuel, hrun⟩, -, rfl⟩ := (dispatches_iff_of_current hcurrent hsomebody).1 h
    have hheld : w.bus.held = b.held := held_of_run hrun
    refine .inr ⟨fun hnobody => hsomebody (subscribers_eq_nil_iff.1 hnobody n hcurrent), ?_⟩
    show (w.hold :: w.bus.held).length = b.held.length + 1
    rw [hheld, List.length_cons]

/-- What was held is still held after a delivery. -/
theorem Dispatches.held_le (h : Dispatches reactions b e e' b') :
    b.held.length ≤ b'.held.length := by
  rcases h.held with ⟨-, hheld⟩ | ⟨-, hheld⟩
  · exact Nat.le_of_eq (congrArg List.length hheld.symm)
  · omega

/-- What was held is still held after all deliveries. -/
theorem Works.held_le {events : List Event} (h : Works reactions b events b') :
    b.held.length ≤ b'.held.length := by
  induction h with
  | done _ => exact Nat.le_refl _
  | more _ hdispatches _ ih => exact Nat.le_trans hdispatches.held_le ih

/-! ## The recursion -/

/-- An event for nobody is delivered by noting it, however little room there is. -/
theorem deliver_of_nobody (h : b.subscribers e.kind = []) (reactions : Reactions)
    (fuel room : Nat) :
    deliver reactions (fuel + 1) room b e = some (.ok (e, b.record (.began e))) := by
  rw [deliver]
  cases hcurrent : b.current e.kind with
  | none => rfl
  | some n => exact if_pos (subscribers_eq_nil_iff.1 h n hcurrent)

/-- An event for somebody is not delivered where there is no room. -/
theorem deliver_of_no_room (h : b.subscribers e.kind ≠ []) (reactions : Reactions) (fuel : Nat) :
    deliver reactions (fuel + 1) 0 b e = some (.error ⟨b⟩) := by
  obtain ⟨n, hcurrent, hsomebody⟩ := (b.nobody_or_current e.kind).resolve_left h
  rw [deliver, hcurrent]
  exact if_neg hsomebody

/-- The delivery of an event to somebody is that of this event alone, and after it that of the
queue, with room for one delivery less. -/
theorem deliver_of_somebody (h : b.subscribers e.kind ≠ []) (reactions : Reactions)
    (fuel room : Nat) :
    deliver reactions (fuel + 1) (room + 1) b e =
      (dispatch reactions fuel b e).bind fun r =>
        (drain reactions fuel room r.2).map fun ending => ending.map fun b' => (r.1, b') := by
  obtain ⟨n, hcurrent, hsomebody⟩ := (b.nobody_or_current e.kind).resolve_left h
  rw [dispatch_of_current hcurrent hsomebody, deliver, hcurrent]
  refine (if_neg hsomebody).trans ?_
  rw [start]
  cases run reactions fuel _ with
  | none => rfl
  | some w => rfl

/-- A delivery that returns has delivered its event and worked off the queue, unless nobody has
subscribed, and there was room for all of it. -/
theorem works_of_deliver_and_drain (fuel : Nat) :
    (∀ room b e e' b', deliver reactions fuel room b e = some (.ok (e', b')) →
      ∃ b₁, Dispatches reactions b e e' b₁ ∧ b'.held.length ≤ b.held.length + room ∧
        (b.subscribers e.kind = [] ∧ b' = b₁ ∨ ∃ events, Works reactions b₁ events b')) ∧
      ∀ room b b', drain reactions fuel room b = some (.ok b') →
        b'.held.length ≤ b.held.length + room ∧ ∃ events, Works reactions b events b' := by
  -- The two functions call each other with less fuel, so both statements go through one induction.
  induction fuel with
  | zero =>
    refine ⟨fun room b e e' b' h => ?_, fun room b b' h => ?_⟩
    · rw [deliver] at h; cases h
    · rw [drain] at h; cases h
  | succ fuel ih =>
    obtain ⟨ihdeliver, ihdrain⟩ := ih
    refine ⟨fun room b e e' b' h => ?_, fun room b b' h => ?_⟩
    · by_cases hnobody : b.subscribers e.kind = []
      · rw [deliver_of_nobody hnobody] at h
        cases h
        exact ⟨_, (dispatches_iff_of_nobody hnobody).2 ⟨rfl, rfl⟩, Nat.le_add_right _ _,
          .inl ⟨hnobody, rfl⟩⟩
      · cases room with
        | zero =>
          rw [deliver_of_no_room hnobody] at h
          cases h
        | succ room =>
          rw [deliver_of_somebody hnobody, Option.bind_eq_some_iff] at h
          obtain ⟨r, hdispatch, hmap⟩ := h
          obtain ⟨ending, hdrain, heq⟩ := Option.map_eq_some_iff.1 hmap
          cases ending with
          | error overrun => cases heq
          | ok b₂ =>
            cases heq
            have hdispatches : Dispatches reactions b e r.1 r.2 := ⟨fuel, hdispatch⟩
            obtain ⟨hroom, hworks⟩ := ihdrain _ _ _ hdrain
            -- The event itself takes the room that the drain of the queue has less.
            have hheld := (hdispatches.held.resolve_left fun h => hnobody h.1).2
            exact ⟨r.2, hdispatches, by omega, .inr hworks⟩
    · rw [drain] at h
      cases hqueue : b.queue with
      | nil =>
        rw [hqueue] at h
        cases h
        exact ⟨Nat.le_add_right _ _, [], .done hqueue⟩
      | cons e rest =>
        rw [hqueue] at h
        dsimp only at h
        split at h
        · cases h
        · cases h
        · next e' b₂ hdeliver =>
          obtain ⟨hroom, more, hmore⟩ := ihdrain _ _ _ h
          obtain ⟨b₁, hdispatches, hroom', ⟨hnobody, rfl⟩ | ⟨events, hworks⟩⟩ :=
            ihdeliver _ _ _ _ _ hdeliver
          · have hheld := (hdispatches.held.resolve_right fun h => h.1 hnobody).2
            rw [hheld] at hroom
            exact ⟨hroom, _, .more hqueue hdispatches hmore⟩
          · -- The delivery has left nothing to be drained.
            cases hworks.trans hmore
            exact ⟨hroom', _, .more hqueue hdispatches hworks⟩

/-- Nested deliveries get through a queue that can be worked off, as long as there is room for them. -/
theorem drain_of_works {events : List Event} (h : Works reactions b events b') (room : Nat)
    (hroom : b'.held.length ≤ b.held.length + room) :
    ∃ least, ∀ fuel ≥ least, drain reactions fuel room b = some (.ok b') := by
  induction h generalizing room with
  | done hqueue =>
    refine ⟨1, fun fuel hfuel => ?_⟩
    obtain ⟨fuel, rfl⟩ : ∃ f, fuel = f + 1 := ⟨fuel - 1, by omega⟩
    rw [drain, hqueue]
  | @more b b₁ b' e e' rest events hqueue hdispatches hworks ih =>
    have hheld := hdispatches.held
    have hholds := hworks.held_le
    obtain ⟨first, hfirst⟩ := hdispatches
    by_cases hnobody : ({ b with queue := rest } : Bus).subscribers e.kind = []
    · have hsame := (hheld.resolve_right fun h => h.1 hnobody).2
      obtain ⟨least, hleast⟩ := ih room (by rw [hsame]; exact hroom)
      refine ⟨least + 2, fun fuel hfuel => ?_⟩
      obtain ⟨fuel, rfl⟩ : ∃ f, fuel = f + 2 := ⟨fuel - 2, by omega⟩
      rw [dispatch_of_nobody hnobody] at hfirst
      cases hfirst
      rw [drain, hqueue]
      dsimp only
      rw [deliver_of_nobody hnobody]
      exact hleast _ (by omega)
    · have hmore : b₁.held.length = b.held.length + 1 :=
        (hheld.resolve_left fun h => hnobody h.1).2
      obtain ⟨room, rfl⟩ : ∃ r, room = r + 1 := ⟨room - 1, by omega⟩
      obtain ⟨least, hleast⟩ := ih room (by omega)
      -- Fuel is used up by the loop, by the delivery and by the loop inside it.
      refine ⟨max first least + 3, fun fuel hfuel => ?_⟩
      obtain ⟨fuel, rfl⟩ : ∃ f, fuel = f + 3 := ⟨fuel - 3, by omega⟩
      rw [drain, hqueue]
      dsimp only
      rw [deliver_of_somebody hnobody, dispatch_mono hfirst (by omega), Option.bind_some,
        hleast _ (by omega)]
      -- The queue that the loop over it goes on with has been worked off by the delivery.
      dsimp only [Option.map_some, Except.map]
      rw [drain, hworks.queue]

/-- An event that nobody waits for is delivered like the first one of the queue. -/
theorem queue_enqueue (hidle : b.queue = []) (e : Event) :
    (b.enqueue e).queue = [e] ∧
      ({ b.enqueue e with queue := [] } : Bus) = b.record (.published e) := by
  rw [enqueue, hidle]
  refine ⟨rfl, ?_⟩
  rw [record, hidle]

/-- To publish an event is to work off the queue that holds this event alone, as long as there is room
for the deliveries. -/
theorem publish_iff_works (hidle : b.queue = []) {room : Nat} :
    (∃ fuel, publish reactions fuel room b e = some (.ok (e', b'))) ↔
      ∃ events b₂, Works reactions (b.enqueue e) (e' :: events) b₂ ∧
        b₂.held.length ≤ b.held.length + room ∧ b' = b₂.release := by
  obtain ⟨hqueue, hrest⟩ := queue_enqueue hidle e
  simp only [works_iff_of_cons hqueue, hrest]
  constructor
  · rintro ⟨fuel, h⟩
    rw [publish, Option.map_eq_some_iff] at h
    obtain ⟨ending, hdeliver, heq⟩ := h
    cases ending with
    | error overrun => cases heq
    | ok r =>
      obtain ⟨e₁, b₂⟩ := r
      cases heq
      obtain ⟨b₁, hdispatches, hroom, ⟨hnobody, rfl⟩ | ⟨events, hworks⟩⟩ :=
        (works_of_deliver_and_drain fuel).1 _ _ _ _ _ hdeliver
      · obtain ⟨rfl, rfl⟩ := (dispatches_iff_of_nobody hnobody).1 hdispatches
        exact ⟨[], _, ⟨_, _, _, rfl, hdispatches, .done hidle⟩, hroom, rfl⟩
      · exact ⟨events, _, ⟨_, _, _, rfl, hdispatches, hworks⟩, hroom, rfl⟩
  · rintro ⟨events, b₂, ⟨e₁, b₁, more, heq, hdispatches, hworks⟩, hroom, rfl⟩
    cases heq
    suffices hdeliver : ∃ fuel, deliver reactions fuel room (b.record (.published e)) e =
        some (.ok (e', b₂)) by
      obtain ⟨fuel, hdeliver⟩ := hdeliver
      exact ⟨fuel, by rw [publish, hdeliver]; rfl⟩
    have hheld := hdispatches.held
    have hholds := hworks.held_le
    obtain ⟨first, hfirst⟩ := hdispatches
    by_cases hnobody : (b.record (.published e)).subscribers e.kind = []
    · rw [dispatch_of_nobody hnobody] at hfirst
      cases hfirst
      have hnone : ((b.record (.published e)).record (.began e)).queue = [] := hidle
      obtain ⟨-, rfl⟩ := (works_iff_of_nil hnone).1 hworks
      exact ⟨1, deliver_of_nobody hnobody reactions _ _⟩
    · have hmore : b₁.held.length = b.held.length + 1 :=
        (hheld.resolve_left fun h => hnobody h.1).2
      obtain ⟨room, rfl⟩ : ∃ r, room = r + 1 := ⟨room - 1, by omega⟩
      obtain ⟨least, hleast⟩ := drain_of_works hworks room (by omega)
      refine ⟨max first least + 1, ?_⟩
      rw [deliver_of_somebody hnobody, dispatch_mono hfirst (Nat.le_max_left _ _),
        Option.bind_some, hleast _ (Nat.le_max_right _ _)]
      rfl

end Parley.Bus
