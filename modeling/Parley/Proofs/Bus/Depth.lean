import Parley.Proofs.Bus.WorkList

/-!
# Nested Deliveries

Each delivery to somebody is nested in the one before and takes room on the stack. One that does not
fit ends all of them. Up to there they have done what the loop over the queue does: the events before
it are delivered, each in its turn, and those behind it still wait.

* `Overruns`: what is left where the loop over the queue comes to an event without room;
* `overruns_of_deliver_and_drain`, `drain_of_overruns`: deliveries that end for want of room leave just
  this;
* `Works.overruns`: a loop that comes to its end has room, or is cut short;
* `publish_overruns_iff`: when a publication ends for want of room.
-/

namespace Parley.Bus

open Walk

variable {reactions : Reactions} {room : Nat} {b b' b'' : Bus} {e e' : Event}

/-- Events of the queue are delivered in their turn, with room for so many deliveries to somebody, up to
one for which there is no room any more. It is taken from the queue and not delivered. -/
inductive Overruns (reactions : Reactions) : Nat → Bus → Bus → Prop
  | here {b : Bus} {e : Event} {rest : List Event} (hqueue : b.queue = e :: rest)
      (hsomebody : b.subscribers e.kind ≠ []) : Overruns reactions 0 b { b with queue := rest }
  | pass {room : Nat} {b b' : Bus} {e : Event} {rest : List Event} (hqueue : b.queue = e :: rest)
      (hnobody : b.subscribers e.kind = [])
      (h : Overruns reactions room (({ b with queue := rest } : Bus).record (.began e)) b') :
      Overruns reactions room b b'
  | next {room : Nat} {b b₁ b' : Bus} {e e' : Event} {rest : List Event}
      (hqueue : b.queue = e :: rest) (hsomebody : b.subscribers e.kind ≠ [])
      (hdispatches : Dispatches reactions { b with queue := rest } e e' b₁)
      (h : Overruns reactions room b₁ b') : Overruns reactions (room + 1) b b'

/-- Where the queue is empty nothing is without room. -/
theorem not_overruns_of_nil (hqueue : b.queue = []) : ¬ Overruns reactions room b b' := by
  intro h
  cases h with
  | here hqueue' _ => rw [hqueue] at hqueue'; cases hqueue'
  | pass hqueue' _ _ => rw [hqueue] at hqueue'; cases hqueue'
  | next hqueue' _ _ _ => rw [hqueue] at hqueue'; cases hqueue'

/-- A delivery that ends for want of room has none for itself, or has delivered its event and has none
for one that waits. -/
theorem overruns_of_deliver_and_drain (fuel : Nat) :
    (∀ room b e b', deliver reactions fuel room b e = some (.error ⟨b'⟩) →
      b.subscribers e.kind ≠ [] ∧ (room = 0 ∧ b' = b ∨
        ∃ less e' b₁, room = less + 1 ∧ Dispatches reactions b e e' b₁ ∧
          Overruns reactions less b₁ b')) ∧
      ∀ room b b', drain reactions fuel room b = some (.error ⟨b'⟩) → Overruns reactions room b b' := by
  induction fuel with
  | zero =>
    refine ⟨fun room b e b' h => ?_, fun room b b' h => ?_⟩
    · rw [deliver] at h; cases h
    · rw [drain] at h; cases h
  | succ fuel ih =>
    obtain ⟨ihdeliver, ihdrain⟩ := ih
    refine ⟨fun room b e b' h => ?_, fun room b b' h => ?_⟩
    · by_cases hnobody : b.subscribers e.kind = []
      · rw [deliver_of_nobody hnobody] at h
        cases h
      · refine ⟨hnobody, ?_⟩
        cases room with
        | zero =>
          rw [deliver_of_no_room hnobody] at h
          cases h
          exact .inl ⟨rfl, rfl⟩
        | succ room =>
          rw [deliver_of_somebody hnobody, Option.bind_eq_some_iff] at h
          obtain ⟨r, hdispatch, hmap⟩ := h
          obtain ⟨ending, hdrain, heq⟩ := Option.map_eq_some_iff.1 hmap
          cases ending with
          | ok b₂ => cases heq
          | error overrun =>
            cases heq
            exact .inr ⟨room, r.1, r.2, rfl, ⟨fuel, hdispatch⟩, ihdrain _ _ _ hdrain⟩
    · rw [drain] at h
      cases hqueue : b.queue with
      | nil =>
        rw [hqueue] at h
        cases h
      | cons e rest =>
        rw [hqueue] at h
        dsimp only at h
        split at h
        · cases h
        · next overrun hdeliver =>
          cases h
          obtain ⟨hsomebody, ⟨rfl, rfl⟩ | ⟨less, e', b₁, rfl, hdispatches, hoverruns⟩⟩ :=
            ihdeliver _ _ _ _ hdeliver
          · exact .here hqueue hsomebody
          · exact .next hqueue hsomebody hdispatches hoverruns
        · next e' b₂ hdeliver =>
          have hoverruns := ihdrain _ _ _ h
          obtain ⟨b₁, hdispatches, -, ⟨hnobody, rfl⟩ | ⟨events, hworks⟩⟩ :=
            (works_of_deliver_and_drain fuel).1 _ _ _ _ _ hdeliver
          · obtain ⟨-, rfl⟩ := (dispatches_iff_of_nobody hnobody).1 hdispatches
            exact .pass hqueue hnobody hoverruns
          · -- A delivery to somebody leaves nothing that could be without room.
            exact absurd hoverruns (not_overruns_of_nil hworks.queue)

theorem drain_of_overruns (h : Overruns reactions room b b') :
    ∃ least, ∀ fuel ≥ least, drain reactions fuel room b = some (.error ⟨b'⟩) := by
  induction h with
  | @here b e rest hqueue hsomebody =>
    refine ⟨2, fun fuel hfuel => ?_⟩
    obtain ⟨fuel, rfl⟩ : ∃ f, fuel = f + 2 := ⟨fuel - 2, by omega⟩
    have hdeliver := deliver_of_no_room (b := { b with queue := rest }) hsomebody reactions fuel
    rw [drain, hqueue]
    dsimp only
    rw [hdeliver]
  | @pass room b b' e rest hqueue hnobody _ ih =>
    obtain ⟨least, hleast⟩ := ih
    refine ⟨least + 2, fun fuel hfuel => ?_⟩
    obtain ⟨fuel, rfl⟩ : ∃ f, fuel = f + 2 := ⟨fuel - 2, by omega⟩
    have hdeliver :=
      deliver_of_nobody (b := { b with queue := rest }) hnobody reactions fuel room
    rw [drain, hqueue]
    dsimp only
    rw [hdeliver]
    exact hleast _ (by omega)
  | @next room b b₁ b' e e' rest hqueue hsomebody hdispatches _ ih =>
    obtain ⟨first, hfirst⟩ := hdispatches
    obtain ⟨least, hleast⟩ := ih
    refine ⟨max first least + 2, fun fuel hfuel => ?_⟩
    obtain ⟨fuel, rfl⟩ : ∃ f, fuel = f + 2 := ⟨fuel - 2, by omega⟩
    have hdeliver :=
      deliver_of_somebody (b := { b with queue := rest }) hsomebody reactions fuel room
    rw [drain, hqueue]
    dsimp only
    rw [hdeliver, dispatch_mono hfirst (by omega), Option.bind_some, hleast _ (by omega)]
    rfl

/-- A publication ends for want of room exactly if the loop over the queue that holds its event comes
to an event without room, and leaves what the loop has left there. -/
theorem publish_overruns_iff (hidle : b.queue = []) :
    (∃ fuel, publish reactions fuel room b e = some (.error ⟨b'⟩)) ↔
      ∃ b₂, Overruns reactions room (b.enqueue e) b₂ ∧ b' = b₂.release := by
  obtain ⟨hqueue, hrest⟩ := queue_enqueue hidle e
  constructor
  · rintro ⟨fuel, h⟩
    rw [publish, Option.map_eq_some_iff] at h
    obtain ⟨ending, hdeliver, heq⟩ := h
    cases ending with
    | ok r => cases heq
    | error overrun =>
      cases heq
      rw [← hrest] at hdeliver
      refine ⟨overrun.bus, ?_, rfl⟩
      obtain ⟨hsomebody, ⟨rfl, hbus⟩ | ⟨less, e', b₁, rfl, hdispatches, hoverruns⟩⟩ :=
        (overruns_of_deliver_and_drain fuel).1 _ _ _ _ hdeliver
      · rw [hbus]
        exact .here hqueue hsomebody
      · exact .next hqueue hsomebody hdispatches hoverruns
  · rintro ⟨b₂, hoverruns, rfl⟩
    -- The loop takes the event first, so that its delivery is what the loop makes of it.
    suffices hdeliver : ∃ fuel, deliver reactions fuel room (b.record (.published e)) e =
        some (.error ⟨b₂⟩) by
      obtain ⟨fuel, hdeliver⟩ := hdeliver
      exact ⟨fuel, by rw [publish, hdeliver]; rfl⟩
    rw [← hrest]
    obtain ⟨least, hleast⟩ := drain_of_overruns hoverruns
    have hdrain := hleast (least + 1) (Nat.le_succ _)
    rw [drain, hqueue] at hdrain
    dsimp only at hdrain
    split at hdrain
    · cases hdrain
    · next overrun hdeliver =>
      cases hdrain
      exact ⟨least, hdeliver⟩
    · next e' b₃ hdeliver =>
      -- Nothing is left to overrun by a delivery that returns.
      have hover := (overruns_of_deliver_and_drain _).2 _ _ _ hdrain
      obtain ⟨b₁, hdispatches, -, ⟨hnobody, rfl⟩ | ⟨events, hworks⟩⟩ :=
        (works_of_deliver_and_drain _).1 _ _ _ _ _ hdeliver
      · obtain ⟨-, rfl⟩ := (dispatches_iff_of_nobody hnobody).1 hdispatches
        exact absurd hover (not_overruns_of_nil rfl)
      · exact absurd hover (not_overruns_of_nil hworks.queue)

end Parley.Bus
