import Parley.Proofs.Bus.Walking

/-!
# The Journal of a Walk

A bus keeps a journal, and an event that is published while another one is delivered waits in a
queue. We say what a walk adds to both: at each entry that lives its call, and behind the call what
the handler published and whether it failed, all of it in the name of the event that is delivered.

* `Bus.Adds`: what is added to the journal, with the published events added to the queue;
* `Walk.visit_adds`: what meeting an entry adds;
* `Bus.calls`: how often a subscription was called, and `Walk.calls_visit`: how meeting an entry
  changes this.
-/

namespace Parley.Bus

variable {b b' b'' : Bus} {new more : List Entry}

/-- The event that an entry of the journal says to be published. -/
def Entry.published? : Entry → Option Event
  | .published e => some e
  | _ => none

/-- The event whose delivery began with an entry of the journal. -/
def Entry.begun? : Entry → Option Event
  | .began e => some e
  | _ => none

/-- Whether an entry of the journal is a call of a subscription. -/
def Entry.isCall (s : Subscription) : Entry → Bool
  | .called t _ => t = s
  | _ => false

/-- How often a subscription was called. -/
def calls (b : Bus) (s : Subscription) : Nat :=
  b.journal.countP (·.isCall s)

/-- Entries are added to the journal, here in the order of time, and the events that are published
among them to the queue. -/
structure Adds (b b' : Bus) (new : List Entry) : Prop where
  journal : b'.journal = new.reverse ++ b.journal
  queue : b'.queue = b.queue ++ new.filterMap Entry.published?

/-- What touches neither journal nor queue adds no entries. -/
theorem Adds.of_eq (hjournal : b'.journal = b.journal) (hqueue : b'.queue = b.queue) :
    Adds b b' [] :=
  ⟨hjournal, by rw [hqueue]; exact (List.append_nil _).symm⟩

theorem Adds.record (b : Bus) {x : Entry} (h : x.published? = none) : Adds b (b.record x) [x] :=
  ⟨rfl, by simp [h, Bus.record]⟩

/-- Entries are added one stretch after the other. -/
theorem Adds.trans (h : Adds b b' new) (h' : Adds b' b'' more) : Adds b b'' (new ++ more) where
  journal := by rw [h'.journal, h.journal, List.reverse_append, List.append_assoc]
  queue := by rw [h'.queue, h.queue, List.filterMap_append, List.append_assoc]

/-- The calls of a subscription are counted by the entries added. -/
theorem Adds.calls (h : Adds b b' new) (s : Subscription) :
    b'.calls s = b.calls s + new.countP (·.isCall s) := by
  rw [Bus.calls, Bus.calls, h.journal, List.countP_append, List.countP_reverse, Nat.add_comm]

/-- What an action adds to the journal. -/
def Action.entries : Action → List Entry
  | .publish e => [.published e]
  | _ => []

/-- An action adds its own entries. -/
theorem act_adds (b : Bus) (a : Action) : Adds b (b.act a) a.entries := by
  cases a with
  | subscribe kind handler priority mark weak =>
    rcases subscribe_cases b kind handler priority mark weak with
      ⟨n, -, hsubscribe⟩ | ⟨-, hsubscribe⟩ <;> rw [act, hsubscribe]
    · exact .of_eq rfl rfl
    · exact .of_eq rfl rfl
  | unsubscribe kind handler =>
    rw [act, unsubscribe]
    split <;> exact .of_eq rfl rfl
  | clear kind? => cases kind? <;> exact .of_eq rfl rfl
  | publish e => exact ⟨rfl, rfl⟩
  | _ => exact .of_eq rfl rfl

/-- An entry that stands behind the call of a subscription for an event: something was published, or
the call failed. -/
def Entry.Follows (s : Subscription) (e : Event) : Entry → Prop
  | .published _ => True
  | .failed t e' => t = s ∧ e'.kind = e.kind ∧ e'.data = e.data
  | _ => False

theorem Entry.Follows.isCall {s t : Subscription} {e : Event} {x : Entry} (h : x.Follows s e) :
    x.isCall t = false := by
  cases x with
  | called _ _ => exact h.elim
  | _ => rfl

/-- What meeting an entry for an event puts into the journal: nothing if the entry is dead, and else
its call and what follows it. -/
def Meeting (s : Subscription) (e : Event) (isDead : Bool) (new : List Entry) : Prop :=
  if isDead then new = [] else ∃ rest, new = .called s e :: rest ∧ ∀ x ∈ rest, x.Follows s e

namespace Walk

open Relation

variable {reactions : Reactions} {w w' : Walk} {s t : Subscription}

/-- What a handler does is entered after its call. -/
theorem react_adds (w : Walk) (s : Subscription) (actions : List Action) :
    ∃ rest, Adds w.bus (w.react s actions).bus rest ∧ ∀ x ∈ rest, x.Follows s w.event := by
  refine (react_induction (P := fun v => (v.event.kind = w.event.kind ∧ v.event.data = w.event.data) ∧
    ∃ rest, Adds w.bus v.bus rest ∧ ∀ x ∈ rest, x.Follows s w.event) ?_ ?_
    ⟨⟨rfl, rfl⟩, [], .of_eq rfl rfl, nofun⟩).2
  · rintro v a - - ⟨hevent, rest, hadds, hrest⟩
    refine ⟨by cases a <;> exact hevent, rest ++ a.entries, ?_, fun x hx => ?_⟩
    · rw [perform_bus]
      exact hadds.trans (act_adds v.bus a)
    · rcases List.mem_append.1 hx with hx | hx
      · exact hrest x hx
      · cases a with
        | publish e => exact List.mem_singleton.1 hx ▸ trivial
        | _ => cases hx
  · rintro v ⟨hevent, rest, hadds, hrest⟩
    refine ⟨hevent, rest ++ [.failed s v.event], hadds.trans (.record _ rfl),
      fun x hx => ?_⟩
    rcases List.mem_append.1 hx with hx | hx
    · exact hrest x hx
    · exact List.mem_singleton.1 hx ▸ ⟨rfl, hevent⟩

theorem visit_adds (w : Walk) (reactions : Reactions) (s : Subscription) :
    ∃ new, Adds w.bus (w.visit reactions s).bus new ∧ Meeting s w.event (w.isDead s) new := by
  cases hdead : w.isDead s with
  | true =>
    rw [visit_of_dead hdead]
    exact ⟨[], .of_eq rfl rfl, rfl⟩
  | false =>
    obtain ⟨rest, hadds, hrest⟩ :=
      react_adds (w.answering s) s (reactions (w.answering s).bus.journal)
    have hcall : Adds w.bus (w.answering s).bus [.called s w.event] := .record _ rfl
    refine ⟨.called s w.event :: rest, ?_, rest, rfl, hrest⟩
    have hboth := hcall.trans hadds
    rw [visit_of_lives hdead]
    dsimp only
    split <;> exact hboth

/-- Meeting an entry calls it once, unless it is dead, and calls no other one. -/
theorem calls_visit (w : Walk) (reactions : Reactions) (s t : Subscription) :
    (w.visit reactions s).bus.calls t =
      w.bus.calls t + if w.isDead s = false ∧ t = s then 1 else 0 := by
  obtain ⟨new, hadds, hmeeting⟩ := w.visit_adds reactions s
  rw [hadds.calls t]
  rw [Meeting] at hmeeting
  cases hdead : w.isDead s with
  | true =>
    rw [hdead, if_pos rfl] at hmeeting
    rw [hmeeting, if_neg (by simp)]
    rfl
  | false =>
    rw [hdead, if_neg (by simp)] at hmeeting
    obtain ⟨rest, rfl, hrest⟩ := hmeeting
    have hnone : rest.countP (·.isCall t) = 0 :=
      List.countP_eq_zero.2 fun x hx => by simp [(hrest x hx).isCall]
    rw [List.countP_cons, hnone]
    simp only [Entry.isCall, decide_eq_true_eq, true_and, Nat.zero_add, eq_comm (a := t)]

end Walk

end Parley.Bus
