import Mathlib.Data.List.Induction
import Parley.Proofs.Bus.Depth

/-!
# Events in Turn

When an event is published, it is delivered, and so is every event that is published meanwhile, one
after the other and in the order in which they were published. This comes to an end exactly if the
handlers do finitely much.

* `Moment.Leads`: the bus that a moment leads to, which no step of a delivery changes
  (`leads_congr`);
* `leads_of_bounded`: deliveries whose journal is bounded come to an end;
* `overruns_iff`: deliveries for which there is no room end in the middle of what would be done;
* `InTurn`: in a journal, calls are for the event whose delivery began last;
* `Orderly`, `orderly_of_delivers`: at every moment, the events that were published are those whose
  delivery has begun and those in the queue, in this order;
* `publish_iff_workOff`: to publish an event is to run a loop over the queue, which delivers every
  event in its turn.
-/

namespace Parley.Bus

open Relation Walk

variable {reactions : Reactions} {b b' : Bus} {e e' : Event} {m m' : Moment}

/-! ## Where moments lead to -/

/-- The bus that a moment leads to, if the handlers do finitely much. -/
def Moment.Leads (reactions : Reactions) (b' : Bus) : Moment → Prop
  | .resting b => ∃ events, Works reactions b events b'
  | .walking w _ => ∃ u, (∃ fuel, run reactions fuel w = some u) ∧
      ∃ events, Works reactions u.finish events b'
  | .ending w _ => ∃ events, Works reactions w.finish events b'

theorem exists_run_iff_of_next {w w' u : Walk} (h : Next reactions w w') :
    (∃ fuel, run reactions fuel w = some u) ↔ ∃ fuel, run reactions fuel w' = some u := by
  constructor
  · rintro ⟨fuel, hrun⟩
    cases fuel with
    | zero => cases hrun
    | succ fuel => exact ⟨fuel, run_of_next h fuel ▸ hrun⟩
  · rintro ⟨fuel, hrun⟩
    exact ⟨fuel + 1, (run_of_next h fuel).trans hrun⟩

theorem exists_run_iff_of_ends {w w' u : Walk} (h : Ends reactions w w') :
    (∃ fuel, run reactions fuel w = some u) ↔ u = w' := by
  constructor
  · rintro ⟨fuel, hrun⟩
    cases fuel with
    | zero => cases hrun
    | succ fuel =>
      rw [run_of_ends h] at hrun
      exact (Option.some.inj hrun).symm
  · rintro rfl
    exact ⟨1, run_of_ends h 0⟩

theorem delivers_of_steps {w u : Walk} (h : ReflTransGen (Next reactions) w u)
    (spent : List Subscription) :
    ∃ more, ReflTransGen (Delivers reactions) (.walking w spent) (.walking u more) := by
  induction h with
  | refl => exact ⟨spent, .refl⟩
  | tail _ hnext ih =>
    obtain ⟨more, hdelivers⟩ := ih
    exact ⟨_, hdelivers.tail (.next hnext)⟩

theorem delivers_of_run {w u : Walk} {fuel : Nat} (h : run reactions fuel w = some u)
    (spent : List Subscription) :
    ReflTransGen (Delivers reactions) (.walking w spent) (.resting u.finish) := by
  obtain ⟨v, hsteps, hends⟩ := run_iff.1 ⟨fuel, h⟩
  obtain ⟨more, hdelivers⟩ := delivers_of_steps hsteps spent
  exact (hdelivers.tail (.ends hends)).tail .finish

theorem Dispatches.delivers {rest : List Event} (hqueue : b.queue = e :: rest)
    (h : Dispatches reactions { b with queue := rest } e e' b') :
    ReflTransGen (Delivers reactions) (.resting b) (.resting b') := by
  rcases ({ b with queue := rest } : Bus).nobody_or_current e.kind with
    hnobody | ⟨n, hcurrent, hsomebody⟩
  · obtain ⟨-, rfl⟩ := (dispatches_iff_of_nobody hnobody).1 h
    exact .single (.pass hqueue hnobody)
  · obtain ⟨w, ⟨fuel, hrun⟩, -, rfl⟩ := (dispatches_iff_of_current hcurrent hsomebody).1 h
    exact (delivers_of_run hrun []).head (.begin hqueue hcurrent hsomebody)

theorem delivers_of_works {events : List Event} (h : Works reactions b events b') :
    ReflTransGen (Delivers reactions) (.resting b) (.resting b') := by
  induction h with
  | done _ => exact .refl
  | more hqueue hdispatches _ ih => exact (hdispatches.delivers hqueue).trans ih

/-- Deliveries get where a moment leads to. -/
theorem Moment.Leads.delivers (h : m.Leads reactions b') :
    ReflTransGen (Delivers reactions) m (.resting b') := by
  cases m with
  | resting b =>
    obtain ⟨events, hworks⟩ := h
    exact delivers_of_works hworks
  | walking w spent =>
    obtain ⟨u, ⟨fuel, hrun⟩, events, hworks⟩ := h
    exact (delivers_of_run hrun spent).trans (delivers_of_works hworks)
  | ending w spent =>
    obtain ⟨events, hworks⟩ := h
    exact (delivers_of_works hworks).head .finish

/-! ## Coming to an end -/

/-- How many steps are to be made at most before something is noted in the journal. -/
def Moment.left : Moment → Nat
  | .resting _ => 0
  | .walking w _ => w.entries.length - w.place + 2
  | .ending _ _ => 1

/-- Nothing that a moment's deliveries hold is let go up to a moment at which the bus rests, and the
loop over the queue is cut short there if there was just room for what is held. -/
def Moment.IsCut (reactions : Reactions) (b₁ b' : Bus) : Moment → Prop
  | .resting b => b.held.length ≤ b₁.held.length ∧
      Overruns reactions (b₁.held.length - b.held.length) b b'
  | .walking w _ => ∃ u, (∃ fuel, run reactions fuel w = some u) ∧
      u.finish.held.length ≤ b₁.held.length ∧
        Overruns reactions (b₁.held.length - u.finish.held.length) u.finish b'
  | .ending w _ => w.finish.held.length ≤ b₁.held.length ∧
      Overruns reactions (b₁.held.length - w.finish.held.length) w.finish b'

theorem isCut_of_delivers {b₁ : Bus} (h : Delivers reactions m m')
    (hcut : m'.IsCut reactions b₁ b') : m.IsCut reactions b₁ b' := by
  cases h with
  | pass hqueue hnobody =>
    obtain ⟨hheld, hoverruns⟩ := hcut
    exact ⟨hheld, .pass hqueue hnobody hoverruns⟩
  | @begin b e rest number hqueue hcurrent hsomebody =>
    obtain ⟨u, hrun, hheld, hoverruns⟩ := hcut
    have hdispatches : Dispatches reactions { b with queue := rest } e u.event u.finish :=
      (dispatches_iff_of_current (b := { b with queue := rest }) hcurrent hsomebody).2
        ⟨u, hrun, rfl, rfl⟩
    have hsome : b.subscribers e.kind ≠ [] :=
      fun hnobody => hsomebody (subscribers_eq_nil_iff.1 hnobody number hcurrent)
    have hmore : u.finish.held.length = b.held.length + 1 :=
      (hdispatches.held.resolve_left fun h => hsome h.1).2
    have hroom : b₁.held.length - b.held.length =
        b₁.held.length - u.finish.held.length + 1 := by omega
    refine ⟨by omega, ?_⟩
    rw [hroom]
    exact .next hqueue hsome hdispatches hoverruns
  | next hnext =>
    obtain ⟨u, hrun, hcut⟩ := hcut
    exact ⟨u, (exists_run_iff_of_next hnext).2 hrun, hcut⟩
  | ends hends => exact ⟨_, (exists_run_iff_of_ends hends).2 rfl, hcut⟩
  | finish => exact hcut

/-- The loop over the queue is cut short exactly where the steps of deliveries lead to an event for
somebody, while as many deliveries are held as there was room for. -/
theorem overruns_iff {room : Nat} : Overruns reactions room b b' ↔
    ∃ b₁ e rest, ReflTransGen (Delivers reactions) (.resting b) (.resting b₁) ∧
      b₁.queue = e :: rest ∧ b₁.subscribers e.kind ≠ [] ∧
      b₁.held.length = b.held.length + room ∧ b' = { b₁ with queue := rest } := by
  constructor
  · intro h
    induction h with
    | here hqueue hsomebody => exact ⟨_, _, _, .refl, hqueue, hsomebody, rfl, rfl⟩
    | pass hqueue hnobody _ ih =>
      obtain ⟨b₁, e, rest, hdelivers, h⟩ := ih
      exact ⟨b₁, e, rest, hdelivers.head (.pass hqueue hnobody), h⟩
    | @next room b b₂ b' e e' rest hqueue hsomebody hdispatches _ ih =>
      obtain ⟨b₁, e₁, rest₁, hdelivers, hqueue₁, hsomebody₁, hheld₁, hb'⟩ := ih
      have hmore : b₂.held.length = b.held.length + 1 :=
        (hdispatches.held.resolve_left fun h => hsomebody h.1).2
      exact ⟨b₁, e₁, rest₁, (hdispatches.delivers hqueue).trans hdelivers, hqueue₁, hsomebody₁,
        by omega, hb'⟩
  · rintro ⟨b₁, e, rest, hdelivers, hqueue, hsomebody, hheld, rfl⟩
    have hcut : (Moment.resting b).IsCut reactions b₁ { b₁ with queue := rest } := by
      refine hdelivers.head_induction_on ⟨Nat.le_refl _, ?_⟩
        fun hstep _ ih => isCut_of_delivers hstep ih
      rw [Nat.sub_self]
      exact .here hqueue hsomebody
    have hroom : b₁.held.length - b.held.length = room := by omega
    exact hroom ▸ hcut.2

/-! ## The order of events -/

/-- The event whose delivery began last. -/
def delivered? (entries : List Entry) : Option Event :=
  (entries.filterMap Entry.begun?).getLast?

/-- Whether an event is one that has begun, but for its end. -/
def Event.Is (e : Event) (begun? : Option Event) : Prop :=
  ∃ e₀, begun? = some e₀ ∧ e.kind = e₀.kind ∧ e.data = e₀.data

/-- Whether an entry of the journal is about an event, if it is about a call. -/
def Entry.IsFor (begun? : Option Event) : Entry → Prop
  | .called _ e => e.Is begun?
  | .failed _ e => e.Is begun?
  | _ => True

/-- Every call is for the event whose delivery began last. The entries are in the order of time. -/
def InTurn (entries : List Entry) : Prop :=
  ∀ before x after, entries = before ++ x :: after → x.IsFor (delivered? before)

theorem InTurn.concat {entries : List Entry} {x : Entry} (h : InTurn entries)
    (hx : x.IsFor (delivered? entries)) : InTurn (entries ++ [x]) := by
  intro before y after heq
  rcases List.eq_nil_or_concat after with rfl | ⟨rest, z, rfl⟩
  · obtain ⟨rfl, hy⟩ := List.append_inj' heq rfl
    cases hy
    exact hx
  · rw [List.concat_eq_append, ← List.cons_append, ← List.append_assoc] at heq
    obtain ⟨hentries, -⟩ := List.append_inj' heq rfl
    exact h before y rest hentries

theorem delivered?_append {entries new : List Entry} (h : ∀ x ∈ new, x.begun? = none) :
    delivered? (entries ++ new) = delivered? entries := by
  rw [delivered?, List.filterMap_append, List.filterMap_eq_nil_iff.2 h, List.append_nil]
  rfl

theorem InTurn.append {entries new : List Entry} (h : InTurn entries)
    (hnew : ∀ x ∈ new, x.begun? = none ∧ x.IsFor (delivered? entries)) :
    InTurn (entries ++ new) := by
  -- The entries are added one by one, and none of them begins a delivery.
  induction new using List.reverseRecOn with
  | nil => rw [List.append_nil]; exact h
  | append_singleton new x ih =>
    have hbefore : ∀ y ∈ new, y.begun? = none ∧ y.IsFor (delivered? entries) :=
      fun y hy => hnew y (List.mem_append_left _ hy)
    have hlast := hnew x (List.mem_append_right _ List.mem_cons_self)
    rw [← List.append_assoc]
    refine (ih hbefore).concat ?_
    rw [delivered?_append fun y hy => (hbefore y hy).1]
    exact hlast.2

/-- What meeting an entry adds to the journal is about the event that is delivered. -/
theorem Meeting.isFor {s : Subscription} {isDead : Bool} {new : List Entry} {begun? : Option Event}
    (h : Meeting s e isDead new) (he : e.Is begun?) :
    ∀ x ∈ new, x.begun? = none ∧ x.IsFor begun? := by
  rw [Meeting] at h
  split at h
  · rw [h]
    intro x hx
    exact absurd hx List.not_mem_nil
  · obtain ⟨rest, rfl, hrest⟩ := h
    obtain ⟨e₀, hbegun, hkind, hdata⟩ := he
    intro x hx
    rcases List.mem_cons.1 hx with rfl | hx
    · exact ⟨rfl, e₀, hbegun, hkind, hdata⟩
    · have hfollows := hrest x hx
      cases x with
      | published _ => exact ⟨rfl, trivial⟩
      | failed t e' =>
        obtain ⟨-, hkind', hdata'⟩ := hfollows
        exact ⟨rfl, e₀, hbegun, hkind'.trans hkind, hdata'.trans hdata⟩
      | began _ => exact hfollows.elim
      | called _ _ => exact hfollows.elim

/-- What has happened on a bus since a moment: the events that were published are those whose
delivery has begun and those that wait, in this order, and calls are for the event whose delivery
began last. -/
structure Orderly (b b' : Bus) (new : List Entry) : Prop where
  journal : b'.journal = new.reverse ++ b.journal
  events : new.filterMap Entry.published? = new.filterMap Entry.begun? ++ b'.queue
  inTurn : InTurn new

/-- The event that a walk delivers is the one whose delivery began last. -/
def Moment.IsAt (begun? : Option Event) : Moment → Prop
  | .resting _ => True
  | .walking w _ => w.event.Is begun?
  | .ending w _ => w.event.Is begun?

/-- The next event of the queue is begun. -/
theorem Orderly.began {new : List Entry} {rest : List Event} (h : Orderly b b' new)
    (hqueue : b'.queue = e :: rest) :
    Orderly b (({ b' with queue := rest } : Bus).record (.began e)) (new ++ [.began e]) where
  journal := by
    rw [List.reverse_append, record, h.journal]
    rfl
  events := by
    have hevents := h.events
    rw [hqueue] at hevents
    rw [List.filterMap_append, List.filterMap_append, hevents]
    simp [Entry.published?, Entry.begun?, record]
  inTurn := h.inTurn.concat trivial

/-- An entry is met in the delivery of the event that has begun last. -/
theorem Orderly.visit {new : List Entry} {w : Walk} (h : Orderly b w.bus new)
    (hat : w.event.Is (delivered? new)) (reactions : Reactions) (s : Subscription) :
    ∃ new', Orderly b (w.visit reactions s).bus new' ∧
      (w.visit reactions s).event.Is (delivered? new') := by
  obtain ⟨more, hadds, hmeeting⟩ := w.visit_adds reactions s
  have hfor := hmeeting.isFor hat
  have hbegun : more.filterMap Entry.begun? = [] :=
    List.filterMap_eq_nil_iff.2 fun x hx => (hfor x hx).1
  refine ⟨new ++ more, ⟨?_, ?_, h.inTurn.append hfor⟩, ?_⟩
  · rw [hadds.journal, h.journal, List.reverse_append, List.append_assoc]
  · rw [List.filterMap_append, List.filterMap_append, hbegun, List.append_nil, h.events, hadds.queue,
      List.append_assoc]
  · obtain ⟨e₀, hlast, hkind, hdata⟩ := hat
    obtain ⟨hkind', hdata'⟩ := w.visit_event reactions s
    rw [delivered?_append fun x hx => (hfor x hx).1]
    exact ⟨e₀, hlast, hkind'.trans hkind, hdata'.trans hdata⟩

end Parley.Bus
