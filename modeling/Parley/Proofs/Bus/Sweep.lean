import Parley.Proofs.Bus.Registry
import Parley.Proofs.Bus.WorkList

/-!
# Sweeps

A delivery goes by places, since its roster may change under its hands. As long as the handlers that
it calls leave the rosters alone, it is a plain loop over the entries that there were, with one way
out of it: a call that puts an end to the event.

* `Walk.Sweep`: the plain loop, with the entries that it meets and those that it leaves out;
* `Action.IsQuiet` and `Walk.IsQuiet`: nobody who is called subscribes, unsubscribes or clears;
* `Sweep.adds`: who is called; `Sweep.vacated`: what is left when the noted places are vacated;
* `Sweep.run` and `Sweep.stays`: a walk among quiet handlers is a sweep and comes to its end, and the
  rosters are as they were;
* `dispatch_exact`: what the delivery of an event to quiet handlers does, for every bus.
-/

namespace Parley.Bus

open Relation

variable {reactions : Reactions} {b b' : Bus} {s : Subscription}

/-- The subscription that an entry of the journal says to be called. -/
def Entry.called? : Entry → Option Subscription
  | .called s _ => some s
  | _ => none

/-- An action leaves the rosters alone. Publishing, ending the event, failing and dropping a handler do,
whatever else comes of them. -/
def Action.IsQuiet : Action → Prop
  | .subscribe .. => False
  | .unsubscribe .. => False
  | .clear _ => False
  | _ => True

/-- The kinds have the same rosters, with the same entries. -/
structure SameRosters (b b' : Bus) : Prop where
  rosters : b'.rosters = b.rosters
  current : b'.current = b.current

theorem SameRosters.refl (b : Bus) : b.SameRosters b := ⟨rfl, rfl⟩

theorem SameRosters.trans {b'' : Bus} (h : b.SameRosters b') (h' : b'.SameRosters b'') :
    b.SameRosters b'' :=
  ⟨h'.rosters.trans h.rosters, h'.current.trans h.current⟩

theorem SameRosters.subscribers (h : b.SameRosters b') (kind : EventKind) :
    b'.subscribers kind = b.subscribers kind := by
  simp only [Bus.subscribers, roster, h.rosters, h.current]

theorem sameRosters_act {a : Action} (h : a.IsQuiet) (b : Bus) : b.SameRosters (b.act a) := by
  cases a with
  | subscribe kind handler priority mark weak => exact h.elim
  | unsubscribe kind handler => exact h.elim
  | clear kind => exact h.elim
  | _ => exact ⟨rfl, rfl⟩

namespace Walk

variable {w w' : Walk} {all left : List Subscription} {met : List (Walk × Subscription)}

/-! ## The plain loop -/

/-- A plain loop over entries meets them in turn, each at the point of the walk that those before it
have led to, up to the first whose call has put an end to the event. It comes with the entries that
were met, those that are left out, and the walk after it. -/
inductive Sweep (reactions : Reactions) :
    Walk → List Subscription → List (Walk × Subscription) → List Subscription → Walk → Prop
  | exhausted (w : Walk) : Sweep reactions w [] [] [] w
  | stopped {w : Walk} {s : Subscription} (left : List Subscription)
      (hstops : w.stopsAt reactions s = true) :
      Sweep reactions w (s :: left) [(w, s)] left (w.visit reactions s)
  | next {w w' : Walk} {s : Subscription} {rest left : List Subscription}
      {met : List (Walk × Subscription)} (hgoes : w.stopsAt reactions s = false)
      (h : Sweep reactions (w.visit reactions s).advance rest met left w') :
      Sweep reactions w (s :: rest) ((w, s) :: met) left w'

theorem exists_sweep (reactions : Reactions) (w : Walk) (all : List Subscription) :
    ∃ met left w', Sweep reactions w all met left w' := by
  induction all generalizing w with
  | nil => exact ⟨[], [], w, .exhausted w⟩
  | cons s rest ih =>
    cases hstops : w.stopsAt reactions s with
    | true => exact ⟨_, rest, _, .stopped rest hstops⟩
    | false =>
      obtain ⟨met, left, w', h⟩ := ih (w.visit reactions s).advance
      exact ⟨_, left, w', .next hstops h⟩

/-- The entries are those that were met and, behind them, those that were left out. -/
theorem Sweep.entries (h : Sweep reactions w all met left w') :
    all = met.map Prod.snd ++ left := by
  induction h with
  | exhausted w => rfl
  | stopped left hstops => rfl
  | next hgoes h ih => rw [List.map_cons, List.cons_append, ← ih]

/-- The loop went on behind all entries but the last that it met. -/
theorem Sweep.goesOn (h : Sweep reactions w all met left w') :
    ∀ p ∈ met.dropLast, p.1.stopsAt reactions p.2 = false := by
  induction h with
  | exhausted w => exact nofun
  | stopped left hstops => exact nofun
  | @next w w' s rest left met hgoes h ih =>
    intro p hp
    cases met with
    | nil => cases hp
    | cons q more =>
      rw [List.dropLast_cons_cons] at hp
      rcases List.mem_cons.1 hp with rfl | hp
      · exact hgoes
      · exact ih p hp

/-- Entries are left out only if the last one that was met has put an end to the event. -/
theorem Sweep.stops (h : Sweep reactions w all met left w') (hleft : left ≠ []) :
    ∃ p, met.getLast? = some p ∧ p.1.stopsAt reactions p.2 = true := by
  induction h with
  | exhausted w => exact absurd rfl hleft
  | stopped left hstops => exact ⟨_, rfl, hstops⟩
  | next hgoes h ih =>
    obtain ⟨p, hlast, hstops⟩ := ih hleft
    refine ⟨p, ?_, hstops⟩
    rw [List.getLast?_cons, hlast]
    rfl

/-- Meeting an entry calls it, unless it is dead, and calls no other one. -/
theorem visit_called (w : Walk) (reactions : Reactions) (s : Subscription) :
    ∃ new, Adds w.bus (w.visit reactions s).bus new ∧
      new.filterMap Entry.called? = if w.isDead s then [] else [s] := by
  obtain ⟨new, hadds, hmeeting⟩ := w.visit_adds reactions s
  refine ⟨new, hadds, ?_⟩
  rw [Meeting] at hmeeting
  cases hdead : w.isDead s with
  | true =>
    rw [hdead, if_pos rfl] at hmeeting
    rw [hmeeting]
    rfl
  | false =>
    rw [hdead, if_neg (by simp)] at hmeeting
    obtain ⟨rest, rfl, hfollows⟩ := hmeeting
    -- What follows a call in the journal is no call.
    have hnone : rest.filterMap Entry.called? = [] := by
      rw [List.filterMap_eq_nil_iff]
      intro x hx
      cases x with
      | called t e => exact (hfollows _ hx).elim
      | _ => rfl
    rw [List.filterMap_cons, hnone]
    rfl

/-- The entries that live when they are met are called, once each and in their order. -/
theorem Sweep.adds (h : Sweep reactions w all met left w') :
    ∃ new, Adds w.bus w'.bus new ∧ new.filterMap Entry.called? =
      (met.filter fun p => !p.1.isDead p.2).map Prod.snd := by
  induction h with
  | exhausted w => exact ⟨[], .of_eq rfl rfl, rfl⟩
  | @stopped w s left hstops =>
    obtain ⟨new, hadds, hcalled⟩ := w.visit_called reactions s
    refine ⟨new, hadds, ?_⟩
    rw [hcalled]
    cases hdead : w.isDead s <;> simp [hdead]
  | @next w w' s rest left met hgoes h ih =>
    obtain ⟨new, hadds, hcalled⟩ := w.visit_called reactions s
    obtain ⟨more, hmore, hcalls⟩ := ih
    refine ⟨new ++ more, hadds.trans hmore, ?_⟩
    rw [List.filterMap_append, hcalled, hcalls]
    cases hdead : w.isDead s <;> simp [hdead]

/-- Whether the place of an entry that was met is vacated: it was dead or has ended with its call. -/
def isSpent (p : Walk × Subscription) : Bool :=
  p.1.isDead p.2 || p.2.oneShot

/-- Vacating the noted places, the last one first, takes away what was dead or called for its only
time and nothing else, wherever the loop has begun. -/
theorem Sweep.vacated (h : Sweep reactions w all met left w') {front : List Subscription}
    (hfront : front.length = w.place) :
    w'.vacating.foldl List.eraseIdx (front ++ all) = w.vacating.foldl List.eraseIdx
      (front ++ ((met.filter fun p => !isSpent p).map Prod.snd ++ left)) := by
  -- One entry that is spent is at the place behind the front, and is taken away there.
  have hvisit : ∀ (w : Walk) (s : Subscription) (front tail : List Subscription),
      front.length = w.place →
        (w.visit reactions s).vacating.foldl List.eraseIdx (front ++ s :: tail) =
          w.vacating.foldl List.eraseIdx
            (front ++ ((if isSpent (w, s) then [] else [s]) ++ tail)) := by
    intro w s front tail hfront
    rw [visit_vacating, isSpent]
    split
    · rw [List.foldl_cons, ← hfront, List.eraseIdx_append_of_length_le (Nat.le_refl _),
        Nat.sub_self]
      rfl
    · rfl
  induction h generalizing front with
  | exhausted w => rfl
  | @stopped w s left hstops =>
    rw [hvisit w s front left hfront]
    cases hspent : isSpent (w, s) <;> simp [hspent]
  | @next w w' s rest left met hgoes h ih =>
    have hplace : (front ++ [s]).length = (w.visit reactions s).advance.place := by
      rw [advance, visit_place, List.length_append, hfront]
      rfl
    have hrest := ih hplace
    rw [List.append_assoc, List.append_assoc, List.singleton_append, List.singleton_append] at hrest
    rw [hrest]
    refine (hvisit w s front _ hfront).trans ?_
    cases hspent : isSpent (w, s) <;> simp [hspent]

/-! ## Quiet handlers -/

/-- Wherever the walk comes to, the handler that it calls leaves the rosters alone. -/
def IsQuiet (reactions : Reactions) (w : Walk) : Prop :=
  ∀ v, ReflTransGen (Next reactions) w v →
    ∀ a ∈ (Moment.walking v []).asked reactions, a.IsQuiet

/-- Handlers that never do anything else are quiet wherever they are called. -/
theorem isQuiet_of_forall (h : ∀ journal, ∀ a ∈ reactions journal, a.IsQuiet) (w : Walk) :
    w.IsQuiet reactions := by
  rintro v - a ha
  rw [Moment.asked] at ha
  split at ha
  · exact h _ a ha
  · cases ha

theorem IsQuiet.next (h : w.IsQuiet reactions) (hnext : Next reactions w w') :
    w'.IsQuiet reactions :=
  fun v hv => h v (hv.head hnext)

theorem visit_number (w : Walk) (reactions : Reactions) (s : Subscription) :
    (w.visit reactions s).number = w.number := by
  have hreact : ∀ (v : Walk) (actions : List Action), (v.react s actions).number = v.number := by
    intro v actions
    refine react_induction (P := fun u => u.number = v.number) (fun u a _ _ hu => ?_)
      (fun u hu => hu) rfl
    cases a <;> exact hu
  cases hdead : w.isDead s with
  | true => rw [visit_of_dead hdead]; rfl
  | false =>
    rw [visit_of_lives hdead]
    dsimp only
    split <;> exact hreact _ _

/-- A walk is over the roster that it was over, and nothing has changed there or in other rosters. -/
structure Stays (w w' : Walk) : Prop where
  bus : w.bus.SameRosters w'.bus
  number : w'.number = w.number
  kind : w'.event.kind = w.event.kind

theorem Stays.refl (w : Walk) : w.Stays w := ⟨.refl _, rfl, rfl⟩

theorem Stays.trans {w'' : Walk} (h : w.Stays w') (h' : w'.Stays w'') : w.Stays w'' :=
  ⟨h.bus.trans h'.bus, h'.number.trans h.number, h'.kind.trans h.kind⟩

theorem Stays.entries (h : w.Stays w') : w'.entries = w.entries := by
  rw [Walk.entries, Walk.entries, h.bus.rosters, h.number, h.kind]

/-- A walk stays when it has met an entry whose handler is quiet. -/
theorem IsQuiet.stays (h : w.IsQuiet reactions) (hmeets : w.entries[w.place]? = some s) :
    w.Stays (w.visit reactions s) := by
  refine ⟨?_, visit_number w reactions s, (visit_event w reactions s).1⟩
  refine visit_induction (P := w.bus.SameRosters) [] hmeets (fun v a ha _ hv => ?_)
    (fun v x hv => hv.trans ⟨rfl, rfl⟩) (.refl _)
  exact hv.trans (sameRosters_act (h w .refl a ha) v)

/-- The entries that a walk has before it are the one that it meets next and those behind it. -/
theorem meets_of_drop {rest : List Subscription} (h : w.entries.drop w.place = s :: rest) :
    w.entries[w.place]? = some s ∧ w.entries.drop (w.place + 1) = rest := by
  constructor
  · rw [← List.head?_drop, h, List.head?_cons]
  · rw [← List.tail_drop, h, List.tail_cons]

/-- A walk among quiet handlers goes on over the entries that were behind the one it has met. -/
theorem IsQuiet.drop_advance {rest : List Subscription} (h : w.IsQuiet reactions)
    (hdrop : w.entries.drop w.place = s :: rest) :
    (w.visit reactions s).advance.entries.drop (w.visit reactions s).advance.place = rest := by
  obtain ⟨hmeets, hrest⟩ := meets_of_drop hdrop
  have hentries : (w.visit reactions s).advance.entries = w.entries := (h.stays hmeets).entries
  have hplace : (w.visit reactions s).advance.place = w.place + 1 := by
    rw [advance, visit_place]
  rw [hentries, hplace, hrest]

/-- A walk stays when it has swept over quiet handlers. -/
theorem Sweep.stays (h : Sweep reactions w all met left w')
    (hdrop : w.entries.drop w.place = all) (hquiet : w.IsQuiet reactions) : w.Stays w' := by
  induction h with
  | exhausted w => exact .refl w
  | stopped left hstops => exact hquiet.stays (meets_of_drop hdrop).1
  | next hgoes h ih =>
    obtain ⟨hmeets, -⟩ := meets_of_drop hdrop
    have hfirst := hquiet.stays hmeets
    have hrest := ih (hquiet.drop_advance hdrop) (hquiet.next ⟨hmeets, hgoes⟩)
    exact hfirst.trans ⟨hrest.bus, hrest.number, hrest.kind⟩

/-- A walk among quiet handlers is a sweep over the entries that it has before it. One unit of fuel for
each of them, and one more, are enough. -/
theorem Sweep.run (h : Sweep reactions w all met left w')
    (hdrop : w.entries.drop w.place = all) (hquiet : w.IsQuiet reactions) {fuel : Nat}
    (hfuel : all.length < fuel) : Walk.run reactions fuel w = some w' := by
  induction h generalizing fuel with
  | exhausted w =>
    obtain ⟨fuel, rfl⟩ : ∃ f, fuel = f + 1 := ⟨fuel - 1, by omega⟩
    exact run_of_ends (.exhausted (List.getElem?_eq_none (List.drop_eq_nil_iff.1 hdrop))) fuel
  | stopped left hstops =>
    obtain ⟨fuel, rfl⟩ : ∃ f, fuel = f + 1 := ⟨fuel - 1, by omega⟩
    exact run_of_ends (.stopped (meets_of_drop hdrop).1 hstops) fuel
  | @next w w' s rest left met hgoes h ih =>
    obtain ⟨fuel, rfl⟩ : ∃ f, fuel = f + 1 := ⟨fuel - 1, by omega⟩
    have hnext : Next reactions w (w.visit reactions s).advance :=
      ⟨(meets_of_drop hdrop).1, hgoes⟩
    rw [run_of_next hnext]
    refine ih (hquiet.drop_advance hdrop) (hquiet.next hnext) ?_
    rw [List.length_cons] at hfuel
    omega

end Walk

/-! ## Deliveries -/

open Walk

variable {e e' : Event} {left : List Subscription} {met : List (Walk × Subscription)}

/-- An event was delivered in a plain loop over the roster of its kind. -/
structure Swept (reactions : Reactions) (b : Bus) (e : Event) (met : List (Walk × Subscription))
    (left : List Subscription) (e' : Event) (b' : Bus) : Prop where
  /-- The entries that were met are the first ones of the roster, in its order. -/
  entries : b.subscribers e.kind = met.map Prod.snd ++ left
  /-- Each of them was met at the point of the walk that those before it have led to. -/
  loop : ∃ number w, (b.subscribers e.kind ≠ [] → b.current e.kind = some number) ∧
    Sweep reactions (start (b.record (.began e)) e number) (b.subscribers e.kind) met left w ∧
      w.event = e'
  /-- Nobody but the last of them was called and had put an end to the event then. -/
  goesOn : ∀ p ∈ met.dropLast, p.1.stopsAt reactions p.2 = false
  /-- The last one has done so if others were left out. -/
  stops : left ≠ [] → ∃ p, met.getLast? = some p ∧ p.1.stopsAt reactions p.2 = true
  /-- Those that lived were called, once each and in order, and nobody else. -/
  calls : ∃ new, Adds b b' new ∧
    new.filterMap Entry.called? = (met.filter fun p => !p.1.isDead p.2).map Prod.snd
  /-- Those that were dead or called for their only time have left, and all others have stayed. -/
  kept : b'.subscribers e.kind = (met.filter fun p => !isSpent p).map Prod.snd ++ left
  others : ∀ kind, kind ≠ e.kind → b'.subscribers kind = b.subscribers kind

/-- A delivery begins with the roster of the kind before it. -/
theorem entries_start {number : Nat} (hcurrent : b.current e.kind = some number) :
    (start (b.record (.began e)) e number).entries = b.subscribers e.kind := by
  rw [subscribers, roster, hcurrent]
  rfl

/-- An event that nobody has subscribed to is swept over nobody. -/
theorem swept_of_nobody (h : b.subscribers e.kind = []) (reactions : Reactions) :
    Swept reactions b e [] [] e (b.record (.began e)) where
  entries := h
  loop := by
    refine ⟨0, start (b.record (.began e)) e 0, fun hsome => absurd h hsome, ?_, rfl⟩
    rw [h]
    exact .exhausted _
  goesOn := nofun
  stops := fun hleft => absurd rfl hleft
  calls := ⟨[.began e], .record b rfl, rfl⟩
  kept := h
  others _ _ := rfl

/-- A sweep over quiet handlers, together with what is vacated behind it, is all that a delivery
does. -/
theorem swept_of_sweep {number : Nat} {w : Walk} (hcurrent : b.current e.kind = some number)
    (hquiet : (start (b.record (.began e)) e number).IsQuiet reactions)
    (h : Sweep reactions (start (b.record (.began e)) e number) (b.subscribers e.kind) met left w) :
    Swept reactions b e met left w.event w.finish := by
  have hroster := entries_start hcurrent
  have hstays := h.stays hroster hquiet
  have hkept : w.bus.current w.event.kind = some w.number := by
    rw [hstays.bus.current, hstays.kind, hstays.number]
    exact hcurrent
  refine ⟨h.entries, ⟨number, w, fun _ => hcurrent, h, rfl⟩, h.goesOn, h.stops, ?_, ?_, ?_⟩
  · obtain ⟨new, hadds, hcalled⟩ := h.adds
    have hbegan : Adds b (b.record (.began e)) [.began e] := .record b rfl
    have hfinish : Adds w.bus w.finish [] := .of_eq rfl rfl
    refine ⟨[.began e] ++ new ++ [], (hbegan.trans hadds).trans hfinish, ?_⟩
    rw [List.append_nil, List.filterMap_append, hcalled]
    rfl
  · have hvacated : w.vacating.foldl List.eraseIdx ([] ++ b.subscribers e.kind) = _ := h.vacated rfl
    have hkind : e.kind = w.event.kind := hstays.kind.symm
    rw [hkind, finish_subscribers, if_pos ⟨rfl, hkept⟩, hstays.entries, hroster]
    exact hvacated
  · intro kind hne
    have hother : ¬ (kind = w.event.kind ∧ w.bus.current kind = some w.number) := by
      rintro ⟨heq, -⟩
      exact hne (heq.trans hstays.kind)
    rw [finish_subscribers, if_neg hother, hstays.bus.subscribers]
    rfl

/-- A delivery that nobody interferes with is exact. Let the handlers that are called publish, end the
event, fail or drop handlers, but neither subscribe, unsubscribe nor clear. Then the delivery of an
event comes to its end with little fuel. It goes over the roster in order, up to the first entry whose
call has put an end to the event; a call that fails is as good as any other. It calls those entries
that live when it comes to them, once each, and afterwards the roster is the old one without the
one-shot entries among them and the dead entries that it has met. The rosters of other kinds are as
they were. What is published meanwhile is delivered after that. -/
theorem dispatch_exact (reactions : Reactions) (b : Bus) (e : Event)
    (hquiet : ∀ number, b.current e.kind = some number →
      (start (b.record (.began e)) e number).IsQuiet reactions) :
    ∃ met left e' b', Swept reactions b e met left e' b' ∧
      ∀ fuel, (b.subscribers e.kind).length < fuel →
        dispatch reactions fuel b e = some (e', b') ∧
        (b.subscribers e.kind ≠ [] → ∀ room, deliver reactions (fuel + 1) (room + 1) b e =
          (drain reactions fuel room b').map fun ending => ending.map fun after => (e', after)) := by
  rcases b.nobody_or_current e.kind with hnobody | ⟨number, hcurrent, hsomebody⟩
  · exact ⟨[], [], e, b.record (.began e), swept_of_nobody hnobody reactions, fun fuel _ =>
      ⟨dispatch_of_nobody hnobody reactions fuel, fun hsome => absurd hnobody hsome⟩⟩
  · obtain ⟨met, left, w, hsweep⟩ := exists_sweep reactions
      (start (b.record (.began e)) e number) (b.subscribers e.kind)
    have hswept := swept_of_sweep hcurrent (hquiet number hcurrent) hsweep
    refine ⟨met, left, w.event, w.finish, hswept, fun fuel hfuel => ?_⟩
    have hdispatch : dispatch reactions fuel b e = some (w.event, w.finish) := by
      rw [dispatch_of_current hcurrent hsomebody,
        hsweep.run (entries_start hcurrent) (hquiet number hcurrent) hfuel]
      rfl
    refine ⟨hdispatch, fun hsome room => ?_⟩
    rw [deliver_of_somebody hsome, hdispatch]
    rfl

/-- A crier who comes once and loses his voice, a ghost, a page who stays, a herald who comes once,
and a guest who comes last. The ghost's owner has dropped it. -/
def court : Bus :=
  ((((({} : Bus).subscribe .sessionStarted "crier" (.ofInt 4) (.bool true) false).subscribe
    .sessionStarted "ghost" (.ofInt 3)).subscribe .sessionStarted "page" (.ofInt 2)).subscribe
      .sessionStarted "herald" (.ofInt 1) (.bool true) |>.subscribe
        .sessionStarted "guest" (.ofInt 0)).drop "ghost"

/-- The crier fails, and the herald announces the end and puts an end to the event himself. -/
def audience : Reactions
  | .called s _ :: _ =>
    if s.handler = "crier" then [.fail]
    else if s.handler = "herald" then [.publish { kind := .sessionClosed }, .consume]
    else []
  | _ => []

/-- The guest is left out, and he and the page are left: the crier and the herald have come for their
only time, and the ghost was found dead between them. -/
theorem dispatch_exact_of_court :
    (∀ number, court.current .sessionStarted = some number →
      (start (court.record (.began { kind := .sessionStarted })) { kind := .sessionStarted }
        number).IsQuiet audience) ∧
      ∃ met left e' b', Swept audience court { kind := .sessionStarted } met left e' b' ∧
        ((b'.journal.reverse.filterMap Entry.called?).map Subscription.handler,
          (b'.subscribers .sessionStarted).map Subscription.handler, e'.consumed) =
            (["crier", "page", "herald"], ["page", "guest"], true) := by
  have hquiet : ∀ number, court.current .sessionStarted = some number →
      (start (court.record (.began { kind := .sessionStarted })) { kind := .sessionStarted }
        number).IsQuiet audience := by
    intro number _
    refine isQuiet_of_forall (fun journal a ha => ?_) _
    unfold audience at ha
    split at ha
    · split at ha
      · rw [List.mem_singleton.1 ha]
        trivial
      · split at ha
        · simp only [List.mem_cons, List.not_mem_nil, or_false] at ha
          rcases ha with rfl | rfl <;> trivial
        · cases ha
    · cases ha
  obtain ⟨met, left, e', b', hswept, hrun⟩ :=
    dispatch_exact audience court { kind := .sessionStarted } hquiet
  have hread : (dispatch audience 6 court { kind := .sessionStarted }).map (fun after =>
      ((after.2.journal.reverse.filterMap Entry.called?).map Subscription.handler,
        (after.2.subscribers .sessionStarted).map Subscription.handler, after.1.consumed)) =
          some (["crier", "page", "herald"], ["page", "guest"], true) := by
    rfl
  rw [(hrun 6 (by decide)).1] at hread
  exact ⟨hquiet, met, left, e', b', hswept, Option.some.inj hread⟩

end Parley.Bus
