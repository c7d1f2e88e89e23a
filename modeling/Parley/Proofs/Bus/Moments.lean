import Parley.Proofs.Bus.Journal

/-!
# Moments of a Bus

A bus rests, or one of its deliveries walks over a roster, or a walk has ended and its places are
about to be vacated. We take what happens on a bus apart into steps from one of these moments to the
next, so that what holds at every moment can be told by one step at a time. The steps go on wherever
the handlers keep a bus busy forever.

* `Delivers`: the steps of deliveries, for given reactions of the handlers;
* `Step`: these steps, for any reactions, and what is done to a bus while nothing is delivered;
* `Walk.spend`: the entries that a walk means to remove when it notes a place to be vacated;
* `sound_of_reached`: rosters are numbered at every moment.
-/

namespace Parley.Bus

open Relation

variable {reactions : Reactions} {s : Subscription} {spent : List Subscription}

/-- The entries that are dead or end with their first call, with the entry that a walk is about to
meet if it is such a one, the last one first. -/
def Walk.spend (w : Walk) (spent : List Subscription) : List Subscription :=
  match w.entries[w.place]? with
  | some s => if w.isDead s || s.oneShot then s :: spent else spent
  | none => spent

theorem Walk.spend_of_meets {w : Walk} (hmeets : w.entries[w.place]? = some s) :
    w.spend spent = if w.isDead s || s.oneShot then s :: spent else spent := by
  rw [spend, hmeets]

theorem Walk.spend_of_none {w : Walk} (hnone : w.entries[w.place]? = none) :
    w.spend spent = spent := by
  rw [spend, hnone]

/-- A moment of a bus. -/
inductive Moment
  /-- Nothing is walked over. Events may wait for their delivery. -/
  | resting (bus : Bus)
  /-- A delivery is about to look at a place. Behind it are the entries for which it has noted a
  place to be vacated. -/
  | walking (walk : Walk) (spent : List Subscription)
  /-- A delivery is about to vacate the places that it has noted. -/
  | ending (walk : Walk) (spent : List Subscription)

namespace Moment

/-- The bus at a moment. -/
def bus : Moment → Bus
  | resting b => b
  | walking w _ => w.bus
  | ending w _ => w.bus

/-- What the handlers are asked to do at the call that comes next, if one does. -/
def asked (reactions : Reactions) : Moment → List Action
  | walking w _ =>
    match w.next? with
    | some s => reactions (w.bus.record (.called s w.event)).journal
    | none => []
  | _ => []

/-- The rosters are numbered. -/
def Sound : Moment → Prop
  | resting b => b.Sound
  | walking w _ => w.Sound
  | ending w _ => w.Sound

end Moment

/-- What every action that is asked for keeps, and everything that is noted, is kept at an entry. -/
theorem visit_induction {P : Bus → Prop} {w : Walk} (spent : List Subscription)
    (hmeets : w.entries[w.place]? = some s)
    (hact : ∀ b, ∀ a ∈ (Moment.walking w spent).asked reactions,
      b.refusal? a = none → P b → P (b.act a))
    (hrecord : ∀ b x, P b → P (b.record x)) (h : P w.bus) : P (w.visit reactions s).bus := by
  cases hdead : w.isDead s with
  | true =>
    rw [Walk.visit_of_dead hdead]
    exact h
  | false =>
    rw [Moment.asked, Walk.next?_eq_some_iff.2 ⟨hmeets, hdead⟩] at hact
    have hcall : P ((w.answering s).react s (reactions (w.answering s).bus.journal)).bus := by
      refine Walk.react_induction (P := fun v => P v.bus) (fun v a ha hallowed hv => ?_)
        (fun v hv => hrecord _ _ hv) (hrecord _ _ h)
      rw [perform_bus]
      exact hact _ a ha hallowed hv
    rw [Walk.visit_of_lives hdead]
    dsimp only
    split <;> exact hcall

/-- One step of a delivery. -/
inductive Delivers (reactions : Reactions) : Moment → Moment → Prop
  /-- Nobody has subscribed to the next event. -/
  | pass {b : Bus} {e : Event} {rest : List Event} (hqueue : b.queue = e :: rest)
      (hnobody : b.subscribers e.kind = []) :
      Delivers reactions (.resting b) (.resting ({ b with queue := rest }.record (.began e)))
  /-- The delivery of the next event begins. -/
  | begin {b : Bus} {e : Event} {rest : List Event} {number : Nat} (hqueue : b.queue = e :: rest)
      (hcurrent : b.current e.kind = some number)
      (hsomebody : ¬ (b.rosters e.kind number).isEmpty = true) :
      Delivers reactions (.resting b)
        (.walking (.start ({ b with queue := rest }.record (.began e)) e number) [])
  | next {w w' : Walk} {spent : List Subscription} (hnext : w.Next reactions w') :
      Delivers reactions (.walking w spent) (.walking w' (w.spend spent))
  | ends {w w' : Walk} {spent : List Subscription} (hends : w.Ends reactions w') :
      Delivers reactions (.walking w spent) (.ending w' (w.spend spent))
  | finish {w : Walk} {spent : List Subscription} :
      Delivers reactions (.ending w spent) (.resting w.finish)

/-- One step of a bus, with what it is asked to do. -/
inductive Step : Moment → List Action → Moment → Prop
  /-- Something is done to a bus while it delivers nothing. What deliveries have held is let go. -/
  | act {b : Bus} {a : Action} (hidle : b.queue = []) (hallowed : b.refusal? a = none) :
      Step (.resting b) [a] (.resting (b.release.act a))
  | deliver {reactions : Reactions} {m m' : Moment} (h : Delivers reactions m m') :
      Step m (m.asked reactions) m'

/-- One moment of a bus comes after another one. -/
def Proceeds (m m' : Moment) : Prop :=
  ∃ actions, Step m actions m'

/-- A moment of a bus that has begun empty. -/
def Reached (m : Moment) : Prop :=
  ReflTransGen Proceeds (.resting {}) m

/-! ## What every moment keeps -/

theorem foldl_eraseIdx_sublist (places : List Nat) (entries : List Subscription) :
    (places.foldl List.eraseIdx entries).Sublist entries := by
  induction places generalizing entries with
  | nil => exact .refl _
  | cons p rest ih => exact (ih _).trans (List.eraseIdx_sublist _ _)

theorem Walk.Sound.finish {w : Walk} (h : w.Sound) : w.finish.Sound := by
  have hleft : (w.bus.withEntries w.event.kind w.number
      (w.vacating.foldl List.eraseIdx w.entries)).Sound :=
    h.bus.withEntries (foldl_eraseIdx_sublist _ _)
  refine hleft.of_sublist (fun kind n => ⟨n, .refl _⟩) rfl (fun kind n => hleft.current) ?_
  intro hold hhold
  rcases List.mem_cons.1 hhold with rfl | hhold
  · exact h.number
  · exact hleft.held hold hhold

theorem Delivers.sound {m m' : Moment} (h : Delivers reactions m m') (hm : m.Sound) : m'.Sound := by
  cases h with
  | pass _ _ => exact hm.congr rfl rfl rfl rfl (List.Subset.refl _)
  | begin _ hcurrent _ =>
    exact Walk.sound_start (hm.congr rfl rfl rfl rfl (List.Subset.refl _)) hcurrent
  | next hnext => exact (hnext.grows hm).1
  | ends hends => exact (hends.grows hm).1
  | finish => exact Walk.Sound.finish hm

theorem Step.sound {m m' : Moment} {actions : List Action} (h : Step m actions m')
    (hm : m.Sound) : m'.Sound := by
  cases h with
  | act _ _ =>
    have hheld : ∀ b : Bus, b.Sound → b.release.Sound :=
      fun b hb => hb.congr rfl rfl rfl rfl (List.nil_subset _)
    exact (hheld _ hm).act _
  | deliver h => exact h.sound hm

theorem sound_of_reached {m : Moment} (h : Reached m) : m.Sound := by
  induction h with
  | refl => exact sound_empty
  | tail _ hproceeds ih =>
    obtain ⟨actions, hstep⟩ := hproceeds
    exact hstep.sound ih

end Parley.Bus
