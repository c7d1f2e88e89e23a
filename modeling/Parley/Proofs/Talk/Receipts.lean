import Parley.Proofs.Talk.Charge
import Parley.Proofs.Talk.Settlement

/-!
# What a Commit Tells

A commit tells what it does: that a turn was refused, or that its price was paid, then each variable
that was set, and then each item that changed hands. We prove:

* `Parties.commit_ends`: every commit ends in one of three ways (`Parties.Ends`), each with what
  becomes of quest state and with the events that it appends;
* `Parties.commit_requested`: whatever becomes of a commit, the economy only took requests.
-/

namespace Parley

/-- Whether an item changed hands or was offered. -/
def Happening.IsDelivery (what : Happening) : Prop :=
  what.kind = .itemGiven ∨ what.kind = .itemOffered

/-- What is told of the price of a turn: nothing, if it costs nothing. -/
def Turn.toll (turn : Turn) : List Happening :=
  if turn.spendTotal = 0 then [] else [.currencySpent turn.spendTotal]

/-- What is told of writes. -/
def told (written : List (String × Value)) : List Happening :=
  written.map fun w => .variableSet w.1 w.2

namespace Parties

variable (p : Parties)

/-- What becomes known of happenings: all of them, unless nothing is made known. -/
def news (whats : List Happening) : List TalkEvent :=
  if p.publishes then whats.map (⟨p.npc, ·⟩) else []

@[simp]
theorem news_nil : p.news [] = [] := by
  simp [news]

@[simp]
theorem news_append (first second : List Happening) :
    p.news (first ++ second) = p.news first ++ p.news second := by
  unfold news
  split <;> simp

@[simp]
theorem tell_events (what : Happening) (scene : Scene) :
    (p.tell what scene).events = scene.events ++ p.news [what] := by
  unfold tell news
  split <;> simp [Scene.publish]

/-- Writes are told one by one. -/
theorem tellWrites_events (written : List (String × Value)) (scene : Scene) :
    (written.foldl (fun scene w => p.tell (.variableSet w.1 w.2) scene) scene).events =
      scene.events ++ p.news (told written) := by
  induction written generalizing scene with
  | nil => simp [told]
  | cons w rest ih =>
    have hfirst : told (w :: rest) = [.variableSet w.1 w.2] ++ told rest := rfl
    rw [List.foldl_cons, ih, tell_events, hfirst, news_append, List.append_assoc]

/-- Nothing is told while a price is asked for and paid. -/
theorem charge_events (total : Nat) (scene : Scene) :
    (p.charge total scene).2.events = scene.events := by
  unfold charge
  split
  · rfl
  · dsimp only
    split <;> rfl

/-- A side effect tells at most of an item. -/
theorem perform_events (effect : Effect) (scene : Scene) :
    ∃ items, (∀ what ∈ items, what.IsDelivery) ∧
      (p.perform effect scene).2.events = scene.events ++ p.news items := by
  have hnothing : ∃ items : List Happening, (∀ what ∈ items, what.IsDelivery) ∧
      scene.events = scene.events ++ p.news items := ⟨[], by simp, by simp⟩
  rw [perform.eq_def]
  split
  · exact hnothing
  · exact hnothing
  · exact hnothing
  · -- The message may ask for what is no text; then nothing is given and nothing told.
    next item message economy _ =>
    have hevents : (scene.substitute p.lore message).2.events = scene.events := rfl
    split
    · next hmessage =>
      rw [hmessage] at hevents
      exact ⟨[], by simp, by simpa using hevents⟩
    · next hmessage =>
      rw [hmessage] at hevents
      refine ⟨[.itemGiven item], by simp [Happening.IsDelivery, Happening.kind], ?_⟩
      rw [tell_events]
      exact congrArg (· ++ _) hevents
  · next item economy _ =>
    refine ⟨[.itemOffered item (economy.offer item).1], ?_, ?_⟩
    · simp [Happening.IsDelivery, Happening.kind]
    · rw [tell_events]

/-- Side effects tell of items, up to the first that fails. -/
theorem performAll_events (effects : List Effect) (scene : Scene) :
    ∃ items, (∀ what ∈ items, what.IsDelivery) ∧
      (p.performAll effects scene).2.events = scene.events ++ p.news items := by
  induction effects generalizing scene with
  | nil => exact ⟨[], by simp, by simp [performAll]⟩
  | cons effect rest ih =>
    obtain ⟨first, hfirst, hevents⟩ := p.perform_events effect scene
    rw [performAll]
    split
    · -- the first side effect failed, and no other was tried
      next hperform =>
      rw [hperform] at hevents
      exact ⟨first, hfirst, hevents⟩
    · next next hperform =>
      rw [hperform] at hevents
      obtain ⟨more, hmore, hrest⟩ := ih next
      refine ⟨first ++ more, ?_, ?_⟩
      · intro what hwhat
        exact (List.mem_append.1 hwhat).elim (hfirst what) (hmore what)
      · rw [hrest, hevents, news_append, List.append_assoc]

/-- What the application of a turn does from a scene on, whether or not one of its items fails. -/
structure Applies (turn : Turn) (before : Environment) (events : List TalkEvent)
    (answer : Except Fault CommitResult) (after : Scene) : Prop where
  answer : answer ≠ .ok .refused
  /-- Quest state is what the staged writes make of it. -/
  env : after.env = (turn.stage.commit before).2.1
  /-- The writes are told of first, and then the items. -/
  events : ∃ written items, (∀ w, (turn.stage.commit before).1 = .ok w → written = w) ∧
    (∀ what ∈ items, what.IsDelivery) ∧
    after.events = events ++ p.news (told written) ++ p.news items

theorem apply_applies (turn : Turn) (scene : Scene) :
    p.Applies turn scene.env scene.events (p.apply turn scene).1 (p.apply turn scene).2.2 := by
  refine ⟨p.apply_ne_refused turn scene, ?_, ?_⟩
  · -- gifts and offers write nothing
    rw [apply]
    split
    · next hcommit => rw [hcommit]
    · next written env stage hcommit =>
      have henv := (p.performAll_env turn.effects _).trans
        (congrArg World.env (p.tellWrites_world written { scene with env }))
      rw [hcommit]
      dsimp only
      split
      · next hperform => rwa [hperform] at henv
      · next hperform => rwa [hperform] at henv
  · rw [apply]
    split
    · next hcommit => exact ⟨[], [], by simp [hcommit], by simp, by simp [told]⟩
    · next written env stage hcommit =>
      obtain ⟨items, hitems, hevents⟩ := p.performAll_events turn.effects
        (written.foldl (fun scene w => p.tell (.variableSet w.1 w.2) scene) { scene with env })
      rw [tellWrites_events] at hevents
      refine ⟨written, items, by simp [hcommit], hitems, ?_⟩
      dsimp only
      split
      · next hperform => rwa [hperform] at hevents
      · next hperform => rwa [hperform] at hevents

/-- How the commit of a turn ends, from a scene to a scene. -/
inductive Ends (turn : Turn) (before after : Scene) : Except Fault CommitResult → Prop
  /-- The price could not be asked for: nothing happens, and nothing is told. -/
  | failed (fault : Fault) (hprice : turn.spendTotal ≠ 0) (hkept : before.world.Kept after.world)
      (hevents : after.events = before.events) : Ends turn before after (.error fault)
  /-- The price was not paid: nothing happens, and that is told. -/
  | refused (hprice : turn.spendTotal ≠ 0) (hkept : before.world.Kept after.world)
      (hevents : after.events = before.events ++ p.news [.purchaseRefused turn.spendTotal]) :
      Ends turn before after (.ok .refused)
  /-- The price was paid, if there is one, which is told, and the turn was applied. -/
  | applied {answer : Except Fault CommitResult} (charged : Environment)
      (hpays : p.Pays turn.spendTotal before.world charged)
      (hmanifest : charged.manifest = before.env.manifest)
      (happlies : p.Applies turn charged (before.events ++ p.news turn.toll) answer after) :
      Ends turn before after answer

/-- Every commit ends in one of three ways. -/
theorem commit_ends (turn : Turn) (scene : Scene) :
    p.Ends turn scene (p.commit turn scene).2.2 (p.commit turn scene).1 := by
  rw [commit]
  by_cases htotal : turn.spendTotal = 0
  · -- a turn without a price is applied to quest state as it is
    rw [if_pos htotal]
    refine .applied scene.env ?_ rfl ?_
    · rw [Pays, if_pos htotal]
      rfl
    · rw [Turn.toll, if_pos htotal, news_nil, List.append_nil]
      exact p.apply_applies turn scene
  · rw [if_neg htotal]
    have hevents := p.charge_events turn.spendTotal scene
    rcases p.charge_cases htotal scene with
      ⟨charged, paid, hcharge, hpays, hmanifest, hworld⟩ | ⟨answer, paid, hcharge, hrefused, hkept⟩
    · simp only [hcharge] at hevents ⊢
      -- the payment is told of before the turn is applied to what it left
      have happlies := p.apply_applies turn (p.tell (.currencySpent turn.spendTotal) paid)
      have henv : (p.tell (.currencySpent turn.spendTotal) paid).env = charged :=
        congrArg World.env ((p.tell_world _ paid).trans hworld)
      rw [henv, tell_events, hevents] at happlies
      refine .applied charged hpays hmanifest ?_
      rw [Turn.toll, if_neg htotal]
      exact happlies
    · simp only [hcharge] at hevents ⊢
      cases answer with
      | error fault => exact .failed fault htotal hkept hevents
      | ok done =>
        cases done with
        | false =>
          refine .refused htotal ?_ ?_
          · rwa [tell_world]
          · rw [tell_events, hevents]
        | true => exact absurd rfl hrefused

/-- Whatever becomes of a commit, what was told before stays told. -/
theorem commit_events (turn : Turn) (scene : Scene) :
    ∃ events, (p.commit turn scene).2.2.events = scene.events ++ events := by
  have hends := p.commit_ends turn scene
  generalize (p.commit turn scene).1 = answer at hends
  cases hends with
  | failed _ _ _ hevents => exact ⟨[], by rw [hevents, List.append_nil]⟩
  | refused _ _ hevents => exact ⟨_, hevents⟩
  | applied _ _ _ happlies =>
    obtain ⟨written, items, -, -, hevents⟩ := happlies.events
    exact ⟨_, by rw [hevents, List.append_assoc, List.append_assoc]⟩

end Parties

/-! ## The economy -/

/-- All that a scene's economy met with on the way to another scene is requests. -/
def Scene.Requested (before after : Scene) : Prop :=
  ∃ requests, after.economy = before.economy.map fun e => e.after requests

namespace Scene

variable {a b c : Scene}

theorem requested_of_eq (h : b.economy = a.economy) : a.Requested b :=
  ⟨[], by simp [h]⟩

theorem Requested.trans (hab : a.Requested b) (hbc : b.Requested c) : a.Requested c := by
  obtain ⟨first, hfirst⟩ := hab
  obtain ⟨second, hsecond⟩ := hbc
  refine ⟨first ++ second, ?_⟩
  rw [hsecond, hfirst, Option.map_map]
  simp [Function.comp_def]

/-- A wallet stays a wallet with the same variable. -/
theorem Requested.wallet {w : Wallet} (h : a.Requested b) (ha : a.economy = some (.wallet w)) :
    ∃ left : Wallet, b.economy = some (.wallet left) ∧ left.variableKey = w.variableKey := by
  obtain ⟨requests, hrequests⟩ := h
  rw [ha] at hrequests
  exact ⟨_, hrequests, rfl⟩

end Scene

namespace Parties

variable (p : Parties)

theorem tell_requested (what : Happening) (scene : Scene) : scene.Requested (p.tell what scene) :=
  Scene.requested_of_eq (congrArg World.economy (p.tell_world what scene))

theorem charge_requested (total : Nat) (scene : Scene) :
    scene.Requested (p.charge total scene).2 := by
  unfold charge
  split
  · exact Scene.requested_of_eq rfl
  · next economy heconomy =>
    simp only [Economy.balance_snd]
    -- a payment is asked for only if the balance is known and is enough
    split
    · exact ⟨[.balance p.player], by simp [heconomy]⟩
    · exact ⟨[.balance p.player], by simp [heconomy]⟩
    · refine ⟨[.balance p.player, .spend p.player total], ?_⟩
      simp [heconomy]

theorem perform_requested (effect : Effect) (scene : Scene) :
    scene.Requested (p.perform effect scene).2 := by
  rw [perform.eq_def]
  split
  · exact Scene.requested_of_eq rfl
  · exact Scene.requested_of_eq rfl
  · exact Scene.requested_of_eq rfl
  · next item message economy heconomy =>
    have hsame : (scene.substitute p.lore message).2.economy = scene.economy := rfl
    split
    · next hmessage =>
      rw [hmessage] at hsame
      exact Scene.requested_of_eq hsame
    · next message _ hmessage =>
      refine Scene.Requested.trans ⟨[.give p.npc p.player item message], ?_⟩ (p.tell_requested _ _)
      simp [heconomy, Economy.give_eq]
  · next item economy heconomy =>
    refine Scene.Requested.trans ⟨[.offer item], ?_⟩ (p.tell_requested _ _)
    simp [heconomy]

theorem performAll_requested (effects : List Effect) (scene : Scene) :
    scene.Requested (p.performAll effects scene).2 := by
  induction effects generalizing scene with
  | nil => exact Scene.requested_of_eq rfl
  | cons effect rest ih =>
    have hfirst := p.perform_requested effect scene
    rw [performAll]
    split
    · next hperform => rwa [hperform] at hfirst
    · next hperform =>
      rw [hperform] at hfirst
      exact hfirst.trans (ih _)

theorem apply_requested (turn : Turn) (scene : Scene) :
    scene.Requested (p.apply turn scene).2.2 := by
  rw [apply]
  split
  · exact Scene.requested_of_eq rfl
  · next written env stage hcommit =>
    have hwritten : scene.Requested
        (written.foldl (fun scene w => p.tell (.variableSet w.1 w.2) scene) { scene with env }) :=
      Scene.requested_of_eq (congrArg World.economy (p.tellWrites_world written _))
    have hperformed := hwritten.trans (p.performAll_requested turn.effects _)
    dsimp only
    split
    · next hperform => rwa [hperform] at hperformed
    · next hperform => rwa [hperform] at hperformed

/-- Whatever becomes of a commit, the economy only took requests. -/
theorem commit_requested (turn : Turn) (scene : Scene) :
    scene.Requested (p.commit turn scene).2.2 := by
  have hcharge := p.charge_requested turn.spendTotal scene
  rw [commit]
  split
  · exact p.apply_requested turn scene
  · split
    · next hpaid => rwa [hpaid] at hcharge
    · next hpaid =>
      rw [hpaid] at hcharge
      exact hcharge.trans (p.tell_requested _ _)
    · next hpaid =>
      rw [hpaid] at hcharge
      exact (hcharge.trans (p.tell_requested _ _)).trans (p.apply_requested turn _)

end Parties

end Parley
