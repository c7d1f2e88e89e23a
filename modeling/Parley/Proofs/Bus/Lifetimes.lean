import Parley.Proofs.Bus.Walking

/-!
# Lifetimes of Handlers

An entry is dead for a walk if its handler has been dropped by its owner and nothing else keeps it:
no roster that a kind has, no delivery that waits, and not the walk itself. A dropped handler cannot
be named any more, so nothing comes to keep it again.

* `Walk.Gone`: nothing keeps a handler; `isDead_iff`: what it is for an entry to be dead;
* `Gone.visit`: a handler that is gone stays gone, whatever entry the walk meets.
-/

namespace Parley.Bus

variable {b : Bus} {s : Subscription} {entries : List Subscription} {handler : String}
  {kind : EventKind}

/-! ## What keeps a handler -/

/-- The handlers that a roster keeps are those of its strong subscriptions. -/
theorem mem_keeping :
    handler ∈ keeping entries ↔ ∃ s ∈ entries, s.weak = false ∧ s.handler = handler := by
  simp only [keeping, List.mem_map, List.mem_filter, Bool.not_eq_true', and_assoc]

/-- A smaller roster keeps no more handlers. -/
theorem notMem_keeping_of_subset {more : List Subscription} (h : handler ∉ keeping more)
    (hsub : entries ⊆ more) : handler ∉ keeping entries := by
  rw [mem_keeping] at h ⊢
  rintro ⟨s, hs, hstrong⟩
  exact h ⟨s, hsub hs, hstrong⟩

/-- Enlisting another handler keeps no more than that one. -/
theorem notMem_keeping_enlist (h : handler ∉ keeping entries) (hs : s.handler ≠ handler) :
    handler ∉ keeping (enlist s entries) := by
  rw [mem_keeping] at h ⊢
  rintro ⟨t, ht, hweak, hhandler⟩
  rcases mem_enlist.1 ht with rfl | ht
  · exact hs hhandler
  · exact h ⟨t, ht, hweak, hhandler⟩

/-- What has been dropped stays dropped. -/
theorem mem_dropped_act (b : Bus) (a : Action) (h : handler ∈ b.dropped) :
    handler ∈ (b.act a).dropped := by
  cases a with
  | subscribe kind handler priority mark weak =>
    rcases subscribe_cases b kind handler priority mark weak with
      ⟨n, -, hsubscribe⟩ | ⟨-, hsubscribe⟩ <;> rw [act, hsubscribe] <;> exact h
  | unsubscribe kind handler =>
    rw [act, unsubscribe]
    split <;> exact h
  | clear kind? => cases kind? <;> exact h
  | drop other => exact List.mem_cons_of_mem _ h
  | _ => exact h

/-- A roster that was made before does not come to keep a dropped handler. -/
theorem notMem_keeping_act {a : Action} {number : Nat} (hallowed : b.refusal? a = none)
    (hdropped : handler ∈ b.dropped) (hnumber : number < b.count kind)
    (h : handler ∉ keeping (b.rosters kind number)) :
    handler ∉ keeping ((b.act a).rosters kind number) := by
  rcases b.act_rosters a hnumber with ⟨hsame, -⟩ | ⟨s, -, -, henlist, hnamed⟩
  · rw [hsame]
    exact h
  · rw [henlist]
    exact notMem_keeping_enlist h fun heq => hnamed hallowed (heq ▸ hdropped)

/-- The roster of a kind does not come to keep a dropped handler. -/
theorem notMem_keeping_act_subscribers {a : Action} (hallowed : b.refusal? a = none)
    (hdropped : handler ∈ b.dropped) (h : handler ∉ keeping (b.subscribers kind)) :
    handler ∉ keeping ((b.act a).subscribers kind) := by
  rw [act_subscribers]
  cases a with
  | subscribe k other priority mark weak =>
    rw [Action.change]
    split
    · refine notMem_keeping_enlist h ?_
      rintro rfl
      rw [refusal?, if_pos (List.contains_iff_mem.2 hdropped)] at hallowed
      cases hallowed
    · exact h
  | unsubscribe k other =>
    rw [Action.change]
    split
    · exact notMem_keeping_of_subset h List.filter_sublist.subset
    · exact h
  | clear kind? =>
    cases kind? with
    | none => exact notMem_keeping_of_subset h (List.nil_subset _)
    | some k =>
      rw [Action.change]
      split
      · exact notMem_keeping_of_subset h (List.nil_subset _)
      · exact h
  | _ => exact h

namespace Walk

variable {reactions : Reactions} {w w' : Walk}

/-- Nothing keeps a handler during a walk. -/
structure Gone (w : Walk) (handler : String) : Prop where
  dropped : handler ∈ w.bus.dropped
  /-- No delivery that waits keeps it. -/
  held : ∀ h ∈ w.bus.held,
    h.calling ≠ some handler ∧ handler ∉ keeping (w.bus.rosters h.kind h.number)
  current : ∀ kind, handler ∉ keeping (w.bus.subscribers kind)
  /-- The walk has not called it last. -/
  calling : w.calling ≠ some handler
  walked : handler ∉ keeping w.entries

/-- A call in progress holds no handler but the one called and those of its roster. -/
theorem holds_eq_false_iff {h : Hold} : b.holds h handler = false ↔
    h.calling ≠ some handler ∧ handler ∉ keeping (b.rosters h.kind h.number) := by
  rw [holds, Bool.or_eq_false_iff, beq_eq_false_iff_ne, ← Bool.not_eq_true, List.contains_iff_mem]

/-- A handler is dead when it was dropped and neither a call in progress nor a roster holds it. -/
theorem lives_eq_false_iff : b.lives handler = false ↔ handler ∈ b.dropped ∧
    (∀ h ∈ b.held, b.holds h handler = false) ∧ ∀ kind, handler ∉ keeping (b.subscribers kind) := by
  rw [lives, Bool.or_eq_false_iff, Bool.or_eq_false_iff, Bool.not_eq_false', List.contains_iff_mem,
    List.any_eq_false, List.any_eq_false, and_assoc]
  simp only [Bool.not_eq_true, List.contains_iff_mem]
  refine and_congr_right fun _ => and_congr_right fun _ => ?_
  exact ⟨fun h kind => h kind (EventKind.mem_all kind), fun h kind _ => h kind⟩

theorem gone_iff :
    w.Gone handler ↔ w.bus.lives handler = false ∧ w.bus.holds w.hold handler = false := by
  rw [lives_eq_false_iff, holds_eq_false_iff]
  simp only [holds_eq_false_iff]
  constructor
  · intro h
    exact ⟨⟨h.dropped, h.held, h.current⟩, h.calling, h.walked⟩
  · rintro ⟨⟨hdropped, hheld, hcurrent⟩, hcalling, hwalked⟩
    exact ⟨hdropped, hheld, hcurrent, hcalling, hwalked⟩

/-- An entry is dead if it does not keep its handler and nothing else does. -/
theorem isDead_iff : w.isDead s = true ↔ s.weak = true ∧ w.Gone s.handler := by
  rw [isDead, Bool.and_eq_true, Bool.not_eq_true', Bool.or_eq_false_iff, gone_iff]

/-! ## Gone is gone -/

/-- No action that the bus allows brings a handler back. -/
theorem Gone.perform {a : Action} (h : w.Gone handler) (hw : w.Sound)
    (hallowed : w.bus.refusal? a = none) : (w.perform a).Gone handler where
  dropped := by
    rw [perform_bus]
    exact w.bus.mem_dropped_act a h.dropped
  held := by
    rw [perform_bus, held_act]
    intro hold hhold
    obtain ⟨hcalling, hroster⟩ := h.held hold hhold
    exact ⟨hcalling, notMem_keeping_act hallowed h.dropped (hw.bus.held hold hhold) hroster⟩
  current kind := by
    rw [perform_bus]
    exact notMem_keeping_act_subscribers hallowed h.dropped (h.current kind)
  calling := by
    have hcalling : (w.perform a).calling = w.calling := by cases a <;> rfl
    rw [hcalling]
    exact h.calling
  walked := by
    rw [perform_entries]
    exact notMem_keeping_act hallowed h.dropped hw.number h.walked

/-- Nor does a reaction of several actions. -/
theorem Gone.react (h : w.Gone handler) (hw : w.Sound) (s : Subscription) (actions : List Action) :
    (w.react s actions).Gone handler := by
  refine (react_induction (P := fun v => v.Sound ∧ v.Gone handler) ?_ ?_ ⟨hw, h⟩).2
  · rintro v a - hallowed ⟨hv, hgone⟩
    exact ⟨(hv.perform a).1, hgone.perform hv hallowed⟩
  · rintro v ⟨hv, hgone⟩
    exact ⟨(hv.congr (v := v.fail s) (hv.bus.record _) rfl rfl rfl rfl rfl hv.place).1,
      ⟨hgone.dropped, hgone.held, hgone.current, hgone.calling, hgone.walked⟩⟩

/-- An entry whose handler is gone is dead, if the roster is walked over that it stands in. -/
theorem Gone.isDead (h : w.Gone s.handler) (hs : s ∈ w.entries) : w.isDead s = true := by
  rw [isDead_iff]
  refine ⟨?_, h⟩
  by_contra hstrong
  exact h.walked (mem_keeping.2 ⟨s, hs, Bool.eq_false_iff.2 hstrong, rfl⟩)

/-- Nor does the visit of a subscription. -/
theorem Gone.visit (h : w.Gone handler) (hw : w.Sound) (hmeets : w.entries[w.place]? = some s)
    (reactions : Reactions) : (w.visit reactions s).Gone handler := by
  cases hdead : w.isDead s with
  | true =>
    rw [visit_of_dead hdead]
    exact ⟨h.dropped, h.held, h.current, nofun, h.walked⟩
  | false =>
    -- The handler that is called is another one, since this one is gone.
    have hother : s.handler ≠ handler := by
      rintro rfl
      rw [h.isDead (List.mem_of_getElem? hmeets)] at hdead
      cases hdead
    have hcalled : (w.answering s).Gone handler :=
      ⟨h.dropped, h.held, h.current, fun heq => hother (Option.some.inj heq), h.walked⟩
    have hreact := hcalled.react (hw.answering s).1 s (reactions (w.answering s).bus.journal)
    rw [visit_of_lives hdead]
    dsimp only
    split
    · exact ⟨hreact.dropped, hreact.held, hreact.current, hreact.calling, hreact.walked⟩
    · exact hreact

end Walk

end Parley.Bus
