import Mathlib.Data.List.Nodup
import Parley.Bus.Delivery

/-!
# Rosters

Subscriptions are told apart by their numbers. Whatever is done to a bus, its rosters stay numbered
(`Bus.Sound`): no number is given twice, and a number that is still to be given is on no roster.

* `enlist_split`: a subscription is put in between two parts of a roster that stay as they are;
* `Bus.act`: what an action does to a bus, be it the action of a handler or of anybody else;
* `Sound.act`: no action breaks the numbering;
* `act_leaves`: the actions that take a subscription from the bus.
-/

namespace Parley.Bus

variable {b b' : Bus} {s t : Subscription} {entries : List Subscription} {kind : EventKind}
  {number : Nat}

/-! ## Putting an entry in -/

/-- A subscription is put in between two parts of a roster. -/
theorem enlist_split (s : Subscription) (entries : List Subscription) :
    ∃ before after, entries = before ++ after ∧ enlist s entries = before ++ s :: after := by
  induction entries with
  | nil => exact ⟨[], [], rfl, rfl⟩
  | cons t rest ih =>
    unfold enlist
    split
    · exact ⟨[], t :: rest, rfl, rfl⟩
    · obtain ⟨before, after, hrest, henlist⟩ := ih
      exact ⟨t :: before, after, congrArg (t :: ·) hrest, congrArg (t :: ·) henlist⟩

theorem length_enlist (s : Subscription) (entries : List Subscription) :
    (enlist s entries).length = entries.length + 1 := by
  obtain ⟨before, after, rfl, henlist⟩ := enlist_split s entries
  simp only [henlist, List.length_append, List.length_cons]
  omega

/-- A part of a roster that leaves out the new entry is what it was. -/
theorem filter_enlist {p : Subscription → Bool} (h : p s = false) (entries : List Subscription) :
    (enlist s entries).filter p = entries.filter p := by
  obtain ⟨before, after, rfl, henlist⟩ := enlist_split s entries
  rw [henlist, List.filter_append, List.filter_cons_of_neg (by simp [h]), List.filter_append]

theorem nodup_map_enlist {α : Type} {f : Subscription → α} (hnew : f s ∉ entries.map f)
    (h : (entries.map f).Nodup) : ((enlist s entries).map f).Nodup := by
  obtain ⟨before, after, rfl, henlist⟩ := enlist_split s entries
  rw [henlist, List.map_append, List.map_cons, List.nodup_middle]
  rw [List.map_append] at h hnew
  exact List.nodup_cons.2 ⟨hnew, h⟩

/-! ## Numbered rosters -/

/-- The subscriptions on the rosters of a bus are numbered. -/
structure Sound (b : Bus) : Prop where
  /-- The next numbers are not in use. -/
  numbered : ∀ kind n, ∀ s ∈ b.rosters kind n, s.serial < b.made
  distinct : ∀ kind n, ((b.rosters kind n).map Subscription.serial).Nodup
  /-- A number stands for one subscription, to one kind, on however many rosters of that kind. -/
  unique : ∀ {kind kind' n n' s s'}, s ∈ b.rosters kind n → s' ∈ b.rosters kind' n' →
    s'.serial = s.serial → kind' = kind ∧ s' = s
  current : ∀ {kind n}, b.current kind = some n → n < b.count kind
  /-- What deliveries hold are rosters that were made. -/
  held : ∀ h ∈ b.held, h.number < b.count h.kind

theorem sound_empty : ({} : Bus).Sound where
  numbered := nofun
  distinct _ _ := List.nodup_nil
  unique := nofun
  current := nofun
  held := nofun

theorem Sound.nodup (h : b.Sound) (kind : EventKind) (n : Nat) : (b.rosters kind n).Nodup :=
  (h.distinct kind n).of_map _

/-- Rosters stay numbered as entries are left out or copied to other rosters of their kind. -/
theorem Sound.of_sublist (h : b.Sound)
    (hrosters : ∀ kind n, ∃ n', (b'.rosters kind n).Sublist (b.rosters kind n'))
    (hmade : b'.made = b.made)
    (hcurrent : ∀ kind n, b'.current kind = some n → n < b'.count kind)
    (hheld : ∀ h ∈ b'.held, h.number < b'.count h.kind) : b'.Sound where
  numbered kind n s hs := by
    obtain ⟨n', hsub⟩ := hrosters kind n
    exact hmade ▸ h.numbered kind n' s (hsub.subset hs)
  distinct kind n := by
    obtain ⟨n', hsub⟩ := hrosters kind n
    exact (h.distinct kind n').sublist (hsub.map _)
  unique {kind kind' n n' s s'} hs hs' := by
    obtain ⟨m, hsub⟩ := hrosters kind n
    obtain ⟨m', hsub'⟩ := hrosters kind' n'
    exact h.unique (hsub.subset hs) (hsub'.subset hs')
  current := hcurrent _ _
  held := hheld

/-- What changes neither rosters nor what is held does not matter. -/
theorem Sound.congr (h : b.Sound) (hrosters : b'.rosters = b.rosters) (hmade : b'.made = b.made)
    (hcount : b'.count = b.count) (hcurrent : b'.current = b.current) (hheld : b'.held ⊆ b.held) :
    b'.Sound := by
  refine h.of_sublist (fun kind n => ⟨n, hrosters ▸ .refl _⟩) hmade (fun kind n => ?_) ?_
  · rw [hcurrent, hcount]
    exact h.current
  · rw [hcount]
    exact fun hold hhold => h.held hold (hheld hhold)

theorem Sound.record (h : b.Sound) (e : Entry) : (b.record e).Sound :=
  h.congr rfl rfl rfl rfl (List.Subset.refl _)

theorem Sound.withEntries (h : b.Sound) (hsub : entries.Sublist (b.rosters kind number)) :
    (b.withEntries kind number entries).Sound := by
  refine h.of_sublist (fun k n => ⟨n, ?_⟩) rfl (fun k n => h.current) h.held
  rw [Bus.withEntries]
  dsimp only
  split
  · next heq =>
    obtain ⟨rfl, rfl⟩ := heq
    exact hsub
  · exact .refl _

theorem count_le_withRoster (b : Bus) (kind : EventKind) (entries : List Subscription)
    (k : EventKind) : b.count k ≤ (b.withRoster kind entries).count k := by
  simp only [withRoster]
  split
  · next h => exact h ▸ Nat.le_succ _
  · exact Nat.le_refl _

theorem current_lt_withRoster (h : b.Sound) (entries : List Subscription) {k : EventKind}
    (hcurrent : (b.withRoster kind entries).current k = some number) :
    number < (b.withRoster kind entries).count k := by
  simp only [withRoster] at hcurrent ⊢
  split at hcurrent
  · next heq =>
    cases hcurrent
    rw [if_pos heq]
    exact Nat.lt_succ_self _
  · next hne =>
    rw [if_neg hne]
    exact h.current hcurrent

/-- A new roster does not touch those that were made before. -/
theorem withRoster_rosters (b : Bus) (entries : List Subscription) {k : EventKind}
    (h : number < b.count k) : (b.withRoster kind entries).rosters k number = b.rosters k number := by
  simp only [withRoster, withEntries]
  rw [if_neg]
  rintro ⟨rfl, rfl⟩
  exact Nat.lt_irrefl _ h

theorem mem_subscribers : s ∈ b.subscribers kind ↔
    ∃ n, b.current kind = some n ∧ s ∈ b.rosters kind n := by
  rw [subscribers, roster]
  cases b.current kind <;> simp

/-- The entries of a kind are those of one of its rosters, or none. -/
theorem subscribers_sublist (b : Bus) (kind : EventKind) :
    ∃ n, (b.subscribers kind).Sublist (b.rosters kind n) := by
  rw [subscribers, roster]
  cases b.current kind with
  | none => exact ⟨0, List.nil_sublist _⟩
  | some n => exact ⟨n, .refl _⟩

theorem Sound.withRoster (h : b.Sound) (hsub : ∃ n, entries.Sublist (b.rosters kind n)) :
    (b.withRoster kind entries).Sound := by
  refine h.of_sublist (fun k n => ?_) rfl (fun k n => current_lt_withRoster h entries) ?_
  · simp only [Bus.withRoster, Bus.withEntries]
    split
    · next heq => exact heq.1 ▸ hsub
    · exact ⟨n, .refl _⟩
  · exact fun hold hhold => Nat.lt_of_lt_of_le (h.held hold hhold) (count_le_withRoster b _ _ _)

/-! ## Actions -/

/-- The effect of an action on a bus. -/
def act (b : Bus) : Action → Bus
  | .subscribe kind handler priority mark weak => b.subscribe kind handler priority mark weak
  | .unsubscribe kind handler => b.unsubscribe kind handler
  | .clear kind => b.clear kind
  | .drop handler => b.drop handler
  | .publish event => b.enqueue event
  | .consume => b
  | .fail => b

theorem perform_bus (w : Walk) (a : Action) : (w.perform a).bus = w.bus.act a := by
  cases a <;> rfl

/-- A subscription goes to the roster that its kind has, or to a new one. -/
theorem subscribe_cases (b : Bus) (kind : EventKind) (handler : String) (priority : Priority)
    (mark : Json) (weak : Bool) :
    (∃ n, b.current kind = some n ∧ b.subscribe kind handler priority mark weak =
        { b.withEntries kind n (enlist ⟨b.made, priority, handler, mark, weak⟩ (b.rosters kind n))
          with made := b.made + 1 }) ∨
      b.current kind = none ∧ b.subscribe kind handler priority mark weak =
        { b.withRoster kind [⟨b.made, priority, handler, mark, weak⟩] with made := b.made + 1 } := by
  cases hcurrent : b.current kind with
  | none =>
    refine .inr ⟨rfl, ?_⟩
    simp only [subscribe, subscribers, roster, hcurrent, Option.map_none, Option.getD_none, enlist]
    rfl
  | some n =>
    refine .inl ⟨n, rfl, ?_⟩
    simp only [subscribe, subscribers, roster, hcurrent, Option.map_some, Option.getD_some]
    rfl

/-- Rosters stay numbered as the next number is given to a new entry. -/
theorem Sound.of_enlist (h : b.Sound) (kind : EventKind) (hs : s.serial = b.made)
    (hrosters : ∀ k n, b'.rosters k n = b.rosters k n ∨
      k = kind ∧ ∃ entries, (∃ m, entries.Sublist (b.rosters kind m)) ∧
        b'.rosters k n = enlist s entries)
    (hmade : b'.made = b.made + 1)
    (hcurrent : ∀ k n, b'.current k = some n → n < b'.count k)
    (hheld : ∀ h ∈ b'.held, h.number < b'.count h.kind) : b'.Sound := by
  -- An entry is the new one, or it was on a roster of the same kind before.
  have hmem : ∀ {k n t}, t ∈ b'.rosters k n → (k = kind ∧ t = s) ∨ ∃ m, t ∈ b.rosters k m := by
    intro k n t ht
    rcases hrosters k n with hsame | ⟨rfl, entries, ⟨m, hsub⟩, henlist⟩
    · exact .inr ⟨n, hsame ▸ ht⟩
    · rw [henlist, mem_enlist] at ht
      exact ht.imp (⟨rfl, ·⟩) fun ht => ⟨m, hsub.subset ht⟩
  have hfresh : ∀ {k n t}, t ∈ b.rosters k n → t.serial ≠ s.serial := by
    intro k n t ht
    exact hs ▸ Nat.ne_of_lt (h.numbered k n t ht)
  refine ⟨?_, ?_, ?_, hcurrent _ _, hheld⟩
  · intro k n t ht
    rw [hmade]
    rcases hmem ht with ⟨-, rfl⟩ | ⟨m, ht⟩
    · exact hs ▸ Nat.lt_succ_self _
    · exact Nat.lt_succ_of_lt (h.numbered k m t ht)
  · intro k n
    rcases hrosters k n with hsame | ⟨rfl, entries, ⟨m, hsub⟩, henlist⟩
    · exact hsame ▸ h.distinct k n
    · rw [henlist]
      refine nodup_map_enlist ?_ ((h.distinct k m).sublist (hsub.map _))
      rw [List.mem_map]
      rintro ⟨t, ht, hserial⟩
      exact hfresh (hsub.subset ht) hserial
  · intro k k' n n' t t' ht ht' hserial
    rcases hmem ht with ⟨rfl, rfl⟩ | ⟨m, ht⟩ <;> rcases hmem ht' with ⟨rfl, rfl⟩ | ⟨m', ht'⟩
    · exact ⟨rfl, rfl⟩
    · exact absurd hserial (hfresh ht')
    · exact absurd hserial.symm (hfresh ht)
    · exact h.unique ht ht' hserial

theorem Sound.subscribe (h : b.Sound) (kind : EventKind) (handler : String) (priority : Priority)
    (mark : Json) (weak : Bool) : (b.subscribe kind handler priority mark weak).Sound := by
  have hserial : (⟨b.made, priority, handler, mark, weak⟩ : Subscription).serial = b.made := rfl
  have hcases := subscribe_cases b kind handler priority mark weak
  generalize (⟨b.made, priority, handler, mark, weak⟩ : Subscription) = new at hserial hcases
  rcases hcases with ⟨n, hcurrent, hsubscribe⟩ | ⟨hnone, hsubscribe⟩
  · rw [hsubscribe]
    refine h.of_enlist kind hserial (fun k m => ?_) rfl (fun k m => h.current) h.held
    simp only [Bus.withEntries]
    split
    · next heq =>
      obtain ⟨rfl, rfl⟩ := heq
      exact .inr ⟨rfl, _, ⟨m, .refl _⟩, rfl⟩
    · exact .inl rfl
  · rw [hsubscribe]
    refine h.of_enlist kind hserial (fun k m => ?_) rfl
      (fun k m => current_lt_withRoster h [new]) fun hold hhold =>
        Nat.lt_of_lt_of_le (h.held hold hhold) (count_le_withRoster b kind [new] _)
    simp only [Bus.withRoster, Bus.withEntries]
    split
    · next heq => exact .inr ⟨heq.1, [], ⟨0, List.nil_sublist _⟩, rfl⟩
    · exact .inl rfl

/-- No action breaks the numbering of the rosters. -/
theorem Sound.act (h : b.Sound) (a : Action) : (b.act a).Sound := by
  cases a with
  | subscribe kind handler priority mark weak => exact h.subscribe kind handler priority mark weak
  | unsubscribe kind handler =>
    rw [Bus.act, Bus.unsubscribe]
    cases hroster : b.roster kind with
    | none => exact h
    | some entries =>
      obtain ⟨n, hsub⟩ := b.subscribers_sublist kind
      rw [subscribers, hroster] at hsub
      exact h.withRoster ⟨n, List.filter_sublist.trans hsub⟩
  | clear kind? =>
    cases kind? with
    | none =>
      refine h.of_sublist (fun k n => ⟨n, .refl _⟩) rfl (fun k n hcurrent => ?_) h.held
      cases hcurrent
    | some kind =>
      refine h.of_sublist (fun k n => ⟨n, .refl _⟩) rfl (fun k n hcurrent => ?_) h.held
      simp only [Bus.act, Bus.clear] at hcurrent
      split at hcurrent
      · cases hcurrent
      · exact h.current hcurrent
  | drop handler => exact h.congr rfl rfl rfl rfl (List.Subset.refl _)
  | publish event => exact h.congr rfl rfl rfl rfl (List.Subset.refl _)
  | consume => exact h
  | fail => exact h

theorem count_le_act (b : Bus) (a : Action) (k : EventKind) : b.count k ≤ (b.act a).count k := by
  cases a with
  | subscribe kind handler priority mark weak =>
    rcases subscribe_cases b kind handler priority mark weak with
      ⟨n, -, hsubscribe⟩ | ⟨-, hsubscribe⟩ <;> rw [act, hsubscribe]
    · exact Nat.le_refl _
    · exact count_le_withRoster b kind [⟨b.made, priority, handler, mark, weak⟩] k
  | unsubscribe kind handler =>
    rw [act, unsubscribe]
    split
    · exact count_le_withRoster b kind _ k
    · exact Nat.le_refl _
  | clear kind? => cases kind? <;> exact Nat.le_refl _
  | _ => exact Nat.le_refl _

theorem made_le_act (b : Bus) (a : Action) : b.made ≤ (b.act a).made := by
  cases a with
  | subscribe kind handler priority mark weak =>
    rcases subscribe_cases b kind handler priority mark weak with
      ⟨n, -, hsubscribe⟩ | ⟨-, hsubscribe⟩ <;> rw [act, hsubscribe] <;> exact Nat.le_succ _
  | unsubscribe kind handler =>
    rw [act, unsubscribe]
    split <;> exact Nat.le_refl _
  | clear kind? => cases kind? <;> exact Nat.le_refl _
  | _ => exact Nat.le_refl _

/-- An action has no part in what deliveries hold. -/
theorem held_act (b : Bus) (a : Action) : (b.act a).held = b.held := by
  cases a with
  | subscribe kind handler priority mark weak =>
    rcases subscribe_cases b kind handler priority mark weak with
      ⟨n, -, hsubscribe⟩ | ⟨-, hsubscribe⟩ <;> rw [act, hsubscribe] <;> rfl
  | unsubscribe kind handler =>
    rw [act, unsubscribe]
    split <;> rfl
  | clear kind? => cases kind? <;> rfl
  | _ => rfl

/-- An action puts at most one entry into a roster that was made before, and this entry has the next
number and a handler that can be named. It takes none from it. -/
theorem act_rosters (b : Bus) (a : Action) (h : number < b.count kind) :
    ((b.act a).rosters kind number = b.rosters kind number ∧ b.made ≤ (b.act a).made) ∨
      ∃ s, s.serial = b.made ∧ (b.act a).made = b.made + 1 ∧
        (b.act a).rosters kind number = enlist s (b.rosters kind number) ∧
        (b.refusal? a = none → s.handler ∉ b.dropped) := by
  cases a with
  | subscribe kind' handler priority mark weak =>
    have hnamed : b.refusal? (.subscribe kind' handler priority mark weak) = none →
        handler ∉ b.dropped := by
      intro hallowed hdropped
      rw [refusal?, if_pos (List.contains_iff_mem.2 hdropped)] at hallowed
      cases hallowed
    rcases subscribe_cases b kind' handler priority mark weak with
      ⟨n, -, hsubscribe⟩ | ⟨-, hsubscribe⟩ <;> rw [act, hsubscribe]
    · by_cases heq : kind = kind' ∧ number = n
      · obtain ⟨rfl, rfl⟩ := heq
        exact .inr ⟨⟨b.made, priority, handler, mark, weak⟩, rfl, rfl, by simp [withEntries], hnamed⟩
      · exact .inl ⟨by simp [withEntries, heq], Nat.le_succ _⟩
    · exact .inl ⟨withRoster_rosters b _ h, Nat.le_succ _⟩
  | unsubscribe kind' handler =>
    rw [act, unsubscribe]
    split
    · exact .inl ⟨withRoster_rosters b _ h, Nat.le_refl _⟩
    · exact .inl ⟨rfl, Nat.le_refl _⟩
  | clear kind? => cases kind? <;> exact .inl ⟨rfl, Nat.le_refl _⟩
  | _ => exact .inl ⟨rfl, Nat.le_refl _⟩

/-! ## Coming and going -/

/-- What an action makes of the entries of a kind, if the next subscription has a given number. -/
def Action.change (made : Nat) (kind : EventKind) (entries : List Subscription) :
    Action → List Subscription
  | .subscribe k handler priority mark weak =>
    if k = kind then enlist ⟨made, priority, handler, mark, weak⟩ entries else entries
  | .unsubscribe k handler => if k = kind then entries.filter (·.handler ≠ handler) else entries
  | .clear none => []
  | .clear (some k) => if k = kind then [] else entries
  | _ => entries

theorem act_subscribers (b : Bus) (a : Action) (kind : EventKind) :
    (b.act a).subscribers kind = a.change b.made kind (b.subscribers kind) := by
  cases a with
  | subscribe k handler priority mark weak =>
    rw [act, Action.change]
    split
    · next heq => rw [← heq, subscribers, subscribe_roster_self, Option.getD_some]
    · next hne =>
      have hkind : kind ≠ k := Ne.symm hne
      rw [subscribers]
      rcases subscribe_cases b k handler priority mark weak with
        ⟨n, -, hsubscribe⟩ | ⟨-, hsubscribe⟩ <;> rw [hsubscribe]
      · exact congrArg (Option.getD · []) (withEntries_roster_of_ne b n _ hkind)
      · exact congrArg (Option.getD · []) (withRoster_roster_of_ne b [_] hkind)
  | unsubscribe k handler =>
    rw [act, unsubscribe, Action.change]
    by_cases hkind : k = kind
    · subst hkind
      rw [if_pos rfl]
      cases hroster : b.roster k with
      | none => rw [subscribers, hroster]; rfl
      | some entries => rw [subscribers, subscribers, withRoster_roster_self, hroster]; rfl
    · rw [if_neg hkind]
      cases b.roster k with
      | none => rfl
      | some entries =>
        exact congrArg (Option.getD · []) (withRoster_roster_of_ne b _ (Ne.symm hkind))
  | clear kind? =>
    cases kind? with
    | none => rfl
    | some k =>
      by_cases hkind : k = kind
      · simp [act, clear, subscribers, roster, Action.change, hkind]
      · simp [act, clear, subscribers, roster, Action.change, hkind, Ne.symm hkind]
  | _ => rfl

/-- An action that takes a subscription from a kind: it takes its handler, or clears the kind. -/
def Action.Removes (kind : EventKind) (s : Subscription) : Action → Prop
  | .unsubscribe k handler => k = kind ∧ handler = s.handler
  | .clear none => True
  | .clear (some k) => k = kind
  | _ => False

/-- A subscription leaves the bus only by an action that removes it. -/
theorem act_leaves {a : Action} (h : s ∈ b.subscribers kind)
    (hgone : s ∉ (b.act a).subscribers kind) : a.Removes kind s := by
  rw [act_subscribers] at hgone
  by_contra hnot
  refine hgone ?_
  cases a with
  | subscribe k handler priority mark weak =>
    rw [Action.change]
    split
    · exact mem_enlist.2 (.inr h)
    · exact h
  | unsubscribe k handler =>
    rw [Action.change]
    split
    · next heq => exact List.mem_filter.2 ⟨h, by simpa using fun hs => hnot ⟨heq, hs.symm⟩⟩
    · exact h
  | clear kind? =>
    cases kind? with
    | none => exact absurd trivial hnot
    | some k =>
      have hkind : ¬ k = kind := hnot
      rw [Action.change, if_neg hkind]
      exact h
  | _ => exact h

/-- A subscription comes to the bus only with the next number. -/
theorem act_enters {a : Action} (h : s ∈ (b.act a).subscribers kind) :
    s ∈ b.subscribers kind ∨ s.serial = b.made := by
  rw [act_subscribers] at h
  cases a with
  | subscribe k handler priority mark weak =>
    rw [Action.change] at h
    split at h
    · rcases mem_enlist.1 h with rfl | h
      · exact .inr rfl
      · exact .inl h
    · exact .inl h
  | unsubscribe k handler =>
    rw [Action.change] at h
    split at h
    · exact .inl (List.mem_filter.1 h).1
    · exact .inl h
  | clear kind? =>
    cases kind? with
    | none => cases h
    | some k =>
      rw [Action.change] at h
      split at h
      · cases h
      · exact .inl h
  | _ => exact .inl h

end Parley.Bus
