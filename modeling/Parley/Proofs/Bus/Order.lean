import Mathlib.Data.List.Pairwise
import Parley.Proofs.Bus.Registry

/-!
# The Order of Rosters

A subscription is put in by a search from the front, and taken out by its handler, with the whole
roster, or by a place that a delivery has noted. Whoever does this and whenever, also in the middle of
a delivery, the rosters stay in order.

* `Subscription.Precedes`: an entry may stand ahead of another one; for integer priorities this is the
  order by priority and then by time (`precedes_ofInt_iff`);
* `pairwise_enlist`: a new entry finds its place between the others;
* `Ordered.act`: no action puts a roster out of order;
* `ordered_of_reached`: all rosters of a bus that has begun empty are in order at every moment.
-/

namespace Parley.Bus

open Relation Walk

variable {reactions : Reactions} {b b' : Bus} {w : Walk} {s t u : Subscription}
  {entries : List Subscription} {m m' : Moment} {actions : List Action}

/-! ## One entry ahead of another -/

/-- An entry may stand ahead of another one. -/
structure Subscription.Precedes (s t : Subscription) : Prop where
  /-- The priority of the first is not below the one of the second. -/
  priority : s.priority.rank.isBelow t.priority.rank = false
  /-- Of two entries with one priority, the first has subscribed earlier. -/
  earlier : s.priority.rank = t.priority.rank → s.serial < t.serial

@[simp]
theorem Rank.isBelow_self (a : Rank) : a.isBelow a = false := by
  cases a with
  | number size => exact Json.Size.isBelow_self size
  | text chars => exact decide_eq_false (String.lt_irrefl chars)
  | unordered => rfl

/-- Entries with integer priorities stand by decreasing priority, and those of one priority in the
order in which they have subscribed. -/
theorem precedes_ofInt_iff {p q : Int} (hs : s.priority = .ofInt p) (ht : t.priority = .ofInt q) :
    s.Precedes t ↔ q < p ∨ q = p ∧ s.serial < t.serial := by
  have hrank : s.priority.rank = t.priority.rank ↔ q = p := by
    rw [hs, ht]
    simp [Priority.rank, Priority.ofInt, Rank.ofJson, Json.size?, eq_comm]
  have hbelow : s.priority.rank.isBelow t.priority.rank = false ↔ q ≤ p := by
    rw [hs, ht, Priority.isBelow_ofInt, decide_eq_false_iff_not, Int.not_lt]
  constructor
  · rintro ⟨hpriority, hearlier⟩
    rcases Int.lt_or_eq_of_le (hbelow.1 hpriority) with hlt | heq
    · exact .inl hlt
    · exact .inr ⟨heq, hearlier (hrank.2 heq)⟩
  · rintro (hlt | ⟨rfl, hserial⟩)
    · exact ⟨hbelow.2 (Int.le_of_lt hlt), fun heq => absurd (hrank.1 heq) (Int.ne_of_lt hlt)⟩
    · exact ⟨hbelow.2 (Int.le_refl _), fun _ => hserial⟩

/-- An entry goes ahead of one with a lower priority. -/
theorem precedes_of_isBelow (h : t.priority.rank.isBelow s.priority.rank = true) :
    s.Precedes t where
  priority := by
    by_contra hbelow
    rw [Bool.not_eq_false] at hbelow
    cases (Rank.isBelow_self _).symm.trans (Rank.isBelow_trans h hbelow)
  earlier heq := by
    rw [heq] at h
    cases (Rank.isBelow_self _).symm.trans h

/-- An entry goes ahead of all that come after one with a lower priority. -/
theorem Subscription.Precedes.of_isBelow (h : t.Precedes u)
    (hbelow : t.priority.rank.isBelow s.priority.rank = true) : s.Precedes u where
  priority := by
    by_contra hs
    rw [Bool.not_eq_false] at hs
    cases h.priority.symm.trans (Rank.isBelow_trans hbelow hs)
  earlier heq := by
    rw [heq] at hbelow
    cases h.priority.symm.trans hbelow

/-- A new entry finds its place in a roster that is in order: behind all entries of its priority or a
higher one. -/
theorem pairwise_enlist (h : entries.Pairwise Subscription.Precedes)
    (hnew : ∀ t ∈ entries, t.serial < s.serial) :
    (enlist s entries).Pairwise Subscription.Precedes := by
  induction entries with
  | nil => exact List.pairwise_singleton _ _
  | cons t rest ih =>
    obtain ⟨hfirst, hrest⟩ := List.pairwise_cons.1 h
    obtain ⟨ht, hnew⟩ := List.forall_mem_cons.1 hnew
    unfold enlist
    split
    · next hbelow =>
      -- The search stops at the first lower priority, and no later one is higher than that.
      refine List.pairwise_cons.2 ⟨?_, h⟩
      exact List.forall_mem_cons.2
        ⟨precedes_of_isBelow hbelow, fun u hu => (hfirst u hu).of_isBelow hbelow⟩
    · next hgoes =>
      refine List.pairwise_cons.2 ⟨fun u hu => ?_, ih hrest hnew⟩
      rcases mem_enlist.1 hu with rfl | hu
      · exact ⟨Bool.eq_false_iff.2 hgoes, fun _ => ht⟩
      · exact hfirst u hu

/-! ## Rosters in order -/

/-- All rosters of a bus are in order, those included that a kind had before. -/
def Ordered (b : Bus) : Prop :=
  ∀ kind n, (b.rosters kind n).Pairwise Subscription.Precedes

theorem ordered_empty : ({} : Bus).Ordered :=
  fun _ _ => List.Pairwise.nil

/-- Rosters stay in order as entries are left out or copied to other rosters of their kind. -/
theorem Ordered.of_sublist (h : b.Ordered)
    (hrosters : ∀ kind n, ∃ n', (b'.rosters kind n).Sublist (b.rosters kind n')) : b'.Ordered := by
  intro kind n
  obtain ⟨n', hsub⟩ := hrosters kind n
  exact (h kind n').sublist hsub

theorem Ordered.record (h : b.Ordered) (x : Entry) : (b.record x).Ordered :=
  h.of_sublist fun _ n => ⟨n, .refl _⟩

theorem Ordered.subscribers (h : b.Ordered) (kind : EventKind) :
    (b.subscribers kind).Pairwise Subscription.Precedes := by
  obtain ⟨n, hsub⟩ := b.subscribers_sublist kind
  exact (h kind n).sublist hsub

theorem Ordered.subscribe (h : b.Ordered) (hsound : b.Sound) (kind : EventKind) (handler : String)
    (priority : Priority) (mark : Json) (weak : Bool) :
    (b.subscribe kind handler priority mark weak).Ordered := by
  intro k n
  rcases subscribe_cases b kind handler priority mark weak with
    ⟨number, -, hsubscribe⟩ | ⟨-, hsubscribe⟩ <;> rw [hsubscribe]
  · -- The roster that the kind has gets the entry, whose number is the next one.
    simp only [withEntries]
    split
    · exact pairwise_enlist (h kind number) (hsound.numbered kind number)
    · exact h k n
  · simp only [withRoster, withEntries]
    split
    · exact List.pairwise_singleton _ _
    · exact h k n

/-- No action puts a roster out of order. -/
theorem Ordered.act (h : b.Ordered) (hsound : b.Sound) (a : Action) : (b.act a).Ordered := by
  cases a with
  | subscribe kind handler priority mark weak =>
    exact h.subscribe hsound kind handler priority mark weak
  | unsubscribe kind handler =>
    rw [Bus.act, Bus.unsubscribe]
    split
    · next entries hroster =>
      obtain ⟨number, hsub⟩ := b.subscribers_sublist kind
      rw [Bus.subscribers, hroster] at hsub
      refine h.of_sublist fun k n => ?_
      simp only [withRoster, withEntries]
      split
      · next heq => exact heq.1 ▸ ⟨number, List.filter_sublist.trans hsub⟩
      · exact ⟨n, .refl _⟩
    · exact h
  | clear kind? => cases kind? <;> exact h.of_sublist fun _ n => ⟨n, .refl _⟩
  | _ => exact h.of_sublist fun _ n => ⟨n, .refl _⟩

/-- At no point of a call are the rosters out of order. -/
theorem Ordered.react (h : w.bus.Ordered) (hw : w.Sound) (s : Subscription) (actions : List Action) :
    (w.react s actions).bus.Ordered := by
  refine (react_induction (P := fun v => v.bus.Sound ∧ v.bus.Ordered) ?_ ?_ ⟨hw.bus, h⟩).2
  · rintro v a - - ⟨hsound, hordered⟩
    rw [perform_bus]
    exact ⟨hsound.act a, hordered.act hsound a⟩
  · rintro v ⟨hsound, hordered⟩
    exact ⟨hsound.record _, hordered.record _⟩

/-- At an entry, the handler does not put a roster out of order. -/
theorem Ordered.visit (h : w.bus.Ordered) (hw : w.Sound) (reactions : Reactions)
    (s : Subscription) : (w.visit reactions s).bus.Ordered := by
  cases hdead : w.isDead s with
  | true =>
    rw [visit_of_dead hdead]
    exact h
  | false =>
    have hcall := Ordered.react (w := w.answering s) (h.record _) (hw.answering s).1 s
      (reactions (w.answering s).bus.journal)
    rw [visit_of_lives hdead]
    dsimp only
    split <;> exact hcall

/-- Nor does the end of a walk: places are vacated, and the others keep their order. -/
theorem Ordered.finish (h : w.bus.Ordered) : w.finish.Ordered := by
  intro k n
  simp only [Walk.finish, withEntries]
  split
  · exact (h _ _).sublist (foldl_eraseIdx_sublist _ _)
  · exact h k n

theorem Delivers.ordered (h : Delivers reactions m m') (hm : m.Sound) (hordered : m.bus.Ordered) :
    m'.bus.Ordered := by
  cases h with
  | pass _ _ => exact hordered
  | begin _ _ _ => exact hordered
  | next hnext =>
    obtain ⟨-, -⟩ := hnext
    exact hordered.visit hm reactions _
  | ends hends =>
    cases hends with
    | exhausted _ => exact hordered
    | stopped _ _ => exact hordered.visit hm reactions _
  | finish => exact hordered.finish

/-- One step leaves the rosters in order. -/
theorem Step.ordered (h : Step m actions m') (hm : m.Sound) (hordered : m.bus.Ordered) :
    m'.bus.Ordered := by
  cases h with
  | @act b a _ _ =>
    have hidle : b.release.Sound :=
      hm.congr rfl rfl rfl rfl (List.nil_subset _)
    exact Ordered.act (b := b.release) hordered hidle a
  | deliver h => exact h.ordered hm hordered

/-! ## Numbers in the order of time -/

theorem Moment.Sound.bus (h : m.Sound) : m.bus.Sound := by
  cases m with
  | resting b => exact h
  | walking w spent => exact Walk.Sound.bus h
  | ending w spent => exact Walk.Sound.bus h

/-- What a step adds to the entries of a kind has a number that was still to be given. -/
theorem Step.enters (h : Step m actions m') (hm : m.Sound) (kind : EventKind) :
    m.bus.made ≤ m'.bus.made ∧
      ∀ s ∈ m'.bus.subscribers kind, s ∈ m.bus.subscribers kind ∨ m.bus.made ≤ s.serial := by
  cases h with
  | @act b a _ _ =>
    refine ⟨made_le_act b.release a, fun s hs => ?_⟩
    exact (act_enters (b := b.release) hs).imp_right fun heq => Nat.le_of_eq heq.symm
  | deliver h =>
    cases h with
    | pass _ _ => exact ⟨Nat.le_refl _, fun s hs => .inl hs⟩
    | begin _ _ _ => exact ⟨Nat.le_refl _, fun s hs => .inl hs⟩
    | next hnext =>
      obtain ⟨hmeets, -⟩ := hnext
      exact ⟨(hm.visit _ _).2.made, fun s hs => visit_enters hmeets _ hs⟩
    | ends hends =>
      cases hends with
      | exhausted _ => exact ⟨Nat.le_refl _, fun s hs => .inl hs⟩
      | stopped hmeets _ => exact ⟨(hm.visit _ _).2.made, fun s hs => visit_enters hmeets _ hs⟩
    | @finish w _ =>
      refine ⟨Nat.le_refl _, fun s hs => .inl ?_⟩
      rw [Moment.bus, finish_subscribers] at hs
      split at hs
      · next heq =>
        obtain ⟨rfl, hcurrent⟩ := heq
        exact mem_subscribers.2 ⟨_, hcurrent, (foldl_eraseIdx_sublist _ _).subset hs⟩
      · exact hs

/-- What is on a roster later, and was not on it before, has come with a later number. -/
theorem enters_of_proceeds (hreached : Reached m) (h : ReflTransGen Proceeds m m')
    (kind : EventKind) : m.bus.made ≤ m'.bus.made ∧
      ∀ s ∈ m'.bus.subscribers kind, s ∈ m.bus.subscribers kind ∨ m.bus.made ≤ s.serial := by
  induction h with
  | refl => exact ⟨Nat.le_refl _, fun s hs => .inl hs⟩
  | tail hproceeds hstep ih =>
    obtain ⟨hmade, hentries⟩ := ih
    obtain ⟨actions, hstep⟩ := hstep
    obtain ⟨hmade', hentries'⟩ :=
      hstep.enters (sound_of_reached (hreached.trans hproceeds)) kind
    refine ⟨Nat.le_trans hmade hmade', fun s hs => ?_⟩
    rcases hentries' s hs with hs | hserial
    · exact hentries s hs
    · exact .inr (Nat.le_trans hmade hserial)

theorem ordered_of_steps (h : Reached m) : m.bus.Ordered := by
  induction h with
  | refl => exact ordered_empty
  | tail hreached hproceeds ih =>
    obtain ⟨actions, hstep⟩ := hproceeds
    exact hstep.ordered (sound_of_reached hreached) ih

/-! ## Every moment -/

/-- Handlers stand in the order of their priorities. At every moment of a bus, whatever is done to it
by anybody and by the handlers that it calls, the entries of each kind are in order: none of them has
a priority below that of a later one, and those of one priority have increasing numbers. The numbers
tell the order of time, as an entry that is not yet on the roster of its kind comes with a greater
number than all that are. The rosters that deliveries still walk over are in order too, and so are all
rosters in the middle of a call, whatever the handler has done so far, and when a publication
returns or ends for want of room. -/
theorem ordered_of_reached (hreached : Reached m) :
    (∀ kind, (m.bus.subscribers kind).Pairwise Subscription.Precedes) ∧
      (∀ kind n, (m.bus.rosters kind n).Pairwise Subscription.Precedes) ∧
      (∀ m' kind s t, ReflTransGen Proceeds m m' → s ∈ m.bus.subscribers kind →
        t ∈ m'.bus.subscribers kind → t ∉ m.bus.subscribers kind → s.serial < t.serial) ∧
      (∀ w spent s actions kind, m = .walking w spent → w.next? = some s →
        (((w.answering s).react s actions).bus.subscribers kind).Pairwise Subscription.Precedes) ∧
      ∀ b, m = .resting b → b.queue = [] → ∀ reactions fuel room e,
        (∀ e' b', publish reactions fuel room b.release e = some (.ok (e', b')) →
          ∀ kind, (b'.subscribers kind).Pairwise Subscription.Precedes) ∧
        ∀ b', publish reactions fuel room b.release e = some (.error ⟨b'⟩) →
          ∀ kind, (b'.subscribers kind).Pairwise Subscription.Precedes := by
  have hordered := ordered_of_steps hreached
  refine ⟨hordered.subscribers, hordered, fun m' kind s t hproceeds hs ht hnew => ?_, ?_, ?_⟩
  · obtain ⟨n, -, hs⟩ := mem_subscribers.1 hs
    obtain ⟨-, hentries⟩ := enters_of_proceeds hreached hproceeds kind
    exact Nat.lt_of_lt_of_le ((sound_of_reached hreached).bus.numbered kind n s hs)
      ((hentries t ht).resolve_left hnew)
  · rintro w spent s actions kind rfl -
    have hw : w.Sound := sound_of_reached hreached
    have hcall : (w.answering s).bus.Ordered := hordered.record _
    exact (hcall.react (hw.answering s).1 s actions).subscribers kind
  · rintro b rfl hidle reactions fuel room e
    refine ⟨fun e' b' hpublish kind => ?_, fun b' hpublish kind => ?_⟩
    · obtain ⟨b₂, hreached', -, rfl⟩ := reached_of_publish hreached hidle hpublish
      exact (ordered_of_steps hreached').subscribers kind
    · -- What still waits in the queue has no part in the rosters.
      obtain ⟨b₂, next, hreached', -, hb'⟩ := reached_of_overrun hreached hidle hpublish
      rw [hb']
      exact (ordered_of_steps hreached').subscribers kind

/-- The only subscriber of a new bus, with the priority that is usual. -/
def host : Subscription :=
  ⟨0, .ofInt 0, "host", .bool false, false⟩

/-- The bus with its event, which is to be delivered next. -/
def hosted : Bus :=
  (({} : Bus).act (.subscribe .sessionStarted host.handler host.priority host.mark host.weak)).act
    (.publish { kind := .sessionStarted })

/-- The walk that is about to deliver it. -/
def welcoming : Walk :=
  start (({ hosted with queue := [] } : Bus).record (.began { kind := .sessionStarted }))
    { kind := .sessionStarted } 0

/-- In its call, the host lets others in, with priorities below, above and equal to its own, and then
the first of them leaves. -/
def admitting : List Action :=
  [.subscribe .sessionStarted "waiter" (.ofInt (-1)) (.bool false) false,
    .subscribe .sessionStarted "guest" (.ofInt 0) (.bool false) false,
    .subscribe .sessionStarted "singer" (.ofInt 5) (.bool false) false,
    .subscribe .sessionStarted "dancer" (.ofInt 5) (.bool false) false,
    .subscribe .sessionStarted "cook" (.ofInt (-1)) (.bool false) false,
    .unsubscribe .sessionStarted "waiter"]

theorem ordered_of_reached_of_host : Reached (.walking welcoming []) ∧
    welcoming.next? = some host ∧
    (((welcoming.answering host).react host admitting).bus.subscribers .sessionStarted).map
      (·.handler) = ["singer", "dancer", "host", "guest", "cook"] ∧
    (((welcoming.answering host).react host admitting).bus.subscribers .sessionStarted).Pairwise
      Subscription.Precedes := by
  have hsubscribe : Proceeds (.resting {}) (.resting (({} : Bus).act (.subscribe .sessionStarted
      host.handler host.priority host.mark host.weak))) := ⟨_, .act rfl rfl⟩
  have hpublish : Proceeds (.resting (({} : Bus).act (.subscribe .sessionStarted
      host.handler host.priority host.mark host.weak))) (.resting hosted) := ⟨_, .act rfl rfl⟩
  have hbegin : Delivers (fun _ => admitting) (.resting hosted) (.walking welcoming []) :=
    .begin rfl rfl (by decide)
  have hreached : Reached (.walking welcoming []) :=
    ((ReflTransGen.single hsubscribe).tail hpublish).tail ⟨_, .deliver hbegin⟩
  obtain ⟨-, -, -, hcall, -⟩ := ordered_of_reached hreached
  exact ⟨hreached, rfl, by decide, hcall welcoming [] host admitting .sessionStarted rfl rfl⟩

end Parley.Bus
