import Parley.Bus.Priority
import Parley.Talk.Event

/-!
# The event bus

Handlers subscribe to kinds of events. A bus keeps a roster for each kind, the handlers of higher
priority first and those of one priority in the order in which they subscribed, and a journal of
what it did.

The rosters of a kind are numbered. A subscription changes the roster that the kind has; a handler is
taken from a kind by giving it a new roster. Rosters that a kind had before stay known, because a
delivery that has begun goes on with the roster that it began with.

A subscription holds its handler strongly or weakly. A handler that its owner has dropped lives on
only while something holds it strongly; an entry whose handler is gone is dead.
-/

namespace Parley

namespace Bus

/-- An event with its data. -/
structure Event where
  kind : EventKind
  data : List (String × Json) := []
  /-- Whether a handler has put an end to the event. -/
  consumed : Bool := false
  deriving Inhabited

namespace Event

/-- A datum of an event. -/
def item? (e : Event) (key : String) : Option Json :=
  e.data.lookup key

/-- A datum of an event, or another value in its place. -/
def get (e : Event) (key : String) (default : Json := .null) : Json :=
  (e.item? key).getD default

/-- The names of what an event is published with beside its data; data cannot have them. -/
def reservedNames : List String := ["self", "event_type"]

/-- Whether an event can be published with its data. -/
def isPublishable (e : Event) : Bool :=
  e.data.all fun d => !reservedNames.contains d.1

end Event

/-- An entry of a roster. Subscriptions are numbered in the order in which they are made. -/
structure Subscription where
  /-- The number of the subscription. -/
  serial : Nat
  /-- Higher priorities are called first. -/
  priority : Priority
  handler : String
  /-- The mark that counts as true if the entry ends with its first call. -/
  mark : Json
  /-- Whether the entry does not keep its handler alive. -/
  weak : Bool
  deriving DecidableEq, Inhabited

/-- Whether an entry ends with its first call. -/
def Subscription.oneShot (s : Subscription) : Bool :=
  s.mark.isTruthy

/-- What a bus did. -/
inductive Entry
  | published (event : Event)
  | began (event : Event)
  | called (subscriber : Subscription) (event : Event)
  | failed (subscriber : Subscription) (event : Event)
  deriving Inhabited

/-- An entry put into a roster: behind all entries of its priority or a higher one. -/
def enlist (s : Subscription) : List Subscription → List Subscription
  | [] => [s]
  | t :: rest => if t.priority.rank.isBelow s.priority.rank then s :: t :: rest else t :: enlist s rest

/-- Whether an entry of some priority has a place in a roster. It is compared with the entries in turn,
up to the first of a lower priority, and has no place if it cannot be compared with one of them. -/
def hasPlace (p : Priority) : List Subscription → Bool
  | [] => true
  | t :: rest =>
    t.priority.rank.isComparable p.rank && (t.priority.rank.isBelow p.rank || hasPlace p rest)

/-- What a delivery holds. -/
structure Hold where
  kind : EventKind
  /-- The number of the roster that is walked over. -/
  number : Nat
  /-- The handler that was called last, unless a dead entry came after it. -/
  calling : Option String := none
  deriving DecidableEq, Inhabited

end Bus

/-- An event bus. -/
structure Bus where
  /-- The rosters that a kind has or had, by number. -/
  rosters : EventKind → Nat → List Bus.Subscription := fun _ _ => []
  count : EventKind → Nat := fun _ => 0
  /-- The number of the roster that a kind has. A roster that was made stays, even if it is empty,
  until it is replaced or cleared. -/
  current : EventKind → Option Nat := fun _ => none
  /-- Events that wait for their delivery, the next one first. -/
  queue : List Bus.Event := []
  made : Nat := 0
  /-- The handlers whose owners have dropped them. -/
  dropped : List String := []
  /-- What the deliveries hold that have walked over their rosters and wait for others to end. -/
  held : List Bus.Hold := []
  /-- What the bus did, the latest first. -/
  journal : List Bus.Entry := []
  deriving Inhabited

namespace Bus

/-- The roster of a kind, if it has one. -/
def roster (b : Bus) (kind : EventKind) : Option (List Subscription) :=
  (b.current kind).map (b.rosters kind)

/-- The entries of a kind. -/
def subscribers (b : Bus) (kind : EventKind) : List Subscription :=
  (b.roster kind).getD []

/-- A bus with other entries in a roster of a kind. -/
def withEntries (b : Bus) (kind : EventKind) (number : Nat) (entries : List Subscription) : Bus :=
  { b with rosters := fun k n => if k = kind ∧ n = number then entries else b.rosters k n }

/-- A bus with a new roster for a kind. -/
def withRoster (b : Bus) (kind : EventKind) (entries : List Subscription) : Bus :=
  { b.withEntries kind (b.count kind) entries with
    count := fun k => if k = kind then b.count kind + 1 else b.count k
    current := fun k => if k = kind then some (b.count kind) else b.current k }

/-- A bus with one more entry in its journal. -/
def record (b : Bus) (e : Entry) : Bus :=
  { b with journal := e :: b.journal }

/-- The handlers that the entries of a roster keep alive. -/
def keeping (entries : List Subscription) : List String :=
  (entries.filter fun s => !s.weak).map Subscription.handler

/-- Whether a delivery keeps a handler alive: it called it last, or the roster does that it walks
over. -/
def holds (b : Bus) (h : Hold) (handler : String) : Bool :=
  h.calling == some handler || (keeping (b.rosters h.kind h.number)).contains handler

/-- Whether a handler lives: its owner keeps it, or a roster or a delivery does. -/
def lives (b : Bus) (handler : String) : Bool :=
  !b.dropped.contains handler || (b.held.any fun h => b.holds h handler) ||
    EventKind.all.any fun k => (keeping (b.subscribers k)).contains handler

/-- Subscribes a handler to a kind. -/
def subscribe (b : Bus) (kind : EventKind) (handler : String) (priority : Priority := .ofInt 0)
    (mark : Json := .bool false) (weak : Bool := true) : Bus :=
  let entries := enlist ⟨b.made, priority, handler, mark, weak⟩ (b.subscribers kind)
  let b := match b.current kind with
    | some number => b.withEntries kind number entries
    | none => b.withRoster kind entries
  { b with made := b.made + 1 }

/-- Takes a handler from a kind, if the kind has a roster. -/
def unsubscribe (b : Bus) (kind : EventKind) (handler : String) : Bus :=
  match b.roster kind with
  | some entries => b.withRoster kind (entries.filter (·.handler ≠ handler))
  | none => b

/-- Removes the roster of a kind, or all rosters. -/
def clear (b : Bus) : Option EventKind → Bus
  | none => { b with current := fun _ => none }
  | some kind => { b with current := fun k => if k = kind then none else b.current k }

/-- Takes note that the owner of a handler has dropped it. -/
def drop (b : Bus) (handler : String) : Bus :=
  { b with dropped := handler :: b.dropped }

/-- Takes an event into the queue. -/
def enqueue (b : Bus) (e : Event) : Bus :=
  { b.record (.published e) with queue := b.queue ++ [e] }

@[simp]
theorem withRoster_roster_self (b : Bus) (kind : EventKind) (entries : List Subscription) :
    (b.withRoster kind entries).roster kind = some entries := by
  simp [withRoster, withEntries, roster]

theorem withRoster_roster_of_ne (b : Bus) {kind k : EventKind} (entries : List Subscription)
    (h : k ≠ kind) : (b.withRoster kind entries).roster k = b.roster k := by
  simp [withRoster, withEntries, roster, h]

theorem withEntries_roster_of_ne (b : Bus) {kind k : EventKind} (number : Nat)
    (entries : List Subscription) (h : k ≠ kind) :
    (b.withEntries kind number entries).roster k = b.roster k := by
  simp [withEntries, roster, h]

/-- A subscription joins the roster that its kind has, or makes one. -/
@[simp]
theorem subscribe_roster_self (b : Bus) (kind : EventKind) (handler : String)
    (priority : Priority) (mark : Json) (weak : Bool) :
    (b.subscribe kind handler priority mark weak).roster kind =
      some (enlist ⟨b.made, priority, handler, mark, weak⟩ (b.subscribers kind)) := by
  cases h : b.current kind <;>
    simp [subscribe, withRoster, withEntries, roster, subscribers, h]

/-- A subscription joins the roster of its kind. -/
theorem mem_enlist {s t : Subscription} {entries : List Subscription} :
    t ∈ enlist s entries ↔ t = s ∨ t ∈ entries := by
  induction entries with
  | nil => simp [enlist]
  | cons u rest ih =>
    unfold enlist
    split
    · simp
    · simp [ih]
      constructor
      · rintro (h | h | h) <;> simp [h]
      · rintro (h | h | h) <;> simp [h]

end Bus

end Parley
