import Parley.Bus.Basic

/-!
# The delivery of events

The delivery of an event walks over the roster of its kind from the first place to the last, and
calls every entry whose handler lives. What a handler does at its call may change the roster, and
the walk goes on over the changed roster by places: entries that are put in move the later ones
back. A roster that is replaced or cleared meanwhile is walked to its end as it was. The places of
one-shot entries that were called and of entries that were found dead are vacated after the walk,
in the roster that was walked over.

A call fails at the first action that cannot be done (`refusal?`): a handler that its owner has
dropped cannot be named, and a subscription needs a place for its priority (`hasPlace`).

Events that are published during a delivery wait in a queue; they are delivered after it, in the
order in which they were published. The deliveries of events that wait are nested: each of them
delivers what waits behind it before it returns to the one before. The stack has room for so many
deliveries only (`Limits.deliveries`), and one that does not fit ends all of them. An event to which
nobody has subscribed takes no room. Handlers may keep a bus busy forever, so a delivery runs on fuel.
-/

namespace Parley.Bus

/-- What a handler may do while it is called. -/
inductive Action
  | subscribe (kind : EventKind) (handler : String) (priority : Priority) (mark : Json) (weak : Bool)
  /-- Take a handler from the roster of a kind. -/
  | unsubscribe (kind : EventKind) (handler : String)
  /-- Remove the roster of a kind, or all rosters. -/
  | clear (kind : Option EventKind)
  | drop (handler : String)
  | publish (event : Event)
  /-- Put an end to the event of the call. -/
  | consume
  | fail
  deriving Inhabited

/-- Why an action cannot be done. -/
inductive Refusal
  /-- The owner of the handler has dropped it. After that nobody can name it any more, not even the
  handler itself. -/
  | dropped
  /-- There is no place for the priority of a subscription. -/
  | notComparable
  deriving DecidableEq, Inhabited

/-- Why an action cannot be done, if it cannot. -/
def refusal? (b : Bus) : Action → Option Refusal
  | .subscribe kind handler priority _ _ =>
    if b.dropped.contains handler then some .dropped
    else if hasPlace priority (b.subscribers kind) then none
    else some .notComparable
  | .unsubscribe _ handler => if b.dropped.contains handler then some .dropped else none
  | .drop handler => if b.dropped.contains handler then some .dropped else none
  | _ => none

/-- What the handlers do at a call. The choice depends on everything that happened so far; the
latest entry of the journal is the call. -/
abbrev Reactions := List Entry → List Action

/-- The walk of a delivery over a roster. -/
structure Walk where
  bus : Bus
  event : Event
  /-- The number of the roster that is walked over. -/
  number : Nat := 0
  /-- The next place. -/
  place : Nat := 0
  /-- The places to vacate, the last one first. -/
  vacating : List Nat := []
  /-- The handler that was called last, unless a dead entry came after it. -/
  calling : Option String := none
  deriving Inhabited

namespace Walk

/-- What the walk holds. -/
def hold (w : Walk) : Hold :=
  ⟨w.event.kind, w.number, w.calling⟩

/-- The entries that are walked over. -/
def entries (w : Walk) : List Subscription :=
  w.bus.rosters w.event.kind w.number

/-- Whether an entry is dead. -/
def isDead (w : Walk) (s : Subscription) : Bool :=
  s.weak && !(w.bus.lives s.handler || w.bus.holds w.hold s.handler)

/-- The effect of an action, failing apart. -/
def perform (w : Walk) : Action → Walk
  | .subscribe kind handler priority mark weak =>
    { w with bus := w.bus.subscribe kind handler priority mark weak }
  | .unsubscribe kind handler => { w with bus := w.bus.unsubscribe kind handler }
  | .clear kind => { w with bus := w.bus.clear kind }
  | .drop handler => { w with bus := w.bus.drop handler }
  | .publish event => { w with bus := w.bus.enqueue event }
  | .consume => { w with event := { w.event with consumed := true } }
  | .fail => w

/-- The walk after the call of an entry has failed. -/
def fail (w : Walk) (s : Subscription) : Walk :=
  { w with bus := w.bus.record (.failed s w.event) }

/-- The effect of the actions of an entry's call, up to its failure. What cannot be done fails. -/
def react (w : Walk) (s : Subscription) : List Action → Walk
  | [] => w
  | .fail :: _ => w.fail s
  | a :: rest => if (w.bus.refusal? a).isSome then w.fail s else (w.perform a).react s rest

/-- The call of an entry. -/
def call (w : Walk) (reactions : Reactions) (s : Subscription) : Walk :=
  -- What a handler does may depend on all that has happened on the bus.
  let bus := w.bus.record (.called s w.event)
  { w with bus, calling := some s.handler }.react s (reactions bus.journal)

/-- A walk whose current place is to be vacated. -/
def vacate (w : Walk) : Walk :=
  { w with vacating := w.place :: w.vacating }

/-- A walk at its next place. -/
def advance (w : Walk) : Walk :=
  { w with place := w.place + 1 }

/-- A walk that has come upon a dead entry. -/
def skip (w : Walk) : Walk :=
  { w.vacate with calling := none }

/-- A walk that has come upon an entry whose handler lives. -/
def meet (w : Walk) (reactions : Reactions) (s : Subscription) : Walk :=
  let after := w.call reactions s
  -- The place is vacated after the walk, so that later places keep their numbers meanwhile.
  if s.oneShot then after.vacate else after

/-- Walks on until the entries or the event come to an end. -/
def run (reactions : Reactions) : Nat → Walk → Option Walk
  | 0, _ => none
  | fuel + 1, w =>
    match w.entries[w.place]? with
    | none => some w
    | some s =>
      if w.isDead s then run reactions fuel w.skip.advance
      else
        let after := w.meet reactions s
        -- The next place is looked up anew, since a call may have changed the roster.
        if after.event.consumed then some after else run reactions fuel after.advance

/-- The bus after a walk. The delivery goes on holding what it held. -/
def finish (w : Walk) : Bus :=
  -- The last place comes first, so that no removal moves a place that is still to be vacated.
  let left := w.vacating.foldl List.eraseIdx w.entries
  let bus := w.bus.withEntries w.event.kind w.number left
  { bus with held := w.hold :: bus.held }

end Walk

/-- A delivery did not fit on the stack: the bus as the deliveries have left it, without the event that
did not fit. What waited behind this event still waits. -/
structure Overrun where
  bus : Bus
  deriving Inhabited

mutual

/-- Delivers an event, and after it what waits in the queue, with room for so many nested deliveries. An
event that nobody has subscribed to is passed over. -/
def deliver (reactions : Reactions) : Nat → Nat → Bus → Event → Option (Except Overrun (Event × Bus))
  | 0, _, _, _ => none
  | fuel + 1, room, b, e =>
    match b.current e.kind with
    | none => some (.ok (e, b.record (.began e)))
    | some number =>
      if (b.rosters e.kind number).isEmpty then some (.ok (e, b.record (.began e)))
      else
        match room with
        | 0 => some (.error ⟨b⟩)
        | room + 1 =>
          match Walk.run reactions fuel { bus := b.record (.began e), event := e, number } with
          | none => none
          | some w =>
            -- The delivery waits on the stack until the queue is empty.
            (drain reactions fuel room w.finish).map fun ending => ending.map fun b => (w.event, b)

/-- Delivers what waits in the queue, with room for so many nested deliveries. -/
def drain (reactions : Reactions) : Nat → Nat → Bus → Option (Except Overrun Bus)
  | 0, _, _ => none
  | fuel + 1, room, b =>
    match b.queue with
    | [] => some (.ok b)
    | e :: rest =>
      match deliver reactions fuel room { b with queue := rest } e with
      | none => none
      | some (.error overrun) => some (.error overrun)
      | some (.ok (_, b)) => drain reactions fuel room b

end

/-- A bus on which all deliveries have ended lets go of what they held. -/
def release (b : Bus) : Bus :=
  { b with held := [] }

/-- Publishes an event on a bus that is not delivering: the event as its delivery left it, and the
bus after all deliveries. `none` means that the fuel was not enough. -/
def publish (reactions : Reactions) (fuel room : Nat) (b : Bus) (e : Event) :
    Option (Except Overrun (Event × Bus)) :=
  (deliver reactions fuel room (b.record (.published e)) e).map fun
    | .ok (e, b) => .ok (e, b.release)
    | .error overrun => .error ⟨overrun.bus.release⟩

end Parley.Bus
