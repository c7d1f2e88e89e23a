import Parley.Value

/-!
# Events

What is made known while a conversation runs. Every event names the speaker it happened with, if
there is one.
-/

namespace Parley

/-- The kinds of events. -/
inductive EventKind
  | sessionStarted
  | textPresented
  | menuPresented
  | optionSelected
  | sessionCancelled
  | sessionClosed
  | variableSet
  | itemGiven
  | itemOffered
  | currencySpent
  | purchaseRefused
  deriving DecidableEq, Inhabited

namespace EventKind

/-- All kinds of events. -/
def all : List EventKind :=
  [.sessionStarted, .textPresented, .menuPresented, .optionSelected, .sessionCancelled,
    .sessionClosed, .variableSet, .itemGiven, .itemOffered, .currencySpent, .purchaseRefused]

/-- The name of a kind. -/
def name : EventKind → String
  | .sessionStarted => "SESSION_STARTED"
  | .textPresented => "TEXT_PRESENTED"
  | .menuPresented => "MENU_PRESENTED"
  | .optionSelected => "OPTION_SELECTED"
  | .sessionCancelled => "SESSION_CANCELLED"
  | .sessionClosed => "SESSION_CLOSED"
  | .variableSet => "VARIABLE_SET"
  | .itemGiven => "ITEM_GIVEN"
  | .itemOffered => "ITEM_OFFERED"
  | .currencySpent => "CURRENCY_SPENT"
  | .purchaseRefused => "PURCHASE_REFUSED"

/-- The kind of a name. -/
def ofName? (name : String) : Option EventKind :=
  all.find? fun k => k.name == name

theorem mem_all (k : EventKind) : k ∈ all := by
  cases k <;> decide

end EventKind

/-- What happened in a conversation. -/
inductive Happening
  /-- A conversation with the archetype's script began. -/
  | sessionStarted (archetype : String)
  /-- Something was shown: a text, unless a setting asks for something else. -/
  | textPresented (text : Json)
  /-- A menu with these labels was shown. -/
  | menuPresented (labels : List String)
  | optionSelected (index : Nat) (label : String)
  | sessionCancelled
  | sessionClosed
  | variableSet (name : String) (value : Value)
  | itemGiven (item : String)
  /-- An item was offered to the player. -/
  | itemOffered (item : String) (accepted : Json)
  | currencySpent (amount : Nat)
  /-- The player could not pay. -/
  | purchaseRefused (amount : Nat)
  deriving DecidableEq, Inhabited

/-- The kind of what happened. -/
def Happening.kind : Happening → EventKind
  | .sessionStarted _ => .sessionStarted
  | .textPresented _ => .textPresented
  | .menuPresented _ => .menuPresented
  | .optionSelected .. => .optionSelected
  | .sessionCancelled => .sessionCancelled
  | .sessionClosed => .sessionClosed
  | .variableSet .. => .variableSet
  | .itemGiven _ => .itemGiven
  | .itemOffered .. => .itemOffered
  | .currencySpent _ => .currencySpent
  | .purchaseRefused _ => .purchaseRefused

/-- An event of a conversation. -/
structure TalkEvent where
  npc : Option String
  what : Happening
  deriving DecidableEq, Inhabited

end Parley
