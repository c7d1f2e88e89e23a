/-!
# Limits of Recursion

Some recursions follow what they are given: the script reader goes down into every list, the document
reader into every object and list, and a delivery of an event can be nested in another one. Each level
takes calls of a stack that holds a bounded count of them, and what goes deeper is refused.
-/

namespace Parley

/-- How deep the recursions can go. -/
structure Limits where
  /-- The most lists of a script that are open at once. -/
  lists : Nat
  /-- The most objects and lists of a document that are open at once. -/
  documents : Nat
  /-- The most deliveries of events that are nested in one another. -/
  deliveries : Nat
  /-- A save can be read: it has three objects one within the other. -/
  three_le_documents : 3 ≤ documents := by decide
  deriving DecidableEq

/-- The limits of a stack of a thousand calls, some of which are in use. A list of a script takes two
calls. -/
def Limits.standard : Limits :=
  { lists := 480, documents := 980, deliveries := 980 }

instance : Inhabited Limits :=
  ⟨.standard⟩

end Parley
