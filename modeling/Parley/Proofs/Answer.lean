/-!
# Answers

An operation that can fail answers a fault or a value. What all its faults and all its values have in
common (`Answers`) is put together from what the operations have that it is made of.
-/

namespace Parley

variable {ε α β : Type} {P : ε → Prop} {Q : α → Prop} {R : β → Prop}

/-- An answer is a fault of one kind or a value of another. -/
def Answers (P : ε → Prop) (Q : α → Prop) : Except ε α → Prop
  | .error fault => P fault
  | .ok value => Q value

/-- The value of an answer, if it is one, is of a kind. -/
abbrev Gives (Q : α → Prop) (x : Except ε α) : Prop :=
  Answers (fun _ => True) Q x

namespace Answers

/-- What is chained after a result answers as the continuation does. -/
theorem bind {x : Except ε α} {f : α → Except ε β} (hx : Answers P Q x)
    (hf : ∀ a, Q a → Answers P R (f a)) : Answers P R (x >>= f) := by
  cases x with
  | error fault => exact hx
  | ok a => exact hf a hx

theorem map {x : Except ε α} {f : α → β} (hx : Answers P Q x) (hf : ∀ a, Q a → R (f a)) :
    Answers P R (x.map f) := by
  cases x with
  | error fault => exact hx
  | ok a => exact hf a hx

/-- A weaker promise about the results holds too. -/
theorem imp {x : Except ε α} {Q' : α → Prop} (hx : Answers P Q x) (hQ : ∀ a, Q a → Q' a) :
    Answers P Q' x := by
  cases x with
  | error fault => exact hx
  | ok a => exact hQ a hx

/-- Two promises about one result hold together. -/
theorem and {x : Except ε α} {Q' : α → Prop} (hx : Answers P Q x) (hx' : Answers P Q' x) :
    Answers P (fun a => Q a ∧ Q' a) x := by
  cases x with
  | error fault => exact hx
  | ok a => exact ⟨hx, hx'⟩

theorem trivial (x : Except ε α) : Answers (fun _ => True) (fun _ => True) x := by
  cases x <;> exact True.intro

/-- The promise about the fault that came out. -/
theorem of_eq_error {x : Except ε α} {fault : ε} (hx : Answers P Q x) (h : x = .error fault) :
    P fault := by
  rwa [h] at hx

/-- The promise about the result that came out. -/
theorem of_eq_ok {x : Except ε α} {a : α} (hx : Answers P Q x) (h : x = .ok a) : Q a := by
  rwa [h] at hx

end Answers

/-- An answer of which a value is made is one itself. -/
theorem exists_of_map_eq_ok {x : Except ε α} {f : α → β} {b : β} (h : x.map f = .ok b) :
    ∃ a, x = .ok a ∧ f a = b := by
  cases x with
  | error fault => cases h
  | ok a => exact ⟨a, rfl, Except.ok.inj h⟩

/-- An answer of which something is known to be read off is a value. -/
theorem exists_of_toOption_map {x : Except ε α} {f : α → β} {b : β}
    (h : x.toOption.map f = some b) : ∃ a, x = .ok a ∧ f a = b := by
  cases x with
  | error fault => cases h
  | ok a => exact ⟨a, rfl, Option.some.inj h⟩

theorem eq_ok_of_toOption {x : Except ε α} {a : α} (h : x.toOption = some a) : x = .ok a := by
  cases x with
  | error fault => cases h
  | ok b => exact congrArg Except.ok (Option.some.inj h)

theorem map_eq_ok_of_toOption_map {x : Except ε α} {f : α → β} {b : β}
    (h : x.toOption.map f = some b) : x.map f = .ok b := by
  obtain ⟨a, rfl, rfl⟩ := exists_of_toOption_map h
  rfl

/-- The fault of an answer, if it is one. -/
def fault? : Except ε α → Option ε
  | .error fault => some fault
  | .ok _ => none

/-- A fault that is reported is the one that came out. -/
theorem eq_error_of_fault? {x : Except ε α} {fault : ε} (h : fault? x = some fault) :
    x = .error fault := by
  cases x with
  | error fault' => exact congrArg Except.error (Option.some.inj h)
  | ok a => cases h

end Parley
