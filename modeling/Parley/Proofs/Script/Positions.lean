import Parley.Proofs.Answer
import Parley.Script.Parser

/-!
# Positions in Parsing

The parser looks at the structure of data and never at their positions, which it only hands on to
flaws. We prove this by moving data: whatever is done to the positions, the same is parsed, and a
flaw is moved along.

* `Expr.ofDatum_moved`, `Phrase.ofData_moved`, `Statement.bodyOfDatum_moved`: moved data are parsed
  as what they were, with their flaws moved;
* `Datum.exists_part_of_moved`: hence a flaw can only lie where a part of the data does.
-/

namespace Parley

/-- A flaw at another position. -/
def Flaw.moved (f : Position → Position) (flaw : Flaw) : Flaw :=
  ⟨f flaw.position, flaw.defect⟩

namespace Datum

mutual

/-- A datum at another position, with everything in it. -/
def moved (f : Position → Position) : Datum → Datum
  | .symbol name p => .symbol name (f p)
  | .int n p => .int n (f p)
  | .str s p => .str s (f p)
  | .list items p => .list (movedAll f items) (f p)

/-- Data at other positions. -/
def movedAll (f : Position → Position) : List Datum → List Datum
  | [] => []
  | d :: rest => moved f d :: movedAll f rest

end

mutual

/-- A datum and all data inside it. -/
def parts : Datum → List Datum
  | .list items p => .list items p :: partsAll items
  | d => [d]

/-- Data and all data inside them. -/
def partsAll : List Datum → List Datum
  | [] => []
  | d :: rest => parts d ++ partsAll rest

end

variable {f : Position → Position}

theorem movedAll_eq_map (ds : List Datum) : movedAll f ds = ds.map (moved f) := by
  induction ds with
  | nil => rfl
  | cons d rest ih => rw [movedAll, ih, List.map_cons]

@[simp]
theorem length_movedAll (ds : List Datum) : (movedAll f ds).length = ds.length := by
  rw [movedAll_eq_map, List.length_map]

@[simp]
theorem isEmpty_movedAll (ds : List Datum) : (movedAll f ds).isEmpty = ds.isEmpty := by
  rw [movedAll_eq_map, List.isEmpty_map]

mutual

/-- A datum stays where it is if all its parts do. -/
theorem moved_eq_self : ∀ d : Datum, (∀ x ∈ d.parts, f x.position = x.position) → d.moved f = d
  | .symbol name _, h => congrArg (Datum.symbol name) (h _ (List.mem_singleton_self _))
  | .int n _, h => congrArg (Datum.int n) (h _ (List.mem_singleton_self _))
  | .str s _, h => congrArg (Datum.str s) (h _ (List.mem_singleton_self _))
  | .list items p, h => by
    rw [parts, List.forall_mem_cons] at h
    rw [moved, movedAll_eq_self items h.2]
    exact congrArg (Datum.list items) h.1

/-- Data whose positions are kept are not moved. -/
theorem movedAll_eq_self : ∀ ds : List Datum, (∀ x ∈ partsAll ds, f x.position = x.position) →
    movedAll f ds = ds
  | [], _ => rfl
  | d :: rest, h => by
    rw [partsAll, List.forall_mem_append] at h
    rw [movedAll, moved_eq_self d h.1, movedAll_eq_self rest h.2]

end

end Datum

/-! ## Answers -/

section Answers

variable {ε ε' α β : Type} (h : ε → ε')

/-- Faults are moved past a computation that goes on. -/
theorem mapError_bind (x : Except ε α) (g : α → Except ε β) :
    (x >>= g).mapError h = x.mapError h >>= fun a => (g a).mapError h := by
  cases x <;> rfl

/-- Faults are moved past a change of the result. -/
theorem mapError_map (x : Except ε α) (g : α → β) :
    (x.map g).mapError h = (x.mapError h).map g := by
  cases x <;> rfl

end Answers

variable {f : Position → Position}

/-! ## Expressions and texts -/

namespace Expr

/-- Moving a symbol moves the fault of reading it. The lemmas below say the same along the reader:
results do not depend on positions, faults move with them. -/
theorem ofSymbol_moved (name : String) (p : Position) :
    ofSymbol name (f p) = (ofSymbol name p).mapError (Flaw.moved f) := by
  unfold ofSymbol
  split
  · rfl
  · split <;> rfl

mutual

/-- A moved datum writes the same expression. -/
theorem ofDatum_moved : ∀ d : Datum, ofDatum (d.moved f) = (ofDatum d).mapError (Flaw.moved f)
  | .int _ _ => rfl
  | .str _ _ => rfl
  | .symbol name p => ofSymbol_moved name p
  | .list [] _ => rfl
  | .list (.symbol name headPosition :: args) position => by
    simp only [Datum.moved, Datum.movedAll, ofDatum]
    cases Comparison.ofName? name with
    | some op =>
      match args with
      | [left, right] =>
        simp only [Datum.movedAll, mapError_bind, ofDatum_moved left, ofDatum_moved right]
        rfl
      | [] => rfl
      | [_] => rfl
      | _ :: _ :: _ :: _ => rfl
    | none =>
      cases Connective.ofName? name with
      | some op =>
        simp only [Datum.length_movedAll, Datum.isEmpty_movedAll]
        split
        · rfl
        · split
          · rfl
          · rw [mapError_bind, ofData_moved args]
            rfl
      | none =>
        simp only
        split <;> rfl
  | .list (.int _ _ :: _) _ => rfl
  | .list (.str _ _ :: _) _ => rfl
  | .list (.list _ _ :: _) _ => rfl

/-- Operands are read the same after a move. -/
theorem ofData_moved : ∀ ds : List Datum,
    ofData (Datum.movedAll f ds) = (ofData ds).mapError (Flaw.moved f)
  | [] => rfl
  | d :: rest => by
    simp only [Datum.movedAll, ofData, mapError_bind, ofDatum_moved d, ofData_moved rest]
    rfl

end

end Expr

namespace PhrasePart

theorem alternatives_moved : ∀ ds : List Datum,
    alternatives (Datum.movedAll f ds) = (alternatives ds).mapError (Flaw.moved f)
  | [] => rfl
  | .str s p :: rest => by
    simp only [Datum.movedAll, Datum.moved, alternatives, mapError_map, alternatives_moved rest]
  | .symbol _ _ :: _ => rfl
  | .int _ _ :: _ => rfl
  | .list _ _ :: _ => rfl

/-- A list headed by another word than that of a pick writes no text. -/
theorem ofDatum_of_ne_pick {name : String} (h : name ≠ "pick") (q : Position) (args : List Datum)
    (p : Position) : ofDatum (.list (.symbol name q :: args) p) = .error ⟨p, .textExpected⟩ := by
  rw [ofDatum.eq_def]
  split
  · next hstr => exact nomatch hstr
  · next hlist =>
    obtain ⟨rfl, -⟩ := Datum.symbol.inj (List.cons.inj (Datum.list.inj hlist).1).1
    exact absurd rfl h
  · rfl

/-- A moved datum writes the same part of a text. -/
theorem ofDatum_moved : ∀ d : Datum, ofDatum (d.moved f) = (ofDatum d).mapError (Flaw.moved f)
  | .str _ _ => rfl
  | .int _ _ => rfl
  | .symbol _ _ => rfl
  | .list [] _ => rfl
  | .list (.symbol name q :: args) p => by
    by_cases hpick : name = "pick"
    · subst hpick
      simp only [Datum.moved, Datum.movedAll, ofDatum, Datum.isEmpty_movedAll]
      split
      · rfl
      · rw [mapError_map, alternatives_moved]
    · rw [ofDatum_of_ne_pick hpick, Datum.moved, Datum.movedAll, Datum.moved,
        ofDatum_of_ne_pick hpick]
      rfl
  | .list (.int _ _ :: _) _ => rfl
  | .list (.str _ _ :: _) _ => rfl
  | .list (.list _ _ :: _) _ => rfl

end PhrasePart

namespace Phrase

/-- A phrase is read the same after a move. -/
theorem ofDatum_moved (d : Datum) :
    ofDatum (d.moved f) = (ofDatum d).mapError (Flaw.moved f) := by
  rw [ofDatum, ofDatum, PhrasePart.ofDatum_moved, mapError_map]

/-- Moved data write the same text. -/
theorem ofData_moved (ds : List Datum) :
    ofData (Datum.movedAll f ds) = (ofData ds).mapError (Flaw.moved f) := by
  induction ds with
  | nil => rfl
  | cons d rest ih =>
    simp only [Datum.movedAll, ofData, mapError_bind, PhrasePart.ofDatum_moved, ih]
    rfl

end Phrase

/-! ## Statements -/

namespace Statement

/-- The arguments of the simple forms are read the same after a move. -/
theorem itemOfDatum_moved : ∀ d : Datum,
    itemOfDatum (d.moved f) = (itemOfDatum d).mapError (Flaw.moved f)
  | .symbol name p => by
    simp only [Datum.moved, itemOfDatum]
    split <;> rfl
  | .str s p => by
    simp only [Datum.moved, itemOfDatum]
    split <;> rfl
  | .int _ _ => rfl
  | .list _ _ => rfl

theorem targetOfDatum_moved : ∀ d : Datum,
    targetOfDatum (d.moved f) = (targetOfDatum d).mapError (Flaw.moved f)
  | .symbol name p => by
    simp only [Datum.moved, targetOfDatum]
    split <;> rfl
  | .str _ _ => rfl
  | .int _ _ => rfl
  | .list _ _ => rfl

theorem amountOfDatum_moved : ∀ d : Datum,
    amountOfDatum (d.moved f) = (amountOfDatum d).mapError (Flaw.moved f)
  | .int (.ofNat _) _ => rfl
  | .int (.negSucc _) _ => rfl
  | .symbol _ _ => rfl
  | .str _ _ => rfl
  | .list _ _ => rfl

/-- A symbol that is not the catch-all writes an expression. -/
theorem testOfDatum_of_ne_else {name : String} (h : name ≠ "else") (isLast : Bool) (p : Position) :
    testOfDatum isLast (.symbol name p) = (Expr.ofDatum (.symbol name p)).map .expr := by
  rw [testOfDatum.eq_def]
  split
  · next hsymbol => exact absurd (Datum.symbol.inj hsymbol).1 h
  · rfl

/-- A moved datum writes the same test. -/
theorem testOfDatum_moved (isLast : Bool) : ∀ d : Datum,
    testOfDatum isLast (d.moved f) = (testOfDatum isLast d).mapError (Flaw.moved f)
  | .symbol name p => by
    by_cases helse : name = "else"
    · subst helse
      cases isLast <;> rfl
    · rw [testOfDatum_of_ne_else helse, mapError_map, ← Expr.ofDatum_moved, Datum.moved,
        testOfDatum_of_ne_else helse]
  | .int _ _ => rfl
  | .str _ _ => rfl
  | .list items p => by
    show (Expr.ofDatum ((Datum.list items p).moved f)).map Test.expr = _
    rw [Expr.ofDatum_moved, ← mapError_map]
    rfl

/-- Moved arguments give the same statement of a simple form. -/
theorem ofSimpleForm_moved (p : Position) : ∀ (form : Form) (args : List Datum),
    ofSimpleForm form (Datum.movedAll f args) (f p) =
      (ofSimpleForm form args p).mapError (Flaw.moved f)
  | .say, [] => rfl
  | .say, d :: rest => by
    simp only [Datum.movedAll, ofSimpleForm, mapError_map]
    rw [← Datum.movedAll, Phrase.ofData_moved]
  | .give, [item, message] => by
    simp only [Datum.movedAll, ofSimpleForm, mapError_bind, itemOfDatum_moved,
      Phrase.ofDatum_moved]
    rfl
  | .give, [] => rfl
  | .give, [_] => rfl
  | .give, _ :: _ :: _ :: rest => by
    simp only [Datum.movedAll, ofSimpleForm, List.length_cons, Datum.length_movedAll]
    rfl
  | .offer, [item] => by
    simp only [Datum.movedAll, ofSimpleForm, mapError_map, itemOfDatum_moved]
  | .offer, [] => rfl
  | .offer, _ :: _ :: rest => by
    simp only [Datum.movedAll, ofSimpleForm, List.length_cons, Datum.length_movedAll]
    rfl
  | .spend, [amount] => by
    simp only [Datum.movedAll, ofSimpleForm, mapError_map, amountOfDatum_moved]
  | .spend, [] => rfl
  | .spend, _ :: _ :: rest => by
    simp only [Datum.movedAll, ofSimpleForm, List.length_cons, Datum.length_movedAll]
    rfl
  | .assign, [target, value] => by
    simp only [Datum.movedAll, ofSimpleForm, mapError_bind, targetOfDatum_moved,
      Expr.ofDatum_moved]
    rfl
  | .assign, [] => rfl
  | .assign, [_] => rfl
  | .assign, _ :: _ :: _ :: rest => by
    simp only [Datum.movedAll, ofSimpleForm, List.length_cons, Datum.length_movedAll]
    rfl
  | .finish, [] => rfl
  | .finish, [message] => by
    simp only [Datum.movedAll, ofSimpleForm, mapError_map, Phrase.ofDatum_moved]
  | .finish, _ :: _ :: _ => rfl
  | .cond, _ => rfl
  | .option, _ => rfl

mutual

/-- A moved datum writes the same body. -/
theorem bodyOfDatum_moved : ∀ (inOption : Bool) (d : Datum),
    bodyOfDatum inOption (d.moved f) = (bodyOfDatum inOption d).mapError (Flaw.moved f)
  | _, .list [] _ => rfl
  | inOption, .list (.list first q :: rest) _ => by
    have hfirst := ofDatum_moved inOption (.list first q)
    rw [Datum.moved] at hfirst
    simp only [Datum.moved, Datum.movedAll, bodyOfDatum, mapError_bind, hfirst,
      ofData_moved inOption rest]
    rfl
  -- Any other list is a form itself.
  | inOption, .list (.symbol name q :: args) p => by
    have hitems := ofItems_moved inOption (.symbol name q :: args) p
    rw [Datum.movedAll, Datum.moved] at hitems
    simp only [Datum.moved, Datum.movedAll, bodyOfDatum, mapError_map, hitems]
  | _, .list (.int _ _ :: _) _ => rfl
  | _, .list (.str _ _ :: _) _ => rfl
  | _, .int _ _ => rfl
  | _, .str _ _ => rfl
  | _, .symbol _ _ => rfl

/-- A statement is read the same after a move. The induction is over the datum, with its list of
items and its clauses. -/
theorem ofDatum_moved : ∀ (inOption : Bool) (d : Datum),
    ofDatum inOption (d.moved f) = (ofDatum inOption d).mapError (Flaw.moved f)
  | _, .list [] _ => rfl
  | inOption, .list (first :: rest) p => ofItems_moved inOption (first :: rest) p
  | _, .int _ _ => rfl
  | _, .str _ _ => rfl
  | _, .symbol _ _ => rfl

theorem ofData_moved : ∀ (inOption : Bool) (ds : List Datum),
    ofData inOption (Datum.movedAll f ds) = (ofData inOption ds).mapError (Flaw.moved f)
  | _, [] => rfl
  | inOption, d :: rest => by
    simp only [Datum.movedAll, ofData, mapError_bind, ofDatum_moved inOption d,
      ofData_moved inOption rest]
    rfl

theorem ofItems_moved : ∀ (inOption : Bool) (ds : List Datum) (p : Position),
    ofItems inOption (Datum.movedAll f ds) (f p) =
      (ofItems inOption ds p).mapError (Flaw.moved f)
  | inOption, .symbol name q :: args, p => by
    rw [Datum.movedAll, Datum.moved, ofItems.eq_def, ofItems.eq_def inOption (_ :: _)]
    dsimp only
    split
    · rw [Datum.isEmpty_movedAll]
      split
      · rfl
      · rw [mapError_map, clausesOfData_moved inOption args]
    · split
      · rfl
      · match args with
        | [label, body] =>
          simp only [Datum.movedAll, mapError_bind, Phrase.ofDatum_moved,
            bodyOfDatum_moved true body]
          rfl
        | [label, guard, body] =>
          simp only [Datum.movedAll, mapError_bind, Expr.ofDatum_moved, Phrase.ofDatum_moved,
            bodyOfDatum_moved true body]
          rfl
        | [] => rfl
        | [_] => rfl
        | _ :: _ :: _ :: _ :: _ => rfl
    · exact ofSimpleForm_moved p _ args
    · split <;> rfl
  | _, [], _ => rfl
  | _, .int _ _ :: _, _ => rfl
  | _, .str _ _ :: _, _ => rfl
  | _, .list _ _ :: _, _ => rfl

theorem clausesOfData_moved : ∀ (inOption : Bool) (ds : List Datum),
    clausesOfData inOption (Datum.movedAll f ds) =
      (clausesOfData inOption ds).mapError (Flaw.moved f)
  | _, [] => rfl
  | inOption, .list [test, body] _ :: rest => by
    simp only [Datum.movedAll, Datum.moved, clausesOfData, Datum.isEmpty_movedAll, mapError_bind,
      testOfDatum_moved, bodyOfDatum_moved inOption body, clausesOfData_moved inOption rest]
    rfl
  | _, .list [] _ :: _ => rfl
  | _, .list [_] _ :: _ => rfl
  | _, .list (_ :: _ :: _ :: _) _ :: _ => rfl
  | _, .int _ _ :: _ => rfl
  | _, .str _ _ :: _ => rfl
  | _, .symbol _ _ :: _ => rfl

end

/-- Moved data write the same bodies. -/
theorem ofBodies_moved (ds : List Datum) :
    ofBodies (Datum.movedAll f ds) = (ofBodies ds).mapError (Flaw.moved f) := by
  induction ds with
  | nil => rfl
  | cons d rest ih =>
    simp only [Datum.movedAll, ofBodies, mapError_bind, bodyOfDatum_moved, ih]
    rfl

end Statement

/-! ## Where flaws lie -/

/-- What treats data alike wherever they lie finds its flaws where a part of the datum lies. -/
theorem Datum.exists_part_of_moved {α : Type} {parse : Datum → Except Flaw α}
    (hmoved : ∀ f d, parse (d.moved f) = (parse d).mapError (Flaw.moved f)) {d : Datum}
    {flaw : Flaw} (h : parse d = .error flaw) : ∃ x ∈ d.parts, x.position = flaw.position := by
  refine Classical.byContradiction fun hnone => ?_
  -- Only the place of the flaw is moved, so the datum stays as it is and the flaw does not.
  let aside (p : Position) : Position := if p = flaw.position then ⟨p.line + 1, p.column⟩ else p
  have hstay : d.moved aside = d := by
    refine moved_eq_self d fun x hx => if_neg fun hposition => hnone ⟨x, hx, hposition⟩
  have hflaw := hmoved aside d
  rw [hstay, h] at hflaw
  have hposition : flaw.position = aside flaw.position :=
    congrArg Flaw.position (Except.error.inj hflaw)
  rw [show aside flaw.position = ⟨flaw.position.line + 1, flaw.position.column⟩ from if_pos rfl]
    at hposition
  have hline := congrArg Position.line hposition
  dsimp only at hline
  omega

end Parley
