import Parley.Proofs.Script.Lexical
import Parley.Script.Parser

/-!
# Well-Formed Scripts

What runs a script relies on its shape and does not check it again. A script is well formed if, at
every depth, operators have the operands that they take, clauses and texts have the parts that they
need, no option lies inside an option, and every name can be written as one. The parser answers only
well-formed scripts:

* `Expr.ofDatum_wellFormed`, `Phrase.ofData_wellFormed`: expressions and texts of lexical data;
* `Statement.bodyOfDatum_wellFormed`: a body, with what surrounds it deciding whether it may hold
  options;
* `Script.wellFormed_of_parse`: every script that a text writes.
-/

namespace Parley

/-- A name that a variable can have: a symbol that means nothing else. -/
structure IsName (name : String) : Prop extends IsSymbol name where
  notReserved : isReserved name = false
  notTruth : truthWord? name = none

instance (name : String) : Decidable (IsName name) :=
  decidable_of_iff (IsSymbol name ∧ isReserved name = false ∧ truthWord? name = none)
    ⟨fun ⟨h₁, h₂, h₃⟩ => ⟨h₁, h₂, h₃⟩, fun h => ⟨h.toIsSymbol, h.notReserved, h.notTruth⟩⟩

namespace Expr

mutual

/-- An expression whose operators have their operands and whose variables have names. -/
def IsWellFormed : Expr → Prop
  | .literal _ => True
  | .var name => IsName name
  | .compare _ left right => IsWellFormed left ∧ IsWellFormed right
  | .connect op operands =>
    operands ≠ [] ∧ (op = .not → operands.length = 1) ∧ AreWellFormed operands

/-- Expressions that are well formed. -/
def AreWellFormed : List Expr → Prop
  | [] => True
  | e :: rest => IsWellFormed e ∧ AreWellFormed rest

end

end Expr

/-- A part of a text that has something to say: a pick has an alternative. -/
def PhrasePart.IsWellFormed : PhrasePart → Prop
  | .run _ => True
  | .pick alternatives => alternatives ≠ []

/-- A text whose parts are well formed. -/
def Phrase.IsWellFormed (phrase : Phrase) : Prop :=
  ∀ part ∈ phrase, part.IsWellFormed

/-- A text of exactly one part. -/
def Phrase.IsSingle (phrase : Phrase) : Prop :=
  ∃ part, phrase = [part] ∧ part.IsWellFormed

/-- A condition that is well formed. -/
def Test.IsWellFormed : Test → Prop
  | .expr e => e.IsWellFormed
  | .otherwise => True

mutual

/-- A statement that is well formed, where options may lie unless the place is inside one. The amount
of a charge is a natural number, so nothing is asked of it. -/
def Statement.IsWellFormed (inOption : Bool) : Statement → Prop
  | .cond clauses => clauses ≠ [] ∧ Clause.AreWellFormed inOption clauses
  | .say text => text ≠ [] ∧ text.IsWellFormed
  | .option label guard body =>
    inOption = false ∧ label.IsSingle ∧ (∀ e ∈ guard, e.IsWellFormed) ∧
      Statement.AreWellFormed true body
  | .give item message => item ≠ "" ∧ message.IsSingle
  | .offer item => item ≠ ""
  | .spend _ => True
  | .assign name value => IsName name ∧ value.IsWellFormed
  | .finish message => ∀ phrase ∈ message, phrase.IsSingle

/-- A body whose statements are well formed. -/
def Statement.AreWellFormed (inOption : Bool) : List Statement → Prop
  | [] => True
  | s :: rest => Statement.IsWellFormed inOption s ∧ Statement.AreWellFormed inOption rest

/-- Clauses that are well formed, the catch-all being the last of them if it is there. -/
def Clause.AreWellFormed (inOption : Bool) : List Clause → Prop
  | [] => True
  | .mk test body :: rest =>
    (test = .otherwise → rest = []) ∧ test.IsWellFormed ∧ Statement.AreWellFormed inOption body ∧
      Clause.AreWellFormed inOption rest

end

/-! ## Expressions and texts -/

namespace Expr

/-- A symbol that is read as a variable has a name. -/
theorem ofSymbol_wellFormed {name : String} (h : IsSymbol name) (p : Position) :
    Gives IsWellFormed (ofSymbol name p) := by
  unfold ofSymbol
  split
  · exact True.intro
  · next htruth =>
    split
    · exact True.intro
    · next hreserved => exact ⟨h, by simpa using hreserved, htruth⟩

/-- The counts that the parser lets pass are those that an operator takes. -/
theorem wellFormed_connect {op : Connective} {operands : List Expr} {args : List Datum}
    (hlength : operands.length = args.length) (hnot : ¬ (op = .not ∧ args.length ≠ 1))
    (hsome : ¬ args.isEmpty = true) (h : AreWellFormed operands) :
    (connect op operands).IsWellFormed := by
  refine ⟨?_, fun hop => ?_, h⟩
  · rintro rfl
    exact hsome (List.isEmpty_iff_length_eq_zero.2 hlength.symm)
  · exact hlength.trans (Decidable.not_not.1 fun h => hnot ⟨hop, h⟩)

mutual

/-- The expression of a lexical datum is well formed. -/
theorem ofDatum_wellFormed : ∀ d : Datum, d.IsLexical → Gives IsWellFormed (ofDatum d)
  | .int _ _, _ => True.intro
  | .str _ _, _ => True.intro
  | .symbol name p, h => ofSymbol_wellFormed h p
  | .list [] _, _ => True.intro
  | .list (.symbol name headPosition :: args) position, h => by
    obtain ⟨-, hargs⟩ : IsSymbol name ∧ Datum.AreLexical args := h
    rw [ofDatum]
    split
    · match args, hargs with
      | [left, right], ⟨hleft, hright, _⟩ =>
        exact (ofDatum_wellFormed left hleft).bind fun l hl =>
          (ofDatum_wellFormed right hright).bind fun r hr => And.intro hl hr
      | [], _ => exact True.intro
      | [_], _ => exact True.intro
      | _ :: _ :: _ :: _, _ => exact True.intro
    · split
      · split
        · exact True.intro
        · next hnot =>
          split
          · exact True.intro
          · next hsome =>
            exact (ofData_wellFormed args hargs).bind fun operands hoperands =>
              wellFormed_connect hoperands.1 hnot hsome hoperands.2
      · split <;> exact True.intro
  | .list (.int _ _ :: _) _, _ => True.intro
  | .list (.str _ _ :: _) _, _ => True.intro
  | .list (.list _ _ :: _) _, _ => True.intro

/-- So are the expressions of lexical data, of which there are as many. -/
theorem ofData_wellFormed : ∀ ds : List Datum, Datum.AreLexical ds →
    Gives (fun es => es.length = ds.length ∧ AreWellFormed es) (ofData ds)
  | [], _ => ⟨rfl, True.intro⟩
  | d :: rest, ⟨hd, hrest⟩ => by
    rw [ofData]
    refine (ofDatum_wellFormed d hd).bind fun e he => ?_
    refine (ofData_wellFormed rest hrest).bind fun es hes => ?_
    exact ⟨congrArg (· + 1) hes.1, he, hes.2⟩

end

end Expr

namespace PhrasePart

/-- Alternatives are read one by one. -/
theorem alternatives_length : ∀ ds : List Datum,
    Gives (fun texts => texts.length = ds.length) (alternatives ds)
  | [] => rfl
  | .str _ _ :: rest => (alternatives_length rest).map fun _ h => congrArg (· + 1) h
  | .int _ _ :: _ => True.intro
  | .symbol _ _ :: _ => True.intro
  | .list _ _ :: _ => True.intro

/-- A pick or another piece of a phrase is well-formed if it can be read. -/
theorem ofDatum_wellFormed (d : Datum) : Gives IsWellFormed (ofDatum d) := by
  rw [ofDatum.eq_def]
  split
  · exact True.intro
  · next args position =>
    split
    · exact True.intro
    · next hsome =>
      refine (alternatives_length args).map fun texts hlength hnil => hsome ?_
      rw [List.isEmpty_iff_length_eq_zero, ← hlength, hnil]
      rfl
  · exact True.intro

end PhrasePart

namespace Phrase

theorem ofDatum_single (d : Datum) : Gives IsSingle (ofDatum d) :=
  (PhrasePart.ofDatum_wellFormed d).map fun part h => ⟨part, rfl, h⟩

/-- A text has a part for every datum. -/
theorem ofData_wellFormed (ds : List Datum) :
    Gives (fun phrase => phrase.length = ds.length ∧ IsWellFormed phrase) (ofData ds) := by
  induction ds with
  | nil => exact ⟨rfl, List.forall_mem_nil _⟩
  | cons d rest ih =>
    rw [ofData]
    refine (PhrasePart.ofDatum_wellFormed d).bind fun part hpart => ih.bind fun parts hparts => ?_
    exact ⟨congrArg (· + 1) hparts.1, List.forall_mem_cons.2 ⟨hpart, hparts.2⟩⟩

end Phrase

/-! ## Statements -/

namespace Statement

/-- No item has an empty name. -/
theorem itemOfDatum_nonempty : ∀ d : Datum, d.IsLexical → Gives (· ≠ "") (itemOfDatum d)
  | .symbol name p, h => by
    rw [itemOfDatum]
    split
    · exact True.intro
    · rintro rfl
      exact (IsSymbol.word h).nonempty rfl
  | .str s p, _ => by
    rw [itemOfDatum]
    split
    · exact True.intro
    · next hs => exact hs
  | .int _ _, _ => True.intro
  | .list _ _, _ => True.intro

/-- Every target of an assignment can name a variable. -/
theorem targetOfDatum_name : ∀ d : Datum, d.IsLexical → Gives IsName (targetOfDatum d)
  | .symbol name p, h => by
    rw [targetOfDatum]
    split
    · exact True.intro
    · next hword =>
      simp only [Bool.or_eq_true, not_or, Bool.not_eq_true, Option.isSome_eq_false_iff,
        Option.isNone_iff_eq_none] at hword
      exact ⟨h, hword.1, hword.2⟩
  | .str _ _, _ => True.intro
  | .int _ _, _ => True.intro
  | .list _ _, _ => True.intro

/-- A catch-all is let pass only where there may be one. -/
theorem testOfDatum_wellFormed (isLast : Bool) {d : Datum} (h : d.IsLexical) :
    Gives (fun t => (t = .otherwise → isLast = true) ∧ t.IsWellFormed) (testOfDatum isLast d) := by
  rw [testOfDatum.eq_def]
  split
  · split
    · next hlast => exact ⟨fun _ => hlast, True.intro⟩
    · exact True.intro
  · exact (Expr.ofDatum_wellFormed d h).map fun e he => ⟨nofun, he⟩

/-- A form without statements inside it is well formed everywhere. -/
theorem ofSimpleForm_wellFormed (inOption : Bool) : ∀ (form : Form) (args : List Datum)
    (position : Position), Datum.AreLexical args →
    Gives (IsWellFormed inOption) (ofSimpleForm form args position)
  | .say, [], _, _ => True.intro
  | .say, d :: rest, _, _ =>
    (Phrase.ofData_wellFormed (d :: rest)).map fun phrase h => by
      refine ⟨?_, h.2⟩
      rintro rfl
      exact nomatch h.1
  | .give, [item, message], _, ⟨hitem, _⟩ =>
    (itemOfDatum_nonempty item hitem).bind fun _ hname =>
      (Phrase.ofDatum_single message).bind fun _ h => And.intro hname h
  | .give, [], _, _ => True.intro
  | .give, [_], _, _ => True.intro
  | .give, _ :: _ :: _ :: _, _, _ => True.intro
  | .offer, [item], _, ⟨hitem, _⟩ => (itemOfDatum_nonempty item hitem).map fun _ h => h
  | .offer, [], _, _ => True.intro
  | .offer, _ :: _ :: _, _, _ => True.intro
  | .spend, [amount], _, _ => (Answers.trivial (amountOfDatum amount)).map fun _ h => h
  | .spend, [], _, _ => True.intro
  | .spend, _ :: _ :: _, _, _ => True.intro
  | .assign, [target, value], _, ⟨htarget, hvalue, _⟩ =>
    (targetOfDatum_name target htarget).bind fun _ hname =>
      (Expr.ofDatum_wellFormed value hvalue).bind fun _ h => And.intro hname h
  | .assign, [], _, _ => True.intro
  | .assign, [_], _, _ => True.intro
  | .assign, _ :: _ :: _ :: _, _, _ => True.intro
  | .finish, [], _, _ => fun _ h => nomatch h
  | .finish, [message], _, _ =>
    (Phrase.ofDatum_single message).map fun _ h _ hmem => Option.some.inj hmem ▸ h
  | .finish, _ :: _ :: _, _, _ => True.intro
  -- These two hold other statements and are no business of the function.
  | .cond, _, _, _ => True.intro
  | .option, _, _, _ => True.intro

mutual

/-- The body of a lexical datum is well formed. -/
theorem bodyOfDatum_wellFormed : ∀ (inOption : Bool) (d : Datum), d.IsLexical →
    Gives (AreWellFormed inOption) (bodyOfDatum inOption d)
  | _, .list [] _, _ => True.intro
  | inOption, .list (.list first firstPosition :: rest) _, ⟨hfirst, hrest⟩ => by
    rw [bodyOfDatum]
    refine (ofDatum_wellFormed inOption (.list first firstPosition) hfirst).bind fun s hs => ?_
    exact (ofData_wellFormed inOption rest hrest).bind fun ss hss => And.intro hs hss
  -- Any other list is a form itself.
  | inOption, .list (.symbol name p :: args) position, h =>
    (ofItems_wellFormed inOption (.symbol name p :: args) position h).map fun _ hs =>
      And.intro hs True.intro
  | _, .list (.int _ _ :: _) _, _ => True.intro
  | _, .list (.str _ _ :: _) _, _ => True.intro
  | _, .int _ _, _ => True.intro
  | _, .str _ _, _ => True.intro
  | _, .symbol _ _, _ => True.intro

/-- A statement is well-formed if it can be read. The induction is over the datum, with its list of
items and its clauses. -/
theorem ofDatum_wellFormed : ∀ (inOption : Bool) (d : Datum), d.IsLexical →
    Gives (IsWellFormed inOption) (ofDatum inOption d)
  | _, .list [] _, _ => True.intro
  | inOption, .list (first :: rest) position, h =>
    ofItems_wellFormed inOption (first :: rest) position h
  | _, .int _ _, _ => True.intro
  | _, .str _ _, _ => True.intro
  | _, .symbol _ _, _ => True.intro

theorem ofData_wellFormed : ∀ (inOption : Bool) (ds : List Datum), Datum.AreLexical ds →
    Gives (AreWellFormed inOption) (ofData inOption ds)
  | _, [], _ => True.intro
  | inOption, d :: rest, ⟨hd, hrest⟩ => by
    rw [ofData]
    refine (ofDatum_wellFormed inOption d hd).bind fun s hs => ?_
    exact (ofData_wellFormed inOption rest hrest).bind fun ss hss => And.intro hs hss

theorem ofItems_wellFormed : ∀ (inOption : Bool) (ds : List Datum) (position : Position),
    Datum.AreLexical ds → Gives (IsWellFormed inOption) (ofItems inOption ds position)
  | inOption, .symbol name headPosition :: args, position, ⟨_, hargs⟩ => by
    rw [ofItems.eq_def]
    dsimp only
    split
    · split
      · exact True.intro
      · next hsome =>
        refine (clausesOfData_wellFormed inOption args hargs).map fun clauses h => ⟨?_, h.2⟩
        rintro rfl
        exact hsome h.1.symm
    · split
      · exact True.intro
      · next hoption =>
        have houtside : inOption = false := by simpa using hoption
        match args, hargs with
        | [label, body], ⟨_, hbody, _⟩ =>
          refine (Phrase.ofDatum_single label).bind fun label hlabel => ?_
          refine (bodyOfDatum_wellFormed true body hbody).bind fun body hbody => ?_
          exact ⟨houtside, hlabel, fun _ h => (nomatch h), hbody⟩
        | [label, guard, body], ⟨_, hguard, hbody, _⟩ =>
          refine (Expr.ofDatum_wellFormed guard hguard).bind fun guard hguard => ?_
          refine (Phrase.ofDatum_single label).bind fun label hlabel => ?_
          refine (bodyOfDatum_wellFormed true body hbody).bind fun body hbody => ?_
          exact ⟨houtside, hlabel, fun e h => Option.some.inj h ▸ hguard, hbody⟩
        | [], _ => exact True.intro
        | [_], _ => exact True.intro
        | _ :: _ :: _ :: _ :: _, _ => exact True.intro
    · exact ofSimpleForm_wellFormed inOption _ args position hargs
    · split <;> exact True.intro
  | _, [], _, _ => True.intro
  | _, .int _ _ :: _, _, _ => True.intro
  | _, .str _ _ :: _, _, _ => True.intro
  | _, .list _ _ :: _, _, _ => True.intro

theorem clausesOfData_wellFormed : ∀ (inOption : Bool) (ds : List Datum), Datum.AreLexical ds →
    Gives (fun clauses => clauses.isEmpty = ds.isEmpty ∧ Clause.AreWellFormed inOption clauses)
      (clausesOfData inOption ds)
  | _, [], _ => ⟨rfl, True.intro⟩
  | inOption, .list [test, body] _ :: rest, ⟨⟨htest, hbody, _⟩, hrest⟩ => by
    rw [clausesOfData]
    refine (testOfDatum_wellFormed rest.isEmpty htest).bind fun t ht => ?_
    refine (bodyOfDatum_wellFormed inOption body hbody).bind fun body hbody => ?_
    refine (clausesOfData_wellFormed inOption rest hrest).bind fun clauses h => ?_
    refine ⟨rfl, fun hotherwise => ?_, ht.2, hbody, h.2⟩
    rw [← List.isEmpty_iff, h.1]
    exact ht.1 hotherwise
  | _, .list [] _ :: _, _ => True.intro
  | _, .list [_] _ :: _, _ => True.intro
  | _, .list (_ :: _ :: _ :: _) _ :: _, _ => True.intro
  | _, .int _ _ :: _, _ => True.intro
  | _, .str _ _ :: _, _ => True.intro
  | _, .symbol _ _ :: _, _ => True.intro

end

/-- Two well-formed bodies make one. -/
theorem areWellFormed_append {inOption : Bool} {a b : List Statement}
    (ha : AreWellFormed inOption a) (hb : AreWellFormed inOption b) :
    AreWellFormed inOption (a ++ b) := by
  induction a with
  | nil => exact hb
  | cons s rest ih => exact ⟨ha.1, ih ha.2⟩

/-- The body at the top of a script is well-formed. -/
theorem ofBodies_wellFormed (ds : List Datum) (h : Datum.AreLexical ds) :
    Gives (AreWellFormed false) (ofBodies ds) := by
  induction ds with
  | nil => exact True.intro
  | cons d rest ih =>
    rw [ofBodies]
    refine (bodyOfDatum_wellFormed false d h.1).bind fun ss hss => ?_
    exact (ih h.2).bind fun more hmore => areWellFormed_append hss hmore

end Statement

namespace Script

variable {text archetype source : String} {limits : Limits}

/-- A body is parsed by reading the data of the text and then the statements. -/
theorem parseBody_eq_ok {body : List Statement} :
    parseBody text limits = .ok body ↔
      ∃ data, Datum.read text limits = .ok data ∧ Statement.ofBodies data = .ok body := by
  rw [parseBody]
  cases Datum.read text limits with
  | error flaw => simp [bind, Except.bind]
  | ok data => simp [bind, Except.bind]

theorem parse_eq_ok {script : Script} : parse text archetype source limits = .ok script ↔
    ∃ body, parseBody text limits = .ok body ∧ script = ⟨archetype, body, source, none⟩ := by
  rw [parse]
  cases parseBody text limits with
  | ok body => simp [eq_comm]
  | error flaw => simp

theorem parse_eq_error {e : ParseError} : parse text archetype source limits = .error e ↔
    ∃ flaw, parseBody text limits = .error flaw ∧ e = .ofFlaw source flaw := by
  rw [parse]
  cases parseBody text limits with
  | ok body => simp
  | error flaw => simp [eq_comm]

/-- A parsed body is well-formed. -/
theorem parseBody_wellFormed (text : String) (limits : Limits) :
    Gives (Statement.AreWellFormed false) (parseBody text limits) := by
  have hread : Gives Datum.AreLexical (Datum.read text limits) := by
    cases h : Datum.read text limits with
    | error flaw => exact True.intro
    | ok data => exact Datum.areLexical_of_read h
  exact hread.bind fun data hdata => Statement.ofBodies_wellFormed data hdata

/-- Every script that a text writes is well formed, at every depth. -/
theorem wellFormed_of_parse {text archetype source : String} {limits : Limits} {script : Script}
    (h : parse text archetype source limits = .ok script) :
    Statement.AreWellFormed false script.body := by
  unfold parse at h
  split at h
  · next body hbody =>
    rw [← Except.ok.inj h]
    exact (parseBody_wellFormed text limits).of_eq_ok hbody
  · exact nomatch h

/-- A ferryman takes two coins once. -/
def ferryText : String :=
  "(option \"Pay\" (not paid) ((spend 2) (set paid true)))"

theorem wellFormed_of_parse_ferry : ∃ script, parse ferryText "ferryman" = .ok script ∧
    script.body.length = 1 ∧ Statement.AreWellFormed false script.body := by
  have hparse : ((parse ferryText "ferryman").toOption.map fun s => s.body.length) = some 1 := by
    decide +kernel
  obtain ⟨script, hscript, hlength⟩ := exists_of_toOption_map hparse
  exact ⟨script, hscript, hlength, wellFormed_of_parse hscript⟩

end Script

end Parley
