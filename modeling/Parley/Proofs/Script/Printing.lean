import Parley.Proofs.Script.WellFormed
import Parley.Proofs.Script.Writing

/-!
# Printed Scripts

Every well-formed body can be printed: a statement is the list of its form and its arguments, strings
are in quotes, and the bodies inside it are lists of statements. Parsing the text gives the body back.

Printing takes two steps, first to data (`Statement.toDatum`) and then to text (`Datum.write`). The
data of a well-formed body are lexical, so reading the text gives them back but for their positions. It
remains to show that data which have the form of a statement, positions aside, are parsed as that
statement:

* `Expr.ofDatum_eq`, `PhrasePart.ofDatum_eq`: expressions and texts;
* `Statement.ofDatum_eq`, `Statement.bodyOfDatum_eq`: statements, and bodies as lists of statements;
* `Script.parse_print`: scripts.
-/

namespace Parley

/-! ## The data of a script -/

/-- The word that writes a truth value. -/
def truthWord (b : Bool) : String :=
  if b then "true" else "false"

@[simp]
theorem truthWord?_truthWord (b : Bool) : truthWord? (truthWord b) = some b := by
  cases b <;> rfl

/-- The datum that writes a value. -/
def Value.toDatum : Value → Datum
  | .bool b => .symbol (truthWord b) default
  | .int n => .int n default
  | .str s => .str s default

namespace Expr

mutual

/-- The datum that writes an expression. -/
def toDatum : Expr → Datum
  | .literal v => v.toDatum
  | .var name => .symbol name default
  | .compare op left right =>
    .list [.symbol op.name default, toDatum left, toDatum right] default
  | .connect op operands => .list (.symbol op.name default :: toData operands) default

/-- The data that write expressions. -/
def toData : List Expr → List Datum
  | [] => []
  | e :: rest => toDatum e :: toData rest

end

end Expr

/-- The datum that writes a part of a text. -/
def PhrasePart.toDatum : PhrasePart → Datum
  | .run s => .str s default
  | .pick alternatives =>
    .list (.symbol "pick" default :: alternatives.map (Datum.str · default)) default

/-- The data that write the parts of a text. -/
def Phrase.toData (phrase : Phrase) : List Datum :=
  phrase.map PhrasePart.toDatum

/-- The datum that writes a condition. -/
def Test.toDatum : Test → Datum
  | .expr e => e.toDatum
  | .otherwise => .symbol "else" default

/-- The datum of a form with arguments. -/
def Form.toDatum (form : Form) (args : List Datum) : Datum :=
  .list (.symbol form.name default :: args) default

namespace Statement

mutual

/-- The datum that writes a statement. -/
def toDatum : Statement → Datum
  | .cond clauses => Form.cond.toDatum (clausesToData clauses)
  | .say text => Form.say.toDatum text.toData
  | .option label guard body =>
    Form.option.toDatum
      (label.toData ++ (guard.toList.map Expr.toDatum ++ [.list (toData body) default]))
  | .give item message => Form.give.toDatum (.str item default :: message.toData)
  | .offer item => Form.offer.toDatum [.str item default]
  | .spend amount => Form.spend.toDatum [.int amount default]
  | .assign name value => Form.assign.toDatum [.symbol name default, value.toDatum]
  | .finish message => Form.finish.toDatum (message.elim [] Phrase.toData)

/-- The data that write the statements of a body. -/
def toData : List Statement → List Datum
  | [] => []
  | s :: rest => toDatum s :: toData rest

/-- The data that write clauses. -/
def clausesToData : List Clause → List Datum
  | [] => []
  | .mk test body :: rest =>
    .list [test.toDatum, .list (toData body) default] default :: clausesToData rest

end

end Statement

/-! ## The data are lexical -/

/-- The name of a form is read back as a symbol. -/
theorem Form.isSymbol_name (form : Form) : IsSymbol form.name := by
  cases form <;> decide +kernel

/-- The sign of a comparison is read back as a symbol. -/
theorem Comparison.isSymbol_name (op : Comparison) : IsSymbol op.name := by
  cases op <;> decide +kernel

/-- The name of a connective is read back as a symbol. -/
theorem Connective.isSymbol_name (op : Connective) : IsSymbol op.name := by
  cases op <;> decide +kernel

/-- The two truth words are read back as symbols. -/
theorem isSymbol_truthWord (b : Bool) : IsSymbol (truthWord b) := by
  cases b <;> decide +kernel

theorem isSymbol_else : IsSymbol "else" := by decide +kernel

theorem isSymbol_pick : IsSymbol "pick" := by decide +kernel

/-- A value is printed as a datum that can be spelled. -/
theorem Value.isLexical_toDatum : ∀ v : Value, v.toDatum.IsLexical
  | .bool b => isSymbol_truthWord b
  | .int _ => True.intro
  | .str _ => True.intro

namespace Expr

mutual

/-- A well-formed expression is printed as a datum that can be spelled. -/
theorem isLexical_toDatum : ∀ e : Expr, e.IsWellFormed → e.toDatum.IsLexical
  | .literal v, _ => v.isLexical_toDatum
  | .var _, h => IsName.toIsSymbol h
  | .compare op left right, h =>
    ⟨op.isSymbol_name, isLexical_toDatum left h.1, isLexical_toDatum right h.2, True.intro⟩
  | .connect op operands, h => ⟨op.isSymbol_name, areLexical_toData operands h.2.2⟩

theorem areLexical_toData : ∀ es : List Expr, AreWellFormed es → Datum.AreLexical (toData es)
  | [], _ => True.intro
  | e :: rest, h => ⟨isLexical_toDatum e h.1, areLexical_toData rest h.2⟩

end

end Expr

/-- A piece of a phrase is printed as a datum that can be spelled. -/
theorem PhrasePart.isLexical_toDatum (part : PhrasePart) : part.toDatum.IsLexical := by
  cases part with
  | run s => exact True.intro
  | pick alternatives =>
    refine ⟨isSymbol_pick, Datum.areLexical_iff.2 fun d hd => ?_⟩
    obtain ⟨s, -, rfl⟩ := List.mem_map.1 hd
    exact True.intro

theorem Phrase.areLexical_toData (phrase : Phrase) : Datum.AreLexical phrase.toData := by
  rw [Datum.areLexical_iff]
  intro d hd
  obtain ⟨part, -, rfl⟩ := List.mem_map.1 hd
  exact part.isLexical_toDatum

/-- A form can be spelled if its arguments can. -/
theorem Form.isLexical_toDatum (form : Form) {args : List Datum} (h : Datum.AreLexical args) :
    (form.toDatum args).IsLexical :=
  ⟨form.isSymbol_name, h⟩

theorem Test.isLexical_toDatum : ∀ t : Test, t.IsWellFormed → t.toDatum.IsLexical
  | .expr e, h => e.isLexical_toDatum h
  | .otherwise, _ => isSymbol_else

namespace Statement

/-- The arguments of an option can be spelled if its guard and its body can. -/
theorem areLexical_option {label : Phrase} {guard : Option Expr} {body : Datum}
    (hguard : ∀ e ∈ guard, e.IsWellFormed) (hbody : body.IsLexical) :
    Datum.AreLexical (label.toData ++ (guard.toList.map Expr.toDatum ++ [body])) := by
  simp only [Datum.areLexical_iff, List.mem_append, List.mem_map, List.mem_singleton]
  rintro d (hd | ⟨e, he, rfl⟩ | rfl)
  · exact Datum.areLexical_iff.1 label.areLexical_toData d hd
  · exact e.isLexical_toDatum (hguard e (Option.mem_toList.1 he))
  · exact hbody

mutual

/-- A well-formed statement is printed as a datum that can be spelled. The induction is over the
statement, its clauses and its bodies at once. -/
theorem isLexical_toDatum {inOption : Bool} : ∀ s : Statement, s.IsWellFormed inOption →
    s.toDatum.IsLexical
  | .cond clauses, h => Form.cond.isLexical_toDatum (areLexical_clausesToData clauses h.2)
  | .say text, _ => Form.say.isLexical_toDatum text.areLexical_toData
  | .option _ _ body, ⟨_, _, hguard, hbody⟩ =>
    Form.option.isLexical_toDatum (areLexical_option hguard (areLexical_toData body hbody))
  | .give _ message, _ => Form.give.isLexical_toDatum ⟨True.intro, message.areLexical_toData⟩
  | .offer _, _ => Form.offer.isLexical_toDatum ⟨True.intro, True.intro⟩
  | .spend _, _ => Form.spend.isLexical_toDatum ⟨True.intro, True.intro⟩
  | .assign _ value, h =>
    Form.assign.isLexical_toDatum ⟨h.1.toIsSymbol, value.isLexical_toDatum h.2, True.intro⟩
  | .finish none, _ => Form.finish.isLexical_toDatum True.intro
  | .finish (some message), _ => Form.finish.isLexical_toDatum message.areLexical_toData

theorem areLexical_toData {inOption : Bool} : ∀ body : List Statement,
    AreWellFormed inOption body → Datum.AreLexical (toData body)
  | [], _ => True.intro
  | s :: rest, h => ⟨isLexical_toDatum s h.1, areLexical_toData rest h.2⟩

theorem areLexical_clausesToData {inOption : Bool} : ∀ clauses : List Clause,
    Clause.AreWellFormed inOption clauses → Datum.AreLexical (clausesToData clauses)
  | [], _ => True.intro
  | .mk test body :: rest, ⟨_, htest, hbody, hrest⟩ =>
    ⟨⟨test.isLexical_toDatum htest, areLexical_toData body hbody, True.intro⟩,
      areLexical_clausesToData rest hrest⟩

end

end Statement

/-! ## The data lie nowhere -/

namespace Expr

mutual

/-- A printed expression carries no positions of its own. -/
theorem unplaced_toDatum : ∀ e : Expr, e.toDatum.unplaced = e.toDatum
  | .literal v => by cases v <;> rfl
  | .var _ => rfl
  | .compare _ left right => by
    rw [toDatum, Datum.unplaced_list, List.map_cons, List.map_cons, List.map_singleton,
      unplaced_toDatum left, unplaced_toDatum right]
    rfl
  | .connect _ operands => by
    rw [toDatum, Datum.unplaced_list, List.map_cons, unplaced_toData operands]
    rfl

theorem unplaced_toData : ∀ es : List Expr, (toData es).map Datum.unplaced = toData es
  | [] => rfl
  | e :: rest => by rw [toData, List.map_cons, unplaced_toDatum e, unplaced_toData rest]

end

end Expr

/-- A printed piece of a phrase carries no positions of its own. -/
theorem PhrasePart.unplaced_toDatum (part : PhrasePart) : part.toDatum.unplaced = part.toDatum := by
  cases part with
  | run s => rfl
  | pick alternatives =>
    rw [toDatum, Datum.unplaced_list, List.map_cons, List.map_map]
    rfl

theorem Phrase.unplaced_toData (phrase : Phrase) :
    phrase.toData.map Datum.unplaced = phrase.toData := by
  rw [toData, List.map_map]
  exact List.map_congr_left fun part _ => part.unplaced_toDatum

/-- A printed form carries no positions if its arguments carry none. -/
theorem Form.unplaced_toDatum (form : Form) {args : List Datum}
    (h : args.map Datum.unplaced = args) : (form.toDatum args).unplaced = form.toDatum args := by
  rw [toDatum, Datum.unplaced_list, List.map_cons, h]
  rfl

theorem Test.unplaced_toDatum : ∀ t : Test, t.toDatum.unplaced = t.toDatum
  | .expr e => e.unplaced_toDatum
  | .otherwise => rfl

namespace Statement

mutual

/-- A printed statement carries no positions of its own. -/
theorem unplaced_toDatum : ∀ s : Statement, s.toDatum.unplaced = s.toDatum
  | .cond clauses => Form.cond.unplaced_toDatum (unplaced_clausesToData clauses)
  | .say text => Form.say.unplaced_toDatum text.unplaced_toData
  | .option label guard body => by
    apply Form.option.unplaced_toDatum
    have hguard : (guard.toList.map Expr.toDatum).map Datum.unplaced =
        guard.toList.map Expr.toDatum := by
      rw [List.map_map]
      exact List.map_congr_left fun e _ => e.unplaced_toDatum
    rw [List.map_append, List.map_append, label.unplaced_toData, hguard, List.map_singleton,
      Datum.unplaced_list, unplaced_toData body]
  | .give _ message => by
    apply Form.give.unplaced_toDatum
    rw [List.map_cons, message.unplaced_toData]
    rfl
  | .offer _ => rfl
  | .spend _ => rfl
  | .assign _ value => by
    apply Form.assign.unplaced_toDatum
    rw [List.map_cons, List.map_singleton, value.unplaced_toDatum]
    rfl
  | .finish none => rfl
  | .finish (some message) => Form.finish.unplaced_toDatum message.unplaced_toData

theorem unplaced_toData : ∀ body : List Statement, (toData body).map Datum.unplaced = toData body
  | [] => rfl
  | s :: rest => by rw [toData, List.map_cons, unplaced_toDatum s, unplaced_toData rest]

theorem unplaced_clausesToData : ∀ clauses : List Clause,
    (clausesToData clauses).map Datum.unplaced = clausesToData clauses
  | [] => rfl
  | .mk test body :: rest => by
    rw [clausesToData, List.map_cons, Datum.unplaced_list, List.map_cons, List.map_singleton,
      test.unplaced_toDatum, Datum.unplaced_list, unplaced_toData body, unplaced_clausesToData rest]

end

end Statement

/-! ## Parsing the data -/

namespace Datum

variable {d : Datum} {name : String} {n : Int} {s : String} {items : List Datum}

/-- A datum that is a symbol but for its position is a symbol. The next three say the same of the
other kinds of data. -/
theorem eq_symbol_of_unplaced (h : d.unplaced = .symbol name default) : ∃ p, d = .symbol name p := by
  cases d with
  | symbol name' p => exact ⟨p, by rw [(symbol.inj h).1]⟩
  | _ => exact nomatch h

theorem eq_int_of_unplaced (h : d.unplaced = .int n default) : ∃ p, d = .int n p := by
  cases d with
  | int n' p => exact ⟨p, by rw [(int.inj h).1]⟩
  | _ => exact nomatch h

theorem eq_str_of_unplaced (h : d.unplaced = .str s default) : ∃ p, d = .str s p := by
  cases d with
  | str s' p => exact ⟨p, by rw [(str.inj h).1]⟩
  | _ => exact nomatch h

theorem eq_list_of_unplaced (h : d.unplaced = .list items default) :
    ∃ ds p, d = .list ds p ∧ ds.map unplaced = items := by
  cases d with
  | list ds p =>
    rw [unplaced_list] at h
    exact ⟨ds, p, rfl, (list.inj h).1⟩
  | _ => exact nomatch h

/-- A list headed by a symbol, as all forms and operations are. -/
theorem eq_headed_of_unplaced (h : d.unplaced = .list (.symbol name default :: items) default) :
    ∃ q ds p, d = .list (.symbol name q :: ds) p ∧ ds.map unplaced = items := by
  obtain ⟨ds, p, rfl, hds⟩ := eq_list_of_unplaced h
  obtain ⟨head, args, rfl, hhead, hargs⟩ := List.map_eq_cons_iff.1 hds
  obtain ⟨q, rfl⟩ := eq_symbol_of_unplaced hhead
  exact ⟨q, args, p, rfl, hargs⟩

end Datum

namespace Expr

/-- No connective is taken for a comparison. -/
theorem ofName?_connective (op : Connective) : Comparison.ofName? op.name = none := by
  cases op <;> rfl

theorem length_toData (es : List Expr) : (toData es).length = es.length := by
  induction es with
  | nil => rfl
  | cons e rest ih => rw [toData, List.length_cons, ih, List.length_cons]

/-- A symbol that can name a variable is read as this variable. -/
theorem ofSymbol_of_isName {name : String} (h : IsName name) (p : Position) :
    ofSymbol name p = .ok (.var name) := by
  rw [ofSymbol, h.notTruth, h.notReserved]
  rfl

/-- A printed value is read back, wherever it stands. -/
theorem ofDatum_value {v : Value} {d : Datum} (hd : d.unplaced = v.toDatum) :
    ofDatum d = .ok (.literal v) := by
  cases v with
  | bool b =>
    obtain ⟨p, rfl⟩ := Datum.eq_symbol_of_unplaced hd
    rw [ofDatum, ofSymbol, truthWord?_truthWord]
  | int n =>
    obtain ⟨p, rfl⟩ := Datum.eq_int_of_unplaced hd
    rw [ofDatum]
  | str s =>
    obtain ⟨p, rfl⟩ := Datum.eq_str_of_unplaced hd
    rw [ofDatum]

mutual

/-- A datum that is the one of a well-formed expression but for its positions writes it. -/
theorem ofDatum_eq : ∀ (e : Expr) (d : Datum), e.IsWellFormed → d.unplaced = e.toDatum →
    ofDatum d = .ok e
  | .literal v, d, _, hd => ofDatum_value hd
  | .var name, d, h, hd => by
    obtain ⟨p, rfl⟩ := Datum.eq_symbol_of_unplaced hd
    rw [ofDatum]
    exact ofSymbol_of_isName h p
  | .compare op left right, d, ⟨hleft, hright⟩, hd => by
    obtain ⟨q, args, p, rfl, hargs⟩ := Datum.eq_headed_of_unplaced hd
    obtain ⟨l, rest, rfl, hl, hrest⟩ := List.map_eq_cons_iff.1 hargs
    obtain ⟨r, rfl, hr⟩ := List.map_eq_singleton_iff.1 hrest
    rw [ofDatum, Comparison.ofName?_name]
    simp only [ofDatum_eq left l hleft hl, ofDatum_eq right r hright hr]
    rfl
  | .connect op operands, d, ⟨hsome, hnot, hoperands⟩, hd => by
    obtain ⟨q, args, p, rfl, hargs⟩ := Datum.eq_headed_of_unplaced hd
    have hlength : args.length = operands.length := by
      rw [← length_toData operands, ← hargs, List.length_map]
    have hempty : ¬ args.isEmpty = true := fun hnil =>
      hsome (List.eq_nil_of_length_eq_zero
        (hlength ▸ List.isEmpty_iff_length_eq_zero.1 hnil))
    rw [ofDatum, ofName?_connective, Connective.ofName?_name]
    dsimp only
    rw [if_neg fun hop => hop.2 (hlength.trans (hnot hop.1)), if_neg hempty,
      ofData_eq operands args hoperands hargs]
    rfl

/-- Printed operands are read back in their order. -/
theorem ofData_eq : ∀ (es : List Expr) (ds : List Datum), AreWellFormed es →
    ds.map Datum.unplaced = toData es → ofData ds = .ok es
  | [], ds, _, hds => by
    rw [List.map_eq_nil_iff.1 hds, ofData]
  | e :: rest, ds, ⟨he, hrest⟩, hds => by
    obtain ⟨d, tail, rfl, hd, htail⟩ := List.map_eq_cons_iff.1 hds
    rw [ofData, ofDatum_eq e d he hd, ofData_eq rest tail hrest htail]
    rfl

end

end Expr

namespace PhrasePart

/-- Printed alternatives are read back in their order. -/
theorem alternatives_eq : ∀ (texts : List String) (ds : List Datum),
    ds.map Datum.unplaced = texts.map (Datum.str · default) → alternatives ds = .ok texts
  | [], ds, hds => by
    rw [List.map_eq_nil_iff.1 hds, alternatives]
  | text :: rest, ds, hds => by
    obtain ⟨d, tail, rfl, hd, htail⟩ := List.map_eq_cons_iff.1 hds
    obtain ⟨p, rfl⟩ := Datum.eq_str_of_unplaced hd
    rw [alternatives, alternatives_eq rest tail htail]
    rfl

/-- A datum that is the one of a part of a text but for its positions writes it. -/
theorem ofDatum_eq {part : PhrasePart} {d : Datum} (h : part.IsWellFormed)
    (hd : d.unplaced = part.toDatum) : ofDatum d = .ok part := by
  cases part with
  | run text =>
    obtain ⟨p, rfl⟩ := Datum.eq_str_of_unplaced hd
    rw [ofDatum]
  | pick texts =>
    obtain ⟨q, args, p, rfl, hargs⟩ := Datum.eq_headed_of_unplaced hd
    have hempty : ¬ args.isEmpty = true := by
      intro hnil
      rw [List.isEmpty_iff.1 hnil] at hargs
      exact h (List.map_eq_nil_iff.1 hargs.symm)
    rw [ofDatum, if_neg hempty, alternatives_eq texts args hargs]
    rfl

end PhrasePart

namespace Phrase

/-- A printed phrase is read back from the arguments of its form. -/
theorem ofData_eq : ∀ (phrase : Phrase) (ds : List Datum), phrase.IsWellFormed →
    ds.map Datum.unplaced = phrase.toData → ofData ds = .ok phrase
  | [], ds, _, hds => by
    rw [List.map_eq_nil_iff.1 hds, ofData]
  | part :: rest, ds, h, hds => by
    obtain ⟨d, tail, rfl, hd, htail⟩ := List.map_eq_cons_iff.1 hds
    obtain ⟨hpart, hrest⟩ := List.forall_mem_cons.1 h
    rw [ofData, PhrasePart.ofDatum_eq hpart hd, ofData_eq rest tail hrest htail]
    rfl

/-- A text of one part is written by one datum. -/
theorem ofDatum_eq {phrase : Phrase} (h : phrase.IsSingle) {ds rest : List Datum}
    (hds : ds.map Datum.unplaced = phrase.toData ++ rest) :
    ∃ d tail, ds = d :: tail ∧ ofDatum d = .ok phrase ∧ tail.map Datum.unplaced = rest := by
  obtain ⟨part, rfl, hpart⟩ := h
  obtain ⟨d, tail, rfl, hd, htail⟩ := List.map_eq_cons_iff.1 hds
  exact ⟨d, tail, rfl, by rw [ofDatum, PhrasePart.ofDatum_eq hpart hd]; rfl, htail⟩

end Phrase

namespace Statement

/-- A printed item is read back. -/
theorem itemOfDatum_eq {item : String} (h : item ≠ "") {d : Datum}
    (hd : d.unplaced = .str item default) : itemOfDatum d = .ok item := by
  obtain ⟨p, rfl⟩ := Datum.eq_str_of_unplaced hd
  rw [itemOfDatum, if_neg h]

/-- A printed target of an assignment is read back. -/
theorem targetOfDatum_eq {name : String} (h : IsName name) {d : Datum}
    (hd : d.unplaced = .symbol name default) : targetOfDatum d = .ok name := by
  obtain ⟨p, rfl⟩ := Datum.eq_symbol_of_unplaced hd
  rw [targetOfDatum, h.notReserved, h.notTruth]
  rfl

/-- A printed amount is read back. -/
theorem amountOfDatum_eq {amount : Nat} {d : Datum} (hd : d.unplaced = .int amount default) :
    amountOfDatum d = .ok amount := by
  obtain ⟨p, rfl⟩ := Datum.eq_int_of_unplaced hd
  rfl

/-- No expression is written like the catch-all. -/
theorem toDatum_ne_else {e : Expr} (h : e.IsWellFormed) :
    e.toDatum ≠ .symbol "else" default := by
  intro helse
  cases e with
  | literal v =>
    cases v with
    | bool b => cases b <;> exact absurd (Datum.symbol.inj helse).1 (by decide)
    | _ => exact nomatch helse
  | var name =>
    have hreserved := IsName.notReserved h
    rw [(Datum.symbol.inj helse).1] at hreserved
    exact absurd hreserved (by decide)
  | _ => exact nomatch helse

/-- A printed test is read back. The word of the last clause is only one at the end. -/
theorem testOfDatum_eq {t : Test} (h : t.IsWellFormed) {isLast : Bool}
    (hlast : t = .otherwise → isLast = true) {d : Datum} (hd : d.unplaced = t.toDatum) :
    testOfDatum isLast d = .ok t := by
  cases t with
  | otherwise =>
    obtain ⟨p, rfl⟩ := Datum.eq_symbol_of_unplaced hd
    rw [testOfDatum, hlast rfl]
    rfl
  | expr e =>
    rw [testOfDatum.eq_def]
    split
    · exact absurd hd.symm (toDatum_ne_else h)
    · rw [Expr.ofDatum_eq e d h hd]
      rfl

/-! ### Statements and bodies -/

/-- Every statement is written as a form. -/
theorem exists_form (s : Statement) : ∃ form args, s.toDatum = Form.toDatum form args := by
  cases s <;> exact ⟨_, _, rfl⟩

/-- What is written as a form is a list headed by its word. -/
theorem ofDatum_form {form : Form} {args : List Datum} {d : Datum}
    (hd : d.unplaced = form.toDatum args) :
    ∃ q ds p, d = .list (.symbol form.name q :: ds) p ∧ ds.map Datum.unplaced = args ∧
      ∀ inOption, ofDatum inOption d = ofItems inOption (.symbol form.name q :: ds) p := by
  obtain ⟨q, ds, p, rfl, hds⟩ := Datum.eq_headed_of_unplaced hd
  refine ⟨q, ds, p, rfl, hds, fun inOption => ?_⟩
  rw [ofDatum.eq_def]

/-- A form that holds no other statements is what its arguments write. -/
theorem ofItems_simple {form : Form} (hcond : form ≠ .cond) (hoption : form ≠ .option)
    (inOption : Bool) (q : Position) (args : List Datum) (p : Position) :
    ofItems inOption (.symbol form.name q :: args) p = ofSimpleForm form args p := by
  rw [ofItems.eq_def]
  dsimp only
  rw [Form.ofName?_name]
  cases form with
  | cond => exact absurd rfl hcond
  | option => exact absurd rfl hoption
  | _ => rfl

/-- A statement of a simple form. -/
theorem ofDatum_simple (form : Form) (hcond : form ≠ .cond) (hoption : form ≠ .option)
    {args : List Datum} {d : Datum} (hd : d.unplaced = form.toDatum args) (inOption : Bool) :
    ∃ ds p, ds.map Datum.unplaced = args ∧ ofDatum inOption d = ofSimpleForm form ds p := by
  obtain ⟨q, ds, p, -, hds, hform⟩ := ofDatum_form hd
  exact ⟨ds, p, hds, (hform inOption).trans (ofItems_simple hcond hoption inOption q ds p)⟩

/-- A line with arguments is read as the phrase that they make. -/
theorem ofSimpleForm_say {args : List Datum} (h : args ≠ []) (p : Position) :
    ofSimpleForm .say args p = (Phrase.ofData args).map .say := by
  cases args with
  | nil => exact absurd rfl h
  | cons d rest => rfl

/-- A conditional with clauses is read clause by clause. -/
theorem ofItems_cond (inOption : Bool) (q : Position) {args : List Datum} (h : args ≠ [])
    (p : Position) :
    ofItems inOption (.symbol Form.cond.name q :: args) p =
      (clausesOfData inOption args).map .cond := by
  rw [ofItems.eq_def]
  dsimp only
  rw [Form.ofName?_name]
  exact if_neg fun hempty => h (List.isEmpty_iff.1 hempty)

/-- An option of two arguments has no guard. -/
theorem ofItems_option (q : Position) (label body : Datum) (p : Position) :
    ofItems false [.symbol Form.option.name q, label, body] p = (do
      let label ← Phrase.ofDatum label
      let body ← bodyOfDatum true body
      .ok (.option label none body)) := by
  rw [ofItems.eq_def]
  dsimp only
  rw [Form.ofName?_name]
  rfl

/-- An option of three arguments has its guard between label and body. The guard is read first. -/
theorem ofItems_guardedOption (q : Position) (label guard body : Datum) (p : Position) :
    ofItems false [.symbol Form.option.name q, label, guard, body] p = (do
      let guard ← Expr.ofDatum guard
      let label ← Phrase.ofDatum label
      let body ← bodyOfDatum true body
      .ok (.option label (some guard) body)) := by
  rw [ofItems.eq_def]
  dsimp only
  rw [Form.ofName?_name]
  rfl

theorem map_ne_nil_of_ne_nil {α β : Type} {f : α → β} {xs : List α} {ys : List β}
    (h : xs.map f = ys) (hne : ys ≠ []) : xs ≠ [] := by
  rintro rfl
  exact hne h.symm

mutual

/-- A datum that is the one of a well-formed statement but for its positions writes it. -/
theorem ofDatum_eq : ∀ (s : Statement) (inOption : Bool) (d : Datum), s.IsWellFormed inOption →
    d.unplaced = s.toDatum → ofDatum inOption d = .ok s
  | .cond clauses, inOption, d, ⟨hsome, h⟩, hd => by
    obtain ⟨q, args, p, -, hargs, hform⟩ := ofDatum_form hd
    have hne : args ≠ [] := by
      apply map_ne_nil_of_ne_nil hargs
      cases clauses with
      | nil => exact absurd rfl hsome
      | cons c rest => cases c; exact List.cons_ne_nil _ _
    rw [hform, ofItems_cond inOption q hne, clausesOfData_eq clauses inOption args h hargs]
    rfl
  | .say text, inOption, d, ⟨hsome, h⟩, hd => by
    obtain ⟨args, p, hargs, hform⟩ := ofDatum_simple .say nofun nofun hd inOption
    have hne : args ≠ [] := by
      apply map_ne_nil_of_ne_nil hargs
      exact fun hnil => hsome (List.map_eq_nil_iff.1 hnil)
    rw [hform, ofSimpleForm_say hne, Phrase.ofData_eq text args h hargs]
    rfl
  | .option label guard body, inOption, d, ⟨houtside, hlabel, hguard, hbody⟩, hd => by
    obtain ⟨q, args, p, -, hargs, hform⟩ := ofDatum_form hd
    obtain ⟨l, tail, rfl, hl, htail⟩ := Phrase.ofDatum_eq hlabel hargs
    rw [hform, houtside]
    cases guard with
    | none =>
      obtain ⟨b, rfl, hb⟩ := List.map_eq_singleton_iff.1 htail
      rw [ofItems_option, hl, bodyOfDatum_eq body true b hbody hb]
      rfl
    | some e =>
      obtain ⟨g, rest, rfl, hg, hrest⟩ := List.map_eq_cons_iff.1 htail
      obtain ⟨b, rfl, hb⟩ := List.map_eq_singleton_iff.1 hrest
      rw [ofItems_guardedOption, hl, Expr.ofDatum_eq e g (hguard e rfl) hg,
        bodyOfDatum_eq body true b hbody hb]
      rfl
  | .give item message, inOption, d, ⟨hitem, hmessage⟩, hd => by
    obtain ⟨args, p, hargs, hform⟩ := ofDatum_simple .give nofun nofun hd inOption
    obtain ⟨i, rest, rfl, hi, hrest⟩ := List.map_eq_cons_iff.1 hargs
    rw [← List.append_nil message.toData] at hrest
    obtain ⟨m, tail, rfl, hm, htail⟩ := Phrase.ofDatum_eq hmessage hrest
    rw [List.map_eq_nil_iff.1 htail] at hform
    rw [hform, ofSimpleForm, itemOfDatum_eq hitem hi, hm]
    rfl
  | .offer item, inOption, d, h, hd => by
    obtain ⟨args, p, hargs, hform⟩ := ofDatum_simple .offer nofun nofun hd inOption
    obtain ⟨i, rfl, hi⟩ := List.map_eq_singleton_iff.1 hargs
    rw [hform, ofSimpleForm, itemOfDatum_eq h hi]
    rfl
  | .spend amount, inOption, d, _, hd => by
    obtain ⟨args, p, hargs, hform⟩ := ofDatum_simple .spend nofun nofun hd inOption
    obtain ⟨a, rfl, ha⟩ := List.map_eq_singleton_iff.1 hargs
    rw [hform, ofSimpleForm, amountOfDatum_eq ha]
    rfl
  | .assign name value, inOption, d, ⟨hname, hvalue⟩, hd => by
    obtain ⟨args, p, hargs, hform⟩ := ofDatum_simple .assign nofun nofun hd inOption
    obtain ⟨n, rest, rfl, hn, hrest⟩ := List.map_eq_cons_iff.1 hargs
    obtain ⟨v, rfl, hv⟩ := List.map_eq_singleton_iff.1 hrest
    rw [hform, ofSimpleForm, targetOfDatum_eq hname hn, Expr.ofDatum_eq value v hvalue hv]
    rfl
  | .finish none, inOption, d, _, hd => by
    obtain ⟨args, p, hargs, hform⟩ := ofDatum_simple .finish nofun nofun hd inOption
    rw [hform, List.map_eq_nil_iff.1 hargs, ofSimpleForm]
  | .finish (some message), inOption, d, h, hd => by
    obtain ⟨args, p, hargs, hform⟩ := ofDatum_simple .finish nofun nofun hd inOption
    replace hargs : args.map Datum.unplaced = message.toData ++ [] := by
      rw [List.append_nil]
      exact hargs
    obtain ⟨m, tail, rfl, hm, htail⟩ := Phrase.ofDatum_eq (h message rfl) hargs
    rw [List.map_eq_nil_iff.1 htail] at hform
    rw [hform, ofSimpleForm, hm]
    rfl

/-- A printed body is read back statement by statement. -/
theorem ofData_eq : ∀ (body : List Statement) (inOption : Bool) (ds : List Datum),
    AreWellFormed inOption body → ds.map Datum.unplaced = toData body →
    ofData inOption ds = .ok body
  | [], inOption, ds, _, hds => by
    rw [List.map_eq_nil_iff.1 hds, ofData]
  | s :: rest, inOption, ds, ⟨hs, hrest⟩, hds => by
    obtain ⟨d, tail, rfl, hd, htail⟩ := List.map_eq_cons_iff.1 hds
    rw [ofData, ofDatum_eq s inOption d hs hd, ofData_eq rest inOption tail hrest htail]
    rfl

/-- A list of the statements of a body is read as that body, also if there is one of them or none. -/
theorem bodyOfDatum_eq : ∀ (body : List Statement) (inOption : Bool) (d : Datum),
    AreWellFormed inOption body → d.unplaced = .list (toData body) default →
    bodyOfDatum inOption d = .ok body
  | [], inOption, d, _, hd => by
    obtain ⟨ds, p, rfl, hds⟩ := Datum.eq_list_of_unplaced hd
    rw [List.map_eq_nil_iff.1 hds, bodyOfDatum]
  | s :: rest, inOption, d, ⟨hs, hrest⟩, hd => by
    obtain ⟨ds, p, rfl, hds⟩ := Datum.eq_list_of_unplaced hd
    obtain ⟨first, tail, rfl, hfirst, htail⟩ := List.map_eq_cons_iff.1 hds
    -- A statement is a list, which tells the list of statements from a single one.
    obtain ⟨form, args, hform⟩ := exists_form s
    obtain ⟨q, items, p', rfl, -, -⟩ := ofDatum_form (hfirst.trans hform)
    rw [bodyOfDatum, ofDatum_eq s inOption _ hs hfirst, ofData_eq rest inOption tail hrest htail]
    rfl

/-- Printed clauses are read back in their order. -/
theorem clausesOfData_eq : ∀ (clauses : List Clause) (inOption : Bool) (ds : List Datum),
    Clause.AreWellFormed inOption clauses → ds.map Datum.unplaced = clausesToData clauses →
    clausesOfData inOption ds = .ok clauses
  | [], inOption, ds, _, hds => by
    rw [List.map_eq_nil_iff.1 hds, clausesOfData]
  | .mk test body :: rest, inOption, ds, ⟨hlast, htest, hbody, hrest⟩, hds => by
    obtain ⟨d, tail, rfl, hd, htail⟩ := List.map_eq_cons_iff.1 hds
    obtain ⟨pair, p, rfl, hpair⟩ := Datum.eq_list_of_unplaced hd
    obtain ⟨t, bs, rfl, ht, hbs⟩ := List.map_eq_cons_iff.1 hpair
    obtain ⟨b, rfl, hb⟩ := List.map_eq_singleton_iff.1 hbs
    have hend : test = .otherwise → tail.isEmpty = true := by
      intro hotherwise
      rw [hlast hotherwise] at htail
      exact List.isEmpty_iff.2 (List.map_eq_nil_iff.1 htail)
    rw [clausesOfData, testOfDatum_eq htest hend ht, bodyOfDatum_eq body inOption b hbody hb,
      clausesOfData_eq rest inOption tail hrest htail]
    rfl

end

/-- A single form is read as the body of one statement. -/
theorem bodyOfDatum_single {s : Statement} {d : Datum} (h : s.IsWellFormed false)
    (hd : d.unplaced = s.toDatum) : bodyOfDatum false d = .ok [s] := by
  obtain ⟨form, args, hform⟩ := exists_form s
  obtain ⟨q, items, p, rfl, -, hitems⟩ := ofDatum_form (hd.trans hform)
  rw [bodyOfDatum.eq_def]
  dsimp only
  rw [← hitems false, ofDatum_eq s false _ h hd]
  rfl

/-- The data at the top of a printed script are read back as one body. -/
theorem ofBodies_eq : ∀ (body : List Statement) (ds : List Datum), AreWellFormed false body →
    ds.map Datum.unplaced = toData body → ofBodies ds = .ok body
  | [], ds, _, hds => by
    rw [List.map_eq_nil_iff.1 hds, ofBodies]
  | s :: rest, ds, ⟨hs, hrest⟩, hds => by
    obtain ⟨d, tail, rfl, hd, htail⟩ := List.map_eq_cons_iff.1 hds
    rw [ofBodies, bodyOfDatum_single hs hd, ofBodies_eq rest tail hrest htail]
    rfl

end Statement

namespace Script

/-- The text of a body: its statements one after the other. -/
def print (body : List Statement) : String :=
  String.ofList (Datum.writeAll (Statement.toData body))

/-- The text of a body as a list of its statements. -/
def printList (body : List Statement) : String :=
  String.ofList (Datum.write (.list (Statement.toData body) default))

variable {body : List Statement} {limits : Limits}

/-- A well-formed body is parsed from its printed text, if its integers are short and its nesting
fits the reader. -/
theorem parseBody_print (h : Statement.AreWellFormed false body)
    (hshort : Datum.AreShort (Statement.toData body))
    (hdepth : Datum.depthAll (Statement.toData body) ≤ limits.lists) :
    parseBody (print body) limits = .ok body := by
  obtain ⟨data, hread, hdata⟩ :=
    Datum.read_writeAll (Statement.areLexical_toData body h) hshort hdepth
  rw [Statement.unplaced_toData] at hdata
  rw [parseBody, print, hread]
  exact Statement.ofBodies_eq body data h hdata

/-- The same for the text that wraps the body in one list, which is one level deeper. -/
theorem parseBody_printList (h : Statement.AreWellFormed false body)
    (hshort : Datum.AreShort (Statement.toData body))
    (hdepth : Datum.depthAll (Statement.toData body) < limits.lists) :
    parseBody (printList body) limits = .ok body := by
  have hlexical : Datum.AreLexical [.list (Statement.toData body) default] :=
    ⟨Statement.areLexical_toData body h, True.intro⟩
  have hlist : Datum.depthAll [.list (Statement.toData body) default] ≤ limits.lists :=
    Nat.max_le.mpr ⟨hdepth, Nat.zero_le _⟩
  obtain ⟨data, hread, hdata⟩ := Datum.read_writeAll hlexical ⟨hshort, True.intro⟩ hlist
  obtain ⟨d, rfl, hd⟩ := List.map_eq_singleton_iff.1 hdata
  rw [Datum.unplaced_list, Statement.unplaced_toData] at hd
  rw [parseBody, printList, ← Datum.writeAll, hread]
  show Statement.ofBodies [d] = _
  rw [Statement.ofBodies, Statement.bodyOfDatum_eq body false d h hd, Statement.ofBodies]
  show Except.ok (body ++ []) = _
  rw [List.append_nil]

/-- A script is parsed from a text as its body is. -/
theorem parse_of_parseBody {text : String} (h : parseBody text limits = .ok body)
    (archetype source : String) :
    parse text archetype source limits = .ok ⟨archetype, body, source, none⟩ := by
  rw [parse, h]

/-- Every well-formed body whose integers have few enough digits is what its text says, be it printed as
statements one after the other or as one list of them, if there is room for the lists of that text. -/
theorem parse_print (h : Statement.AreWellFormed false body)
    (hshort : Datum.AreShort (Statement.toData body)) (archetype source : String) (limits : Limits) :
    (Datum.depthAll (Statement.toData body) ≤ limits.lists →
      parse (print body) archetype source limits = .ok ⟨archetype, body, source, none⟩) ∧
    (Datum.depthAll (Statement.toData body) < limits.lists →
      parse (printList body) archetype source limits = .ok ⟨archetype, body, source, none⟩) :=
  ⟨fun hdepth => parse_of_parseBody (parseBody_print h hshort hdepth) archetype source,
    fun hdepth => parse_of_parseBody (parseBody_printList h hshort hdepth) archetype source⟩

/-- A charge of too many digits is refused where its amount stands. -/
theorem parseBody_spend {amount : Nat} (hlong : Text.isOverlong (Text.ofInt amount) = true) :
    parseBody (print [.spend amount]) = .error ⟨⟨1, 8⟩, .tooManyDigits⟩ := by
  have hnumeral : Text.IsNumeral (Text.ofInt amount) :=
    Text.isNumeral_iff.mpr ⟨_, Text.spells_ofInt _⟩
  have hprint : print [.spend amount] = String.ofList (priceText (Text.ofInt amount)) := rfl
  rw [parseBody, hprint, Datum.read_priceText hnumeral hlong]
  rfl

/-- Hence not every well-formed body is what its text says. -/
theorem print_fails_of_large_amount : Statement.AreWellFormed false [.spend Text.largeNumber] ∧
    parse (print [.spend Text.largeNumber]) "toll" =
      .error ⟨"<string>", some ⟨1, 8⟩, .tooManyDigits⟩ := by
  refine ⟨⟨True.intro, True.intro⟩, ?_⟩
  rw [parse, parseBody_spend Text.isOverlong_ofInt_largeNumber]
  rfl

/-- A toll keeper asks for two coins once. -/
def tollBody : List Statement :=
  [.cond
    [.mk (.expr (.connect .not [.var "paid"])) [.say [.pick ["Halt.", "Hm?"], .run " \"Two\" coins."]],
      .mk .otherwise []],
    .option [.run "Pay"] (some (.compare .gt (.var "coins") (.literal (.int (-1)))))
      [.spend 2, .assign "paid" (.literal (.bool true)), .offer "oar", .finish none]]

example : print tollBody =
    "(cond ((not paid) ((say (pick \"Halt.\" \"Hm?\") \" \\\"Two\\\" coins.\"))) (else ())) " ++
      "(option \"Pay\" (> coins -1) ((spend 2) (set paid true) (offer \"oar\") (end)))" := by
  decide +kernel

theorem parse_print_toll : Statement.AreWellFormed false tollBody ∧
    Datum.AreShort (Statement.toData tollBody) ∧
    Datum.depthAll (Statement.toData tollBody) < Limits.standard.lists ∧
    parse (print tollBody) "toll" = .ok ⟨"toll", tollBody, "<string>", none⟩ ∧
    parse (printList tollBody) "toll" = .ok ⟨"toll", tollBody, "<string>", none⟩ := by
  have hpaid : IsName "paid" := by decide +kernel
  have hcoins : IsName "coins" := by decide +kernel
  have hbody : Statement.AreWellFormed false tollBody := by
    simp [tollBody, Statement.AreWellFormed, Statement.IsWellFormed, Clause.AreWellFormed,
      Test.IsWellFormed, Expr.IsWellFormed, Expr.AreWellFormed, Phrase.IsWellFormed,
      Phrase.IsSingle, PhrasePart.IsWellFormed, hpaid, hcoins]
  have hshort : Datum.AreShort (Statement.toData tollBody) := by decide +kernel
  have hdepth : Datum.depthAll (Statement.toData tollBody) < Limits.standard.lists := by
    decide +kernel
  obtain ⟨hprint, hprintList⟩ := parse_print hbody hshort "toll" "<string>" .standard
  exact ⟨hbody, hshort, hdepth, hprint (Nat.le_of_lt hdepth), hprintList hdepth⟩

end Script

end Parley
