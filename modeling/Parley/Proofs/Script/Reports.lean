import Parley.Proofs.Script.Balance
import Parley.Proofs.Script.Positions
import Parley.Proofs.Script.WellFormed

/-!
# Reports of Defective Scripts

A text that can be read and is no script is reported at a place inside its first bad form: at a datum
that stands there in the text, be it the form itself or one nested in it.

* `Scanner.placed_scan`: the scanner takes up every datum with the place where it starts in the text;
* `Datum.startsIn_of_read`: so do all data of a text, at every depth;
* `Statement.ofBodies_eq_error`: the first of several data that writes no body is the one to blame;
* `Script.parse_error_placed`: a report blames a part of that datum, where that part starts.
-/

namespace Parley

namespace Datum

/-- Whether a datum can start with a character. -/
def CanStart : Datum → Char → Prop
  | .list _ _, x => x = '('
  | .str _ _, x => x = '"'
  | .int _ _, x => Cursor.isWordChar x = true
  | .symbol _ _, x => Cursor.isWordChar x = true

/-- A datum starts in a text at its position. -/
def StartsIn (text : List Char) (d : Datum) : Prop :=
  ∃ before x after, text = before ++ x :: after ∧ d.position = Position.behind before ∧ d.CanStart x

/-- A datum still starts in a text that goes on. -/
theorem StartsIn.append {text : List Char} {d : Datum} (h : d.StartsIn text) (more : List Char) :
    d.StartsIn (text ++ more) := by
  obtain ⟨before, x, after, rfl, hd⟩ := h
  exact ⟨before, x, after ++ more, by simp, hd⟩

/-- All data in a datum start in a text at their positions. -/
def ArePlaced (text : List Char) (d : Datum) : Prop :=
  ∀ x ∈ d.parts, x.StartsIn text

variable {text : List Char}

/-- A word is placed if the text has a word character at its position. -/
theorem arePlaced_ofWord {word : List Char} {p : Position} {before after : List Char} {x : Char}
    (htext : text = before ++ x :: after) (hp : p = Position.behind before)
    (hx : Cursor.isWordChar x = true) : (ofWord word p).ArePlaced text := by
  unfold ofWord
  split
  · exact List.forall_mem_singleton.mpr ⟨before, x, after, htext, hp, hx⟩
  · exact List.forall_mem_singleton.mpr ⟨before, x, after, htext, hp, hx⟩

/-- The parts of several data are the parts of each of them. -/
theorem mem_partsAll {x : Datum} {ds : List Datum} : x ∈ partsAll ds ↔ ∃ d ∈ ds, x ∈ d.parts := by
  induction ds with
  | nil => simp [partsAll]
  | cons d rest ih => simp [partsAll, ih]

/-- A list is placed if its items are and it starts at a parenthesis of the text. -/
theorem arePlaced_list {ds : List Datum} {p : Position} (hds : ∀ d ∈ ds, d.ArePlaced text)
    (hlist : (list ds p).StartsIn text) : (list ds p).ArePlaced text := by
  rw [ArePlaced, parts, List.forall_mem_cons]
  refine ⟨hlist, fun x hx => ?_⟩
  obtain ⟨d, hd, hx⟩ := mem_partsAll.mp hx
  exact hds d hd x hx

end Datum

namespace Scanner

/-- A word that a scanner is in and all data that it holds start in the text before it. -/
structure Placed (before : List Char) (s : Scanner) : Prop where
  word : ∀ p done, s.mode = .word p done → ∃ outer x inside,
    before = outer ++ x :: inside ∧ p = Position.behind outer ∧ Cursor.isWordChar x = true
  held : s.AllHeld (Datum.ArePlaced before)

variable {limits : Limits} {before : List Char} {s t : Scanner}

/-- The word being read is placed. -/
theorem Placed.arePlaced_ofWord (hs : Placed before s) (p : Position) (done : List Char)
    (hmode : s.mode = .word p done) : (Datum.ofWord done.reverse p).ArePlaced before := by
  obtain ⟨outer, x, inside, hbefore, hp, hx⟩ := hs.word p done hmode
  exact Datum.arePlaced_ofWord hbefore hp hx

/-- The string being read is placed at its opening quote. -/
theorem Located.arePlaced_str (hs : Located limits before s) (p : Position) (done : List Char)
    (hmode : s.mode = .string p done) :
    (Datum.str (String.ofList done.reverse) p).ArePlaced before := by
  have hquote : s.mode.quote? = some p := by rw [hmode]; rfl
  obtain ⟨outer, inside, hbefore, hp⟩ := hs.strings p hquote
  exact List.forall_mem_singleton.mpr ⟨outer, '"', inside, hbefore, hp, rfl⟩

/-- A list that is closed is placed at its opening parenthesis. -/
theorem Located.arePlaced_list (hs : Located limits before s) (ds : List Datum) (p : Position)
    (hds : ∀ d ∈ ds, d.ArePlaced before) (hp : p ∈ s.starts) :
    (Datum.list ds p).ArePlaced before := by
  obtain ⟨outer, inside, hbefore, hp⟩ := hs.lists p hp
  exact Datum.arePlaced_list hds ⟨outer, '(', inside, hbefore, hp, rfl⟩

/-- Taking one character keeps the data placed in what was read. -/
theorem placed_take (hlocated : Located limits before s) (hs : Placed before s) (x : Char) :
    Gives (Placed (before ++ [x])) (s.take x) := by
  have hheld := hs.held.take hs.arePlaced_ofWord hlocated.arePlaced_str hlocated.arePlaced_list x
  refine ((word_take s x).and hheld).imp fun t ⟨hword, ht⟩ => ⟨fun p done hmode => ?_, ?_⟩
  · obtain ⟨hx, ⟨rfl, -, -⟩ | ⟨earlier, hearlier, -⟩⟩ := hword p done hmode
    · exact ⟨before, x, [], rfl, hlocated.position, hx⟩
    · obtain ⟨outer, y, inside, rfl, hp, hy⟩ := hs.word p earlier hearlier
      exact ⟨outer, y, inside ++ [x], by simp, hp, hy⟩
  · exact ht.imp fun d hd y hy => (hd y hy).append [x]

theorem placed_step {x : Char} (hlocated : Located limits before s) (hs : Placed before s)
    (h : s.step x = .ok t) : Placed (before ++ [x]) t := by
  have hstep : Gives (Placed (before ++ [x])) (s.step x) :=
    (placed_take hlocated hs x).map fun u hu => ⟨hu.word, hu.held.items, hu.held.data⟩
  exact hstep.of_eq_ok h

/-- All that was read from a text is placed in it. -/
theorem placed_scan {text : List Char} (h : (start limits).scan text = .ok t) : Placed text t := by
  have hstart : Located limits [] (start limits) ∧ Placed [] (start limits) :=
    ⟨located_scan rfl, nofun, fun _ hl => absurd hl List.not_mem_nil,
      fun _ hd => absurd hd List.not_mem_nil⟩
  have hstep : ∀ before x s t, Located limits before s ∧ Placed before s → s.step x = .ok t →
      Located limits (before ++ [x]) t ∧ Placed (before ++ [x]) t :=
    fun _ _ _ _ ⟨hlocated, hs⟩ hx => ⟨located_step hlocated hx, placed_step hlocated hs hx⟩
  exact (scan_induction hstart hstep h).2

end Scanner

/-- Every datum of a text, at every depth, starts in the text at its position. -/
theorem Datum.startsIn_of_read {text : String} {limits : Limits} {data : List Datum}
    (h : read text limits = .ok data) : ∀ d ∈ data, ∀ x ∈ d.parts, x.StartsIn text.toList := by
  rw [Scanner.read_eq, Scanner.read, Scanner.run_eq_ok] at h
  obtain ⟨s, hscan, hfinish⟩ := h
  obtain ⟨-, -, -, rfl⟩ := Scanner.finish_eq_ok.mp hfinish
  have hplaced := Scanner.placed_scan hscan
  intro d hd
  exact (hplaced.held.endWord hplaced.arePlaced_ofWord).data d (List.mem_reverse.mp hd)

/-- Data that are no bodies are refused for the first of them that is none. -/
theorem Statement.ofBodies_eq_error {data : List Datum} {flaw : Flaw}
    (h : ofBodies data = .error flaw) :
    ∃ before d after, data = before ++ d :: after ∧
      (∀ b ∈ before, ∃ body, bodyOfDatum false b = .ok body) ∧
      bodyOfDatum false d = .error flaw := by
  induction data with
  | nil => cases h
  | cons d rest ih =>
    rw [ofBodies] at h
    cases hd : bodyOfDatum false d with
    | error flaw' =>
      rw [hd] at h
      exact ⟨[], d, rest, rfl, List.forall_mem_nil _, hd.trans h⟩
    | ok body =>
      rw [hd] at h
      cases hrest : ofBodies rest with
      | ok more =>
        rw [hrest] at h
        cases h
      | error flaw' =>
        rw [hrest] at h
        obtain ⟨before, bad, after, rfl, hbefore, hbad⟩ := ih (hrest.trans h)
        exact ⟨d :: before, bad, after, rfl, List.forall_mem_cons.mpr ⟨⟨body, hd⟩, hbefore⟩, hbad⟩

namespace Script

variable {text archetype source : String} {limits : Limits}

/-- A text that can be read and is no script is reported with its source and a place. The place is
the position of a datum in the first datum of the text that writes no body, and this datum starts there
in the text. -/
theorem parse_error_placed {data : List Datum} {e : ParseError}
    (hread : Datum.read text limits = .ok data)
    (h : parse text archetype source limits = .error e) :
    e.source = source ∧
      ∃ before d after p, data = before ++ d :: after ∧
        (∀ b ∈ before, ∃ body, Statement.bodyOfDatum false b = .ok body) ∧
        Statement.bodyOfDatum false d = .error ⟨p, e.defect⟩ ∧
        e.position = some p ∧ ∃ x ∈ d.parts, x.position = p ∧ x.StartsIn text.toList := by
  obtain ⟨flaw, hflaw, rfl⟩ := parse_eq_error.mp h
  have hbodies : Statement.ofBodies data = .error flaw := by
    rwa [parseBody, hread] at hflaw
  obtain ⟨before, d, after, rfl, hbefore, hd⟩ := Statement.ofBodies_eq_error hbodies
  obtain ⟨x, hx, hposition⟩ :=
    Datum.exists_part_of_moved (fun _ d => Statement.bodyOfDatum_moved false d) hd
  refine ⟨rfl, before, d, after, flaw.position, rfl, hbefore, hd, rfl, x, hx, hposition, ?_⟩
  exact Datum.startsIn_of_read hread d (by simp) x hx

/-- A guard halts everyone and then compares one with nothing. -/
def guardText : String :=
  "(say \"Halt.\")\n((end) (cond ((> 1) (end)) (else ())))"

theorem parse_error_placed_guard : ∃ data e, Datum.read guardText = .ok data ∧
    parse guardText "guard" "guard.dlg" = .error e ∧ e.message =
      "guard.dlg:2:15: '>' compares exactly two values" ∧
    e.source = "guard.dlg" ∧ ∃ before d after p, data = before ++ d :: after ∧
      (∀ b ∈ before, ∃ body, Statement.bodyOfDatum false b = .ok body) ∧
      Statement.bodyOfDatum false d = .error ⟨p, e.defect⟩ ∧
      e.position = some p ∧ ∃ x ∈ d.parts, x.position = p ∧ x.StartsIn guardText.toList := by
  have hread : ((Datum.read guardText).toOption.map List.length) = some 2 := by decide +kernel
  have hparse : fault? (parse guardText "guard" "guard.dlg") =
      some ⟨"guard.dlg", some ⟨2, 15⟩, .comparisonOperands ">"⟩ := by decide +kernel
  obtain ⟨data, hdata, -⟩ := exists_of_toOption_map hread
  have herror := eq_error_of_fault? hparse
  exact ⟨data, _, hdata, herror, by decide +kernel, parse_error_placed hdata herror⟩

end Script

end Parley
