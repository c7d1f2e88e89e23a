import Parley.Proofs.Script.Balance
import Parley.Proofs.Script.Positions
import Parley.Proofs.Script.WellFormed

/-!
# Concatenated Scripts

Two scripts on consecutive lines are one script: its body is that of the first followed by that of the
second. The second text is read as it would be on its own, only further down. We show this for the
scanner, which behind the first text and the end of its line is the scanner at the start of a text, but
for its line and the data that it has already (`Scanner.below`).

* `Scanner.run_below`: such a scanner answers what the other one answers, further down;
* `Datum.read_append`: hence so does reading;
* `Script.parse_append`: and so does parsing, as parsing looks at no positions.
-/

namespace Parley

namespace Position

/-- The position so many lines further down. -/
def down (n : Nat) (p : Position) : Position :=
  ⟨p.line + n, p.column⟩

theorem after_down (n : Nat) (p : Position) (x : Char) :
    (p.down n).after x = (p.after x).down n := by
  unfold after
  split
  · simp [down, Nat.add_right_comm]
  · rfl

/-- The line behind a text is counted by the ends of lines in it. -/
theorem line_behind (text : List Char) : (behind text).line = text.count '\n' + 1 := by
  -- The text can be entered at any line.
  have hfrom : ∀ p : Position, (text.foldl after p).line = text.count '\n' + p.line := by
    induction text with
    | nil => exact fun p => (Nat.zero_add _).symm
    | cons x xs ih =>
      intro p
      rw [List.foldl_cons, ih, List.count_cons, after]
      split
      · next hx => simp [hx, Nat.add_assoc, Nat.add_comm 1]
      · next hx => simp [hx]
  exact hfrom ⟨1, 1⟩

end Position

theorem Datum.ofWord_moved {f : Position → Position} (word : List Char) (p : Position) :
    ofWord word (f p) = (ofWord word p).moved f := by
  unfold ofWord
  split <;> rfl

theorem Datum.readWord_moved {f : Position → Position} (word : List Char) (p : Position) :
    readWord word (f p) = ((readWord word p).mapError (Flaw.moved f)).map (moved f) := by
  unfold readWord
  split <;> rfl

theorem Datum.movedAll_reverse {f : Position → Position} (ds : List Datum) :
    movedAll f ds.reverse = (movedAll f ds).reverse := by
  simp only [movedAll_eq_map, List.map_reverse]

/-- An open list at another position. -/
def OpenList.moved (f : Position → Position) (l : OpenList) : OpenList :=
  ⟨f l.start, Datum.movedAll f l.items⟩

/-- What a scanner is in the middle of, at another position. -/
def ScanMode.moved (f : Position → Position) : ScanMode → ScanMode
  | .gap => .gap
  | .comment => .comment
  | .word p done => .word (f p) done
  | .string p done => .string (f p) done
  | .escape p done => .escape (f p) done

/-- An answer with its flaw moved and its value put to use. -/
def moveAnswer {α β : Type} (f : Position → Position) (g : α → β) (x : Except Flaw α) :
    Except Flaw β :=
  (x.mapError (Flaw.moved f)).map g

namespace Scanner

variable {f : Position → Position} {held : List Datum}

/-- The scanner at another position, behind data that were read before. -/
def below (f : Position → Position) (held : List Datum) (s : Scanner) : Scanner :=
  ⟨f s.position, s.mode.moved f, s.opened.map (OpenList.moved f), Datum.movedAll f s.data ++ held,
    s.room⟩

theorem emit_below (f : Position → Position) (held : List Datum) (s : Scanner) (d : Datum) :
    (s.below f held).emit (d.moved f) = (s.emit d).below f held := by
  obtain ⟨p, mode, opened, data, room⟩ := s
  cases opened <;> rfl

theorem endWord_below (f : Position → Position) (held : List Datum) (s : Scanner) :
    (s.below f held).endWord = s.endWord.below f held := by
  obtain ⟨p, mode, opened, data, room⟩ := s
  cases mode with
  | word q done =>
    show Scanner.emit _ (Datum.ofWord done.reverse (f q)) = _
    rw [Datum.ofWord_moved]
    exact emit_below f held ⟨p, .word q done, opened, data, room⟩ _
  | _ => rfl

theorem checkWord_below (f : Position → Position) (held : List Datum) (s : Scanner) :
    (s.below f held).checkWord = s.checkWord.mapError (Flaw.moved f) := by
  obtain ⟨p, mode, opened, data, room⟩ := s
  cases mode with
  | word q done =>
    show (Datum.readWord done.reverse (f q)).map _ = ((Datum.readWord done.reverse q).map _).mapError _
    rw [Datum.readWord_moved]
    cases Datum.readWord done.reverse q <;> rfl
  | _ => rfl

theorem between_below (s : Scanner) (x : Char) :
    (s.below f held).between x = moveAnswer f (below f held) (s.between x) := by
  obtain ⟨p, mode, opened, data, room⟩ := s
  unfold between
  split
  · rfl
  split
  · rfl
  split
  · simp only [below, List.length_map]
    split <;> rfl
  split
  · cases opened with
    | nil => rfl
    | cons l rest =>
      -- The list that is closed here is moved, start and items alike.
      have hclosed : Datum.list (l.moved f).items.reverse (l.moved f).start =
          (Datum.list l.items.reverse l.start).moved f := by
        rw [Datum.moved, Datum.movedAll_reverse]
        rfl
      have hemit := emit_below f held ⟨p, mode, rest, data, room⟩
        (.list l.items.reverse l.start)
      rw [← hclosed] at hemit
      exact congrArg Except.ok hemit
  split
  · rfl
  · rfl

theorem take_below (s : Scanner) (x : Char) :
    (s.below f held).take x = moveAnswer f (below f held) (s.take x) := by
  obtain ⟨p, mode, opened, data, room⟩ := s
  cases mode with
  | gap => exact between_below ⟨p, .gap, opened, data, room⟩ x
  | comment =>
    simp only [take, below, ScanMode.moved]
    split <;> rfl
  | word q done =>
    simp only [take, below, ScanMode.moved]
    split
    · rfl
    · -- What ends the word is looked at once the word can end.
      have hcheck := checkWord_below f held ⟨p, .word q done, opened, data, room⟩
      have hbetween : (below f held (endWord ⟨p, .word q done, opened, data, room⟩)).between x = _ :=
        between_below _ x
      rw [← endWord_below] at hbetween
      show Scanner.checkWord (below f held ⟨p, .word q done, opened, data, room⟩) >>=
        (fun _ => (below f held ⟨p, .word q done, opened, data, room⟩).endWord.between x) = _
      rw [hcheck, hbetween]
      cases Scanner.checkWord ⟨p, .word q done, opened, data, room⟩ <;> rfl
  | string q done =>
    simp only [take, below, ScanMode.moved]
    split
    · exact congrArg Except.ok (emit_below f held ⟨p, .string q done, opened, data, room⟩
        (.str (String.ofList done.reverse) q))
    split <;> rfl
  | escape q done => rfl

/-- Further down, a scanner steps as it does on its own. Only here it matters how positions are moved:
lines are counted from wherever one starts, but the end of a line sets the column. -/
theorem step_below (n : Nat) (s : Scanner) (x : Char) :
    (s.below (Position.down n) held).step x =
      moveAnswer (Position.down n) (below (Position.down n) held) (s.step x) := by
  rw [step, take_below, step]
  cases s.take x with
  | error flaw => rfl
  | ok t =>
    show Except.ok _ = Except.ok _
    rw [below, Position.after_down]
    rfl

theorem scan_below (n : Nat) (s : Scanner) (text : List Char) :
    (s.below (Position.down n) held).scan text =
      moveAnswer (Position.down n) (below (Position.down n) held) (s.scan text) := by
  induction text generalizing s with
  | nil => rfl
  | cons x xs ih =>
    rw [scan, List.foldlM_cons, step_below, scan, List.foldlM_cons]
    cases s.step x with
    | error flaw => rfl
    | ok t => exact ih t

theorem finish_below (s : Scanner) :
    (s.below f held).finish =
      moveAnswer f (fun data => held.reverse ++ Datum.movedAll f data) s.finish := by
  have hdata : (s.below f held).endWord.data.reverse =
      held.reverse ++ Datum.movedAll f s.endWord.data.reverse := by
    rw [endWord_below, below, List.reverse_append, Datum.movedAll_reverse]
  unfold finish
  rw [hdata, checkWord_below]
  obtain ⟨p, mode, opened, data, room⟩ := s
  cases mode with
  | string q done => rfl
  | escape q done => rfl
  | _ =>
    cases Scanner.checkWord ⟨p, _, opened, data, room⟩ with
    | error flaw => rfl
    | ok _ => cases opened <;> rfl

/-- Further down, a scanner answers what it answers on its own. -/
theorem run_below (n : Nat) (s : Scanner) (text : List Char) :
    (s.below (Position.down n) held).run text =
      moveAnswer (Position.down n) (fun data => held.reverse ++ Datum.movedAll (Position.down n) data)
        (s.run text) := by
  rw [run, scan_below, run]
  cases s.scan text with
  | error flaw => rfl
  | ok t => exact finish_below t

/-- Outside strings the end of the line ends what the scanner is in. -/
theorem take_newline {s : Scanner} (h : s.mode.quote? = none) (hword : s.checkWord = .ok ()) :
    s.take '\n' = .ok { s.endWord with mode := .gap } := by
  obtain ⟨p, mode, opened, data, room⟩ := s
  cases mode with
  | gap => rfl
  | comment => rfl
  | word q done =>
    rw [take_of_isCode rfl (by decide), hword]
    show Except.ok _ = _
    cases opened <;> rfl
  | string q done => cases h
  | escape q done => cases h

/-- Behind a text that can be read and the end of its line, the scanner is at the start of a text, only
further down. -/
theorem scan_line {limits : Limits} {text : List Char} {data : List Datum}
    (h : (start limits).run text = .ok data) :
    (start limits).scan (text ++ ['\n']) =
      .ok ((start limits).below (Position.down (text.count '\n' + 1)) data.reverse) := by
  obtain ⟨s, hscan, hfinish⟩ := run_eq_ok.mp h
  obtain ⟨hquote, hword, hopened, rfl⟩ := finish_eq_ok.mp hfinish
  have hend : s.endWord.opened = [] := by
    rw [opened_eq_nil_iff, endWord_starts, ← opened_eq_nil_iff, hopened]
  have hline : s.position.line = text.count '\n' + 1 := by
    rw [(located_scan hscan).position, Position.line_behind]
  rw [scan_append hscan, scan_of_take (take_newline hquote hword), List.reverse_reverse, hend,
    endWord_room, (located_scan hscan).room, Position.after, if_pos rfl, hline, Nat.add_comm]
  rfl

end Scanner

/-- A text behind one that can be read is read as on its own, only further down. -/
theorem Datum.read_append {first : String} {limits : Limits} {data : List Datum}
    (h : read first limits = .ok data) (second : String) :
    read (first ++ "\n" ++ second) limits =
      moveAnswer (Position.down (first.toList.count '\n' + 1))
        (fun more => data ++ movedAll (Position.down (first.toList.count '\n' + 1)) more)
        (read second limits) := by
  rw [Scanner.read_eq] at h
  have htext : (first ++ "\n" ++ second).toList = first.toList ++ ['\n'] ++ second.toList := by
    rw [String.toList_append, String.toList_append]
    rfl
  rw [Scanner.read_eq, Scanner.read_eq, Scanner.read, htext, Scanner.run,
    Scanner.scan_append (Scanner.scan_line h), ← Scanner.run, Scanner.run_below,
    List.reverse_reverse]
  rfl

/-- Bodies are put together datum by datum. -/
theorem Statement.ofBodies_append (data more : List Datum) :
    ofBodies (data ++ more) = ofBodies data >>= fun ss => (ofBodies more).map (ss ++ ·) := by
  induction data with
  | nil =>
    show ofBodies more = (ofBodies more).map ([] ++ ·)
    cases ofBodies more <;> rfl
  | cons d rest ih =>
    rw [List.cons_append, ofBodies, ofBodies, ih]
    cases bodyOfDatum false d with
    | error flaw => rfl
    | ok ss =>
      cases ofBodies rest with
      | error flaw => rfl
      | ok tail =>
        cases ofBodies more with
        | error flaw => rfl
        | ok last => exact congrArg Except.ok (List.append_assoc ss tail last).symm

namespace Script

/-- The body of a text behind another is the one that it has on its own. -/
theorem parseBody_append {first : String} {limits : Limits} {body : List Statement}
    (h : parseBody first limits = .ok body) (second : String) :
    parseBody (first ++ "\n" ++ second) limits =
      moveAnswer (Position.down (first.toList.count '\n' + 1)) (body ++ ·)
        (parseBody second limits) := by
  obtain ⟨data, hread, hbodies⟩ := parseBody_eq_ok.mp h
  rw [parseBody, parseBody, Datum.read_append hread]
  cases Datum.read second limits with
  -- A text that cannot be read is refused before any datum is parsed, here as on its own.
  | error flaw => rfl
  | ok more =>
    show Statement.ofBodies (data ++ Datum.movedAll _ more) =
      moveAnswer _ _ (Statement.ofBodies more)
    rw [Statement.ofBodies_append, hbodies, Statement.ofBodies_moved]
    rfl

/-- Behind a script, on the next line, a text is a script if and only if it is one on its own. The body
of the whole is then that of the first followed by that of the second; if it is none, the same defect
is reported in the same column, as many lines further down as there are lines before. -/
theorem parse_append {first archetype source : String} {limits : Limits} {script : Script}
    (h : parse first archetype source limits = .ok script) (second : String) :
    ((∃ whole, parse (first ++ "\n" ++ second) archetype source limits = .ok whole) ↔
      ∃ other, parse second archetype source limits = .ok other) ∧
    (∀ other, parse second archetype source limits = .ok other →
      parse (first ++ "\n" ++ second) archetype source limits =
        .ok { script with body := script.body ++ other.body }) ∧
    (∀ e, parse second archetype source limits = .error e → ∃ p, e.position = some p ∧
      parse (first ++ "\n" ++ second) archetype source limits =
        .error ⟨e.source, some ⟨p.line + (first.toList.count '\n' + 1), p.column⟩, e.defect⟩) := by
  obtain ⟨body, hbody, rfl⟩ := parse_eq_ok.mp h
  have happend := parseBody_append hbody second
  cases hsecond : parseBody second limits with
  | ok more =>
    rw [hsecond] at happend
    have hother : parse second archetype source limits = .ok ⟨archetype, more, source, none⟩ :=
      parse_eq_ok.mpr ⟨more, hsecond, rfl⟩
    have hwhole : parse (first ++ "\n" ++ second) archetype source limits =
        .ok ⟨archetype, body ++ more, source, none⟩ := parse_eq_ok.mpr ⟨_, happend, rfl⟩
    rw [hwhole, hother]
    refine ⟨iff_of_true ⟨_, rfl⟩ ⟨_, rfl⟩, fun other h => ?_, fun e h => ?_⟩
    · obtain rfl := Except.ok.inj h
      rfl
    · cases h
  | error flaw =>
    rw [hsecond] at happend
    have hother : parse second archetype source limits = .error (.ofFlaw source flaw) :=
      parse_eq_error.mpr ⟨flaw, hsecond, rfl⟩
    have hwhole : parse (first ++ "\n" ++ second) archetype source limits =
        .error (.ofFlaw source (flaw.moved _)) := parse_eq_error.mpr ⟨_, happend, rfl⟩
    rw [hwhole, hother]
    refine ⟨iff_of_false nofun nofun, fun other h => ?_, fun e h => ?_⟩
    · cases h
    · obtain rfl := Except.error.inj h
      exact ⟨flaw.position, rfl, rfl⟩

/-- A pedlar offers two things in one body. -/
def pedlarText : String :=
  "(say \"Hm?\")\n((offer map) (offer rope)) ; while they last"

/-- A bad bargain, behind a byte order mark. -/
def bargainText : String :=
  "\uFEFF(end)\n(spend -1)"

theorem parse_append_pedlar : ∃ script e, parse pedlarText "pedlar" = .ok script ∧
    script.body.length = 3 ∧ parse bargainText "pedlar" = .error e ∧
    e.message = "<string>:2:8: spend takes a non-negative integer" ∧
    ∃ p, e.position = some p ∧ parse (pedlarText ++ "\n" ++ bargainText) "pedlar" =
      .error ⟨e.source, some ⟨p.line + (pedlarText.toList.count '\n' + 1), p.column⟩, e.defect⟩ := by
  have hpedlar : ((parse pedlarText "pedlar").toOption.map fun s => s.body.length) = some 3 := by
    decide +kernel
  have hbargain : fault? (parse bargainText "pedlar") =
      some ⟨"<string>", some ⟨2, 8⟩, .spendAmount⟩ := by decide +kernel
  obtain ⟨script, hscript, hlength⟩ := exists_of_toOption_map hpedlar
  have herror := eq_error_of_fault? hbargain
  obtain ⟨-, -, hmoved⟩ := parse_append hscript bargainText
  exact ⟨script, _, hscript, hlength, herror, by decide +kernel, hmoved _ herror⟩

end Script

end Parley
