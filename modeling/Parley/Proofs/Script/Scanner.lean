import Parley.Proofs.Answer
import Parley.Script.Reader

/-!
# Scanning in One Pass

Script data can be read by a machine that looks at every character once, from left to right, and keeps
a stack of the lists that are open. We define this scanner and prove that the reader, which descends
into every list, answers the same on every text:

* `Scanner.step`: one character; a closing parenthesis with no open list is refused, and so are an
  opening one that there is no room for and what ends an integer with too many digits;
* `Scanner.finish`: the end of the text, where no string may be unfinished and no list be open;
* `Scanner.run_items`, `Scanner.run_datum`: reading a list or a datum is to run the scanner over it;
* `Scanner.read_eq`: reading a text is scanning it.
-/

namespace Parley

/-- The position after a character. -/
def Position.after (p : Position) (x : Char) : Position :=
  if x = '\n' then ⟨p.line + 1, 1⟩ else ⟨p.line, p.column + 1⟩

/-- A list that has been opened and not yet been closed. -/
structure OpenList where
  start : Position
  /-- The items so far, last first. -/
  items : List Datum

/-- What a scanner is in the middle of. Characters are kept last first. -/
inductive ScanMode
  /-- It is between data. -/
  | gap
  | comment
  | word (start : Position) (done : List Char)
  | string (start : Position) (done : List Char)
  /-- It is in a string, behind a backslash. -/
  | escape (start : Position) (done : List Char)

namespace ScanMode

/-- Whether parentheses count, as they do outside strings and comments. -/
def isCode : ScanMode → Bool
  | .gap => true
  | .word _ _ => true
  | _ => false

/-- The opening quote of the string that is not finished, if there is one. -/
def quote? : ScanMode → Option Position
  | .string start _ => some start
  | .escape start _ => some start
  | _ => none

theorem quote?_of_isCode {mode : ScanMode} (h : mode.isCode = true) : mode.quote? = none := by
  cases mode <;> first | rfl | exact absurd h nofun

end ScanMode

/-- A machine that reads script data character by character. -/
structure Scanner where
  /-- The position of the next character. -/
  position : Position
  mode : ScanMode
  /-- The open lists, innermost first. -/
  opened : List OpenList
  /-- The data outside all lists, last first. -/
  data : List Datum
  /-- The most lists that may be open at once. -/
  room : Nat

namespace Scanner

/-- The scanner before the first character of a text. -/
def start (limits : Limits := .standard) : Scanner :=
  ⟨⟨1, 1⟩, .gap, [], [], limits.lists⟩

/-- The scanner between data, with a datum added to the innermost open list. -/
def emit (s : Scanner) (d : Datum) : Scanner :=
  match s.opened with
  | [] => { s with mode := .gap, data := d :: s.data }
  | l :: rest => { s with mode := .gap, opened := { l with items := d :: l.items } :: rest }

@[simp]
theorem emit_position (s : Scanner) (d : Datum) : (s.emit d).position = s.position := by
  unfold emit
  split <;> rfl

@[simp]
theorem emit_mode (s : Scanner) (d : Datum) : (s.emit d).mode = .gap := by
  unfold emit
  split <;> rfl

/-- The places where the open lists start, innermost first. -/
def starts (s : Scanner) : List Position :=
  s.opened.map (·.start)

@[simp]
theorem emit_starts (s : Scanner) (d : Datum) : (s.emit d).starts = s.starts := by
  unfold emit
  split <;> simp_all [starts]

theorem opened_eq_nil_iff {s : Scanner} : s.opened = [] ↔ s.starts = [] :=
  List.map_eq_nil_iff.symm

/-- The scanner after the end of a word, if it is in one. -/
def endWord (s : Scanner) : Scanner :=
  match s.mode with
  | .word start done => s.emit (.ofWord done.reverse start)
  | _ => s

@[simp]
theorem endWord_position (s : Scanner) : s.endWord.position = s.position := by
  unfold endWord
  split
  · exact emit_position s _
  · rfl

@[simp]
theorem endWord_starts (s : Scanner) : s.endWord.starts = s.starts := by
  unfold endWord
  split
  · exact emit_starts s _
  · rfl

@[simp]
theorem emit_room (s : Scanner) (d : Datum) : (s.emit d).room = s.room := by
  unfold emit
  split <;> rfl

@[simp]
theorem endWord_room (s : Scanner) : s.endWord.room = s.room := by
  unfold endWord
  split
  · exact emit_room s _
  · rfl

theorem endWord_of_gap {s : Scanner} (h : s.mode = .gap) : s.endWord = s := by
  rw [endWord, h]

/-- Outside strings and comments a scanner whose word has ended is between data. -/
theorem endWord_mode {s : Scanner} (h : s.mode.isCode = true) : s.endWord.mode = .gap := by
  unfold endWord
  split
  · exact emit_mode s _
  · next hword =>
    cases hmode : s.mode with
    | gap => rfl
    | word p done => exact absurd hmode (hword p done)
    | _ => simp [hmode, ScanMode.isCode] at h

/-- Refuses to end a word that writes an integer with too many digits. -/
def checkWord (s : Scanner) : Except Flaw Unit :=
  match s.mode with
  | .word start done => (Datum.readWord done.reverse start).map fun _ => ()
  | _ => .ok ()

theorem checkWord_of_gap {s : Scanner} (h : s.mode = .gap) : s.checkWord = .ok () := by
  rw [checkWord, h]

/-- Only a word can fail to end. -/
theorem mode_of_checkWord {s : Scanner} {flaw : Flaw} (h : s.checkWord = .error flaw) :
    ∃ p done, s.mode = .word p done ∧ Datum.readWord done.reverse p = .error flaw := by
  unfold checkWord at h
  split at h
  · next p done hmode =>
    refine ⟨p, done, hmode, ?_⟩
    cases hread : Datum.readWord done.reverse p with
    | error flaw' =>
      rw [hread] at h
      exact congrArg Except.error (Except.error.inj h)
    | ok d =>
      rw [hread] at h
      cases h
  · cases h

/-- What a character between data does. -/
def between (s : Scanner) (x : Char) : Except Flaw Scanner :=
  if Cursor.isGap x then .ok s
  else if x = ';' then .ok { s with mode := .comment }
  else if x = '(' then
    if s.opened.length < s.room then .ok { s with opened := ⟨s.position, []⟩ :: s.opened }
    else .error ⟨s.position, .tooDeep⟩
  else if x = ')' then
    match s.opened with
    | [] => .error ⟨s.position, .unbalancedClose⟩
    | l :: rest => .ok (({ s with opened := rest } : Scanner).emit (.list l.items.reverse l.start))
  else if x = '"' then .ok { s with mode := .string s.position [] }
  else .ok { s with mode := .word s.position [x] }

/-- What a character does, its place in the text aside. -/
def take (s : Scanner) (x : Char) : Except Flaw Scanner :=
  match s.mode with
  | .gap => s.between x
  | .comment => .ok (if x = '\n' then { s with mode := .gap } else s)
  | .word start done =>
    if Cursor.isWordChar x then .ok { s with mode := .word start (x :: done) }
    else do
      s.checkWord
      -- The character behind a word is looked at as one between data.
      s.endWord.between x
  | .string start done =>
    if x = '"' then .ok (s.emit (.str (String.ofList done.reverse) start))
    else if x = '\\' then .ok { s with mode := .escape start done }
    else .ok { s with mode := .string start (x :: done) }
  | .escape start done =>
    .ok { s with mode := .string start ((Cursor.unescape x).reverse ++ done) }

theorem between_open (s : Scanner) :
    s.between '(' =
      if s.opened.length < s.room then .ok { s with opened := ⟨s.position, []⟩ :: s.opened }
      else .error ⟨s.position, .tooDeep⟩ := rfl

theorem take_of_gap {s : Scanner} (h : s.mode = .gap) (x : Char) : s.take x = s.between x := by
  rw [take, h]

/-- Outside strings and comments, what is no character of words is taken as between data. -/
theorem take_of_isCode {s : Scanner} {x : Char} (h : s.mode.isCode = true)
    (hx : Cursor.isWordChar x = false) :
    s.take x = s.checkWord >>= fun _ => s.endWord.between x := by
  unfold take
  cases hmode : s.mode with
  | gap =>
    rw [endWord_of_gap hmode, checkWord_of_gap hmode]
    rfl
  | word p done => exact if_neg (by simp [hx])
  | _ => simp [hmode, ScanMode.isCode] at h

/-- The scanner after a character. -/
def step (s : Scanner) (x : Char) : Except Flaw Scanner :=
  (s.take x).map fun t => { t with position := s.position.after x }

theorem step_room {s t : Scanner} {x : Char} (h : s.step x = .ok t) : t.room = s.room := by
  have hbetween : ∀ u : Scanner, Gives (fun t => t.room = u.room) (u.between x) := by
    intro u
    unfold between
    repeat' split
    all_goals first | rfl | exact True.intro | exact emit_room _ _
  have htake : Gives (fun t => t.room = s.room) (s.take x) := by
    unfold take
    split
    · exact hbetween s
    · split <;> rfl
    · split
      · rfl
      · refine (Answers.trivial s.checkWord).bind fun _ _ => ?_
        exact (hbetween s.endWord).imp fun t ht => ht.trans (endWord_room s)
    · repeat' split
      all_goals first | rfl | exact emit_room _ _
    · rfl
  have hstep : Gives (fun t => t.room = s.room) (s.step x) := htake.map fun u hu => hu
  exact hstep.of_eq_ok h

/-- The scanner after characters, up to the first that is refused. -/
def scan (s : Scanner) (text : List Char) : Except Flaw Scanner :=
  text.foldlM step s

/-- What a scanner answers at the end of a text. -/
def finish (s : Scanner) : Except Flaw (List Datum) :=
  match s.mode.quote? with
  | some quote => .error ⟨quote, .unterminatedString⟩
  | none => do
    s.checkWord
    match s.opened with
    | l :: _ => .error ⟨l.start, .unclosedList⟩
    | [] => .ok s.endWord.data.reverse

/-- What a scanner answers to the rest of a text. -/
def run (s : Scanner) (text : List Char) : Except Flaw (List Datum) := do
  let t ← s.scan text
  t.finish

/-- What the scanner answers to a text. -/
def read (text : String) (limits : Limits := .standard) : Except Flaw (List Datum) :=
  (start limits).run text.toList

/-! ## Runs over a text -/

theorem scan_cons {s t : Scanner} {x : Char} {xs : List Char} :
    s.scan (x :: xs) = .ok t ↔ ∃ u, s.step x = .ok u ∧ u.scan xs = .ok t := by
  rw [scan, List.foldlM_cons]
  cases s.step x with
  | error flaw => exact ⟨nofun, fun ⟨_, h, _⟩ => nomatch h⟩
  | ok u => exact ⟨fun h => ⟨u, rfl, h⟩, fun ⟨_, hu, h⟩ => Except.ok.inj hu ▸ h⟩

theorem scan_append {s t : Scanner} {a : List Char} (h : s.scan a = .ok t) (b : List Char) :
    s.scan (a ++ b) = t.scan b := by
  rw [scan, List.foldlM_append, ← scan, h]
  rfl

theorem scan_of_take {s t : Scanner} {x : Char} (h : s.take x = .ok t) (xs : List Char) :
    s.scan (x :: xs) = ({ t with position := s.position.after x } : Scanner).scan xs := by
  rw [scan, List.foldlM_cons, step, h]
  rfl

/-- A scanner answers data if it comes to the end with nothing open. -/
theorem finish_eq_ok {s : Scanner} {data : List Datum} :
    s.finish = .ok data ↔ s.mode.quote? = none ∧ s.checkWord = .ok () ∧ s.opened = [] ∧
      s.endWord.data.reverse = data := by
  unfold finish
  split
  · next hquote => simp [hquote]
  · next hquote =>
    cases hword : s.checkWord with
    | error flaw => simp [bind, Except.bind]
    | ok _ =>
      cases hopened : s.opened with
      | nil => simp [bind, Except.bind, hquote]
      | cons l rest => simp [bind, Except.bind]

theorem run_of_scan {s t : Scanner} {text : List Char} (h : s.scan text = .ok t) :
    s.run text = t.finish := by
  rw [run, h]
  rfl

theorem run_append {s t : Scanner} {a : List Char} (h : s.scan a = .ok t) (b : List Char) :
    s.run (a ++ b) = t.run b := by
  rw [run, scan_append h, run]

theorem run_eq_ok {s : Scanner} {text : List Char} {data : List Datum} :
    s.run text = .ok data ↔ ∃ t, s.scan text = .ok t ∧ t.finish = .ok data := by
  rw [run]
  cases s.scan text with
  | error flaw => simp [bind, Except.bind]
  | ok t => simp [bind, Except.bind]

/-- What holds at the start and is kept by every character holds after every text. -/
theorem scan_induction {limits : Limits} {P : List Char → Scanner → Prop}
    (hstart : P [] (start limits))
    (hstep : ∀ before x s t, P before s → s.step x = .ok t → P (before ++ [x]) t)
    {text : List Char} {t : Scanner} (h : (start limits).scan text = .ok t) : P text t := by
  have hrest : ∀ (xs before : List Char) (s : Scanner), P before s → s.scan xs = .ok t →
      P (before ++ xs) t := by
    intro xs
    induction xs with
    | nil =>
      intro before s hs h
      rw [List.append_nil, ← Except.ok.inj h]
      exact hs
    | cons x xs ih =>
      intro before s hs h
      obtain ⟨u, hu, hxs⟩ := scan_cons.mp h
      rw [List.append_cons]
      exact ih (before ++ [x]) u (hstep before x s u hs hu) hxs
  exact hrest text [] (start limits) hstart h

/-- The scanner between data, at a place of the text. -/
abbrev atGap (room : Nat) (p : Position) (opened : List OpenList) (data : List Datum) : Scanner :=
  ⟨p, .gap, opened, data, room⟩

/-- What is answered to the rest of a text after a datum was read by other means. -/
def resume (room : Nat) (opened : List OpenList) (data : List Datum) :
    Reading Datum → Except Flaw (List Datum)
  | (.error flaw, _) => .error flaw
  | (.ok d, c) => ((atGap room c.position opened data).emit d).run c.rest

variable {room : Nat} {opened : List OpenList} {data : List Datum} {p : Position}

theorem run_cons (s : Scanner) (x : Char) (xs : List Char) :
    s.run (x :: xs) = s.step x >>= fun t => t.run xs := by
  rw [run, scan, List.foldlM_cons, bind_assoc]
  rfl

/-- Characters are taken one after the other. -/
theorem run_cons_of_take {s t : Scanner} {x : Char} (h : s.take x = .ok t) (xs : List Char) :
    s.run (x :: xs) = ({ t with position := s.position.after x } : Scanner).run xs := by
  rw [run, scan_of_take h]
  rfl

/-- A word that cannot be read is refused where it ends, be it at the end of the text. -/
theorem run_of_checkWord {s : Scanner} {text : List Char} {flaw : Flaw}
    (hword : s.checkWord = .error flaw)
    (hended : ∀ x xs, text = x :: xs → Cursor.isWordChar x = false) : s.run text = .error flaw := by
  obtain ⟨p, done, hmode, -⟩ := mode_of_checkWord hword
  cases text with
  | nil =>
    rw [run_of_scan rfl, finish, hmode, hword]
    rfl
  | cons x xs =>
    rw [run_cons, step, take_of_isCode (by rw [hmode]; rfl) (hended x xs rfl), hword]
    rfl

/-- Scanners at one place that take a character alike answer the same. -/
theorem run_cons_congr {s t : Scanner} {x : Char} (hposition : s.position = t.position)
    (h : s.take x = t.take x) (xs : List Char) : s.run (x :: xs) = t.run (x :: xs) := by
  rw [run_cons, run_cons, step, step, h, hposition]

/-- A cursor and a scanner count lines and columns alike. -/
theorem position_advance {c : Cursor} {x : Char} {xs : List Char} (h : c.rest = x :: xs) :
    c.advance.position = c.position.after x := by
  unfold Cursor.advance
  split
  · next hnil => simp [h] at hnil
  · next hnewline =>
    rw [h, List.cons.injEq] at hnewline
    rw [hnewline.1]
    rfl
  · next y ys hne hrest =>
    rw [h, List.cons.injEq] at hrest
    obtain ⟨rfl, rfl⟩ := hrest
    rw [Position.after, if_neg (fun hx => hne hx)]
    rfl

/-- Taking a character is advancing a cursor. -/
theorem run_advance {s t : Scanner} {c : Cursor} {x : Char} {xs : List Char}
    (hrest : c.rest = x :: xs) (hposition : s.position = c.position) (h : s.take x = .ok t) :
    s.run c.rest = ({ t with position := c.advance.position } : Scanner).run c.advance.rest := by
  rw [position_advance hrest, Cursor.rest_advance, hrest, run_cons_of_take h, hposition]
  rfl

/-! ## Trivia and words -/

/-- A gap is what the scanner is in when a character is skipped. -/
theorem take_gap {x : Char} (h : Cursor.isGap x = true) :
    (atGap room p opened data).take x = .ok (atGap room p opened data) := by
  rw [take, between, if_pos h]

/-- A comment lasts to the end of its line. -/
theorem run_comment (c : Cursor) :
    (⟨c.position, .comment, opened, data, room⟩ : Scanner).run c.rest =
      (atGap room (Cursor.advanceBy c.restOfLine c).position opened data).run
        (Cursor.advanceBy c.restOfLine c).rest := by
  generalize hrest : c.rest = text
  induction text generalizing c with
  | nil =>
    have hzero : c.restOfLine = 0 := by rw [Cursor.restOfLine, hrest]; rfl
    rw [hzero, Cursor.advanceBy, hrest]
    rfl
  | cons x xs ih =>
    by_cases hx : x = '\n'
    · -- The end of the line ends the comment, and is no more than a blank itself.
      subst hx
      have hzero : c.restOfLine = 0 := by rw [Cursor.restOfLine, hrest]; rfl
      rw [hzero, Cursor.advanceBy, hrest,
        run_cons_of_take (t := atGap room c.position opened data) (by simp [take]),
        run_cons_of_take (take_gap (by decide))]
    · have hsucc : c.restOfLine = c.advance.restOfLine + 1 := by
        rw [Cursor.restOfLine, Cursor.restOfLine, Cursor.rest_advance, hrest,
          List.takeWhile_cons_of_pos (by simpa using hx)]
        rfl
      have hstay : (⟨c.position, .comment, opened, data, room⟩ : Scanner).take x =
          .ok ⟨c.position, .comment, opened, data, room⟩ := by simp [take, hx]
      rw [← hrest, run_advance hrest rfl hstay, hsucc, Cursor.advanceBy]
      have htail : c.advance.rest = xs := by rw [Cursor.rest_advance, hrest]; rfl
      rw [htail]
      exact ih c.advance htail

/-- What is skipped between data leaves the scanner between data. -/
theorem run_skipTrivia (c : Cursor) :
    (atGap room c.position opened data).run c.rest =
      (atGap room c.skipTrivia.position opened data).run c.skipTrivia.rest := by
  fun_induction Cursor.skipTrivia c with
  | case1 c h => rfl
  | case2 c x xs h hgap ih =>
    exact (run_advance h rfl (take_gap hgap)).trans ih
  | case3 c xs h hgap ih =>
    have hopen : (atGap room c.position opened data).take ';' =
        .ok ⟨c.position, .comment, opened, data, room⟩ := by
      simp [take, between, hgap]
    exact (run_advance h rfl hopen).trans ((run_comment _).trans ih)
  | case4 c x xs h hgap hsemi => rfl

/-- A word lasts as long as characters of words follow. -/
theorem run_word (c : Cursor) (start : Position) (done : List Char) :
    (⟨c.position, .word start done, opened, data, room⟩ : Scanner).run c.rest =
      resume room opened data
        (Datum.readWord (done.reverse ++ c.word) start, Cursor.advanceBy c.word.length c) := by
  have hcheck : ∀ (done : List Char) (p : Position),
      (⟨p, .word start done, opened, data, room⟩ : Scanner).checkWord =
        (Datum.readWord done.reverse start).map fun _ => () := fun _ _ => rfl
  generalize hrest : c.rest = text
  induction text generalizing c done with
  | nil =>
    have hword : c.word = [] := by rw [Cursor.word, hrest]; rfl
    rw [hword, List.length_nil, Cursor.advanceBy, List.append_nil]
    obtain hread | hread := Datum.readWord_cases done.reverse start
    · rw [hread, resume, hrest, run_of_scan rfl, finish, hcheck, hread]
      cases opened <;> rfl
    · rw [hread, resume, run_of_scan rfl, finish, hcheck, hread]
      rfl
  | cons x xs ih =>
    by_cases hx : Cursor.isWordChar x = true
    · have hword : c.word = x :: c.advance.word := by
        rw [Cursor.word, Cursor.word, Cursor.rest_advance, hrest, List.takeWhile_cons_of_pos hx]
        rfl
      have htake : (⟨c.position, .word start done, opened, data, room⟩ : Scanner).take x =
          .ok ⟨c.position, .word start (x :: done), opened, data, room⟩ := by simp [take, hx]
      have htail : c.advance.rest = xs := by rw [Cursor.rest_advance, hrest]; rfl
      rw [← hrest, run_advance hrest rfl htake, htail, ih c.advance (x :: done) htail, hword,
        List.reverse_cons, List.append_assoc]
      rfl
    · -- The word ends, and what ends it is taken as between data.
      have hword : c.word = [] := by
        rw [Cursor.word, hrest, List.takeWhile_cons_of_neg hx]
      rw [hword, List.length_nil, Cursor.advanceBy, List.append_nil]
      obtain hread | hread := Datum.readWord_cases done.reverse start
      · rw [hread, resume, hrest]
        apply run_cons_congr (emit_position _ _).symm
        simp only [take, emit_mode, if_neg hx, hcheck, hread]
        cases opened <;> rfl
      · rw [hread, resume, run_cons, step]
        simp only [take, if_neg hx, hcheck, hread]
        rfl

/-- A character of words that is no mark of byte order starts a word. -/
theorem take_wordChar {x : Char} (hx : Cursor.isWordChar x = true)
    (hgap : Cursor.isGap x = false) :
    (atGap room p opened data).take x = .ok ⟨p, .word p [x], opened, data, room⟩ := by
  have hdelimiter : Cursor.isDelimiter x = false := by
    simp only [Cursor.isWordChar, Bool.and_eq_true, Bool.not_eq_true'] at hx
    exact hx.2
  simp only [Cursor.isDelimiter, Bool.or_eq_false_iff, beq_eq_false_iff_ne] at hdelimiter
  obtain ⟨⟨⟨hopen, hclose⟩, hquote⟩, hsemi⟩ := hdelimiter
  simp [take, between, hgap, hsemi, hopen, hclose, hquote]

/-- An atom is read up to the end of its word. -/
theorem run_atom {c : Cursor} {x : Char} {xs : List Char} (hrest : c.rest = x :: xs)
    (hx : Cursor.isWordChar x = true) (hgap : Cursor.isGap x = false) :
    (atGap room c.position opened data).run c.rest = resume room opened data c.readAtom := by
  have hword : c.word = x :: c.advance.word := by
    rw [Cursor.word, Cursor.word, Cursor.rest_advance, hrest, List.takeWhile_cons_of_pos hx]
    rfl
  have htake : (atGap room c.position opened data).take x =
      .ok ⟨c.position, .word c.position [x], opened, data, room⟩ := take_wordChar hx hgap
  rw [run_advance hrest rfl htake, run_word, Cursor.readAtom, hword]
  rfl

/-! ## Strings and lists -/

/-- The rest of a string is read up to its closing quote. -/
theorem run_chars (start : Position) (c : Cursor) (done : List Char) :
    (⟨c.position, .string start done, opened, data, room⟩ : Scanner).run c.rest =
      resume room opened data (Cursor.readChars start c done) := by
  have hescape : (⟨c.position, .string start done, opened, data, room⟩ : Scanner).take '\\' =
      .ok ⟨c.position, .escape start done, opened, data, room⟩ := rfl
  fun_induction Cursor.readChars start c done with
  | case1 c done h => rw [h]; rfl
  | case2 c done xs h =>
    have htake : (⟨c.position, .string start done, opened, data, room⟩ : Scanner).take '"' =
        .ok ((⟨c.position, .string start done, opened, data, room⟩ : Scanner).emit
          (.str (String.ofList done.reverse) start)) := rfl
    rw [run_advance h rfl htake]
    cases opened <;> rfl
  | case3 c done xs hnext h hquote =>
    -- The text is cut behind a backslash.
    rw [run_advance h rfl hescape, hnext]
    rfl
  | case4 c done xs e rest hnext h hquote ih =>
    rw [run_advance h rfl hescape, run_advance hnext rfl rfl]
    exact ih rfl
  | case5 c done x xs h hquote hslash ih =>
    have htake : (⟨c.position, .string start done, opened, data, room⟩ : Scanner).take x =
        .ok ⟨c.position, .string start (x :: done), opened, data, room⟩ := by
      simp [take, hquote, hslash]
    rw [run_advance h rfl htake]
    exact ih rfl

/-- A string is read up to its closing quote. -/
theorem run_string {c : Cursor} {xs : List Char} (hrest : c.rest = '"' :: xs) :
    (atGap room c.position opened data).run c.rest = resume room opened data c.readString := by
  have htake : (atGap room c.position opened data).take '"' =
      .ok ⟨c.position, .string c.position [], opened, data, room⟩ := rfl
  rw [run_advance hrest rfl htake, run_chars]
  rfl

/-- An opening parenthesis opens a list, inside all lists that are open. -/
theorem run_open {c : Cursor} {xs : List Char} (hrest : c.rest = '(' :: xs)
    (hroom : opened.length < room) :
    (atGap room c.position opened data).run c.rest =
      (atGap room c.advance.position (⟨c.position, []⟩ :: opened) data).run c.advance.rest := by
  have htake : (atGap room c.position opened data).take '(' =
      .ok (atGap room c.position (⟨c.position, []⟩ :: opened) data) :=
    (between_open _).trans (if_pos hroom)
  exact run_advance hrest rfl htake

/-- It is refused where there is no room for one more list. -/
theorem run_open_of_full {c : Cursor} {xs : List Char} (hrest : c.rest = '(' :: xs)
    (hroom : room ≤ opened.length) :
    (atGap room c.position opened data).run c.rest = .error ⟨c.position, .tooDeep⟩ := by
  have htake : (atGap room c.position opened data).take '(' = .error ⟨c.position, .tooDeep⟩ :=
    (between_open _).trans (if_neg (Nat.not_lt.mpr hroom))
  rw [hrest, run_cons, step, htake]
  rfl

theorem between_close (s : Scanner) :
    s.between ')' = match s.opened with
      | [] => .error ⟨s.position, .unbalancedClose⟩
      | l :: rest =>
        .ok (({ s with opened := rest } : Scanner).emit (.list l.items.reverse l.start)) := rfl

/-- A closing parenthesis makes a datum of the innermost open list. -/
theorem run_close {c : Cursor} {xs : List Char} (hrest : c.rest = ')' :: xs) (l : OpenList) :
    (atGap room c.position (l :: opened) data).run c.rest =
      resume room opened data (.ok (.list l.items.reverse l.start), c.advance) := by
  have htake : (atGap room c.position (l :: opened) data).take ')' =
      .ok ((atGap room c.position opened data).emit (.list l.items.reverse l.start)) := rfl
  rw [run_advance hrest rfl htake]
  cases opened <;> rfl

/-- The items of a list are read up to its closing parenthesis, with the lists around it waiting. -/
theorem run_items (inside : Nat) (start : Position) (c : Cursor) (done : List Datum)
    (opened : List OpenList) (hroom : opened.length + (inside + 1) = room) :
    (atGap room c.position (⟨start, done⟩ :: opened) data).run c.rest =
      resume room opened data (Cursor.readItems inside start c done).1 := by
  fun_induction Cursor.readItems inside start c done generalizing opened with
  | case1 inside start c done _ h =>
    rw [run_skipTrivia, h]
    rfl
  | case2 inside start c done _ xs h => rw [run_skipTrivia, run_close h]
  | case3 start c done _ xs h =>
    rw [run_skipTrivia, run_open_of_full h (by simp; omega)]
    rfl
  | case4 start c done _ xs inside flaw after _ hread h _ _ ih =>
    rw [run_skipTrivia, run_open h (by simp; omega), ih _ (by simp; omega), hread]
    rfl
  | case5 start c done _ xs inside datum after _ hread _ h _ _ _ ih ihrest =>
    -- The inner list becomes an item of the outer one, where reading goes on.
    rw [run_skipTrivia, run_open h (by simp; omega), ih _ (by simp; omega), hread]
    exact ihrest opened hroom
  | case6 inside start c done _ xs flaw after hread h =>
    rw [run_skipTrivia, run_string h, hread]
    rfl
  | case7 inside start c done _ xs datum after hread _ h _ _ _ ih =>
    rw [run_skipTrivia, run_string h, hread]
    exact ih opened hroom
  | case8 inside start c done _ x xs h _ _ _ hword flaw after hread =>
    rw [run_skipTrivia, run_atom h hword (Cursor.head_skipTrivia h).1, hread]
    rfl
  | case9 inside start c done _ x xs h _ _ _ hword datum after hread _ _ ih =>
    rw [run_skipTrivia, run_atom h hword (Cursor.head_skipTrivia h).1, hread]
    exact ih opened hroom

/-- A datum is read with the lists around it waiting. -/
theorem run_datum {inside : Nat} {c : Cursor} {x : Char} {xs : List Char}
    (hroom : opened.length + inside = room) (h : c.skipTrivia.rest = x :: xs) (hclose : x ≠ ')') :
    (atGap room c.position opened data).run c.rest =
      resume room opened data (c.readDatum inside) := by
  rw [run_skipTrivia]
  unfold Cursor.readDatum
  simp only [h]
  split
  · next hopen =>
    subst hopen
    rw [← h]
    cases inside with
    | zero =>
      rw [run_open_of_full h (Nat.le_of_eq hroom.symm)]
      rfl
    | succ inside =>
      rw [run_open h (by omega), run_items inside _ _ _ opened hroom]
      rfl
  · next hopen =>
    split
    · next hquote =>
      subst hquote
      rw [← h, run_string h]
    · next hquote =>
      have hgap := Cursor.head_skipTrivia h
      rw [← h, run_atom h (Cursor.isWordChar_of_not hgap.1 hgap.2 hopen hclose hquote) hgap.1]

/-- All data are read to the end of the text. -/
theorem run_readAllFrom (c : Cursor) (done : List Datum) :
    (atGap room c.position [] done).run c.rest = (c.readAllFrom room done).1 := by
  have hroom : ([] : List OpenList).length + room = room := Nat.zero_add room
  fun_induction Cursor.readAllFrom room c done with
  | case1 c done h =>
    rw [run_skipTrivia, h]
    rfl
  | case2 c done xs h =>
    rw [run_skipTrivia, h, run_cons]
    rfl
  | case3 c done x xs h hclose flaw after hread =>
    rw [run_datum hroom h hclose, hread]
    rfl
  | case4 c done x xs h hclose datum after hread _ ih =>
    rw [run_datum hroom h hclose, hread]
    exact ih

/-- To read a text is to scan it. -/
theorem read_eq (text : String) (limits : Limits) : Datum.read text limits = read text limits :=
  (run_readAllFrom (Cursor.start text) []).symm

end Scanner

end Parley
