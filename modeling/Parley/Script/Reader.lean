import Parley.Limits
import Parley.Script.Datum

/-!
# Reading Script Data

A cursor walks over the text of a script and reads data from it. Blanks, byte order marks and
comments (from `;` to the end of the line) separate data. Reading answers a datum or a flaw,
together with the cursor after the characters that were looked at.

The recursion ends because the text after an item of a list is shorter than the text before it. It goes
down as many lists as there is room for; a list that is nested deeper is refused.
-/

namespace Parley

/-- A place in the text of a script together with the text from there on. -/
structure Cursor where
  /-- The text that has not been passed. -/
  rest : List Char
  /-- The count of characters passed, steps beyond the end included. -/
  offset : Nat
  /-- The line, counted from one. -/
  line : Nat
  /-- The column, counted from one. -/
  column : Nat
  deriving DecidableEq, Inhabited

/-- The answer of a reading step and the cursor after it. -/
abbrev Reading (α : Type) := Except Flaw α × Cursor

namespace Cursor

/-- The cursor at the start of a text. -/
def start (text : String) : Cursor :=
  ⟨text.toList, 0, 1, 1⟩

/-- The position of the cursor. -/
def position (c : Cursor) : Position :=
  ⟨c.line, c.column⟩

/-- The character at the cursor, U+0000 at the end. -/
def current (c : Cursor) : Char :=
  c.rest.headD '\x00'

/-- Whether the text is used up. -/
def atEnd (c : Cursor) : Bool :=
  c.rest.isEmpty

/-- The cursor one character further. At the end the column goes on counting. -/
def advance (c : Cursor) : Cursor :=
  match c.rest with
  | [] => ⟨[], c.offset + 1, c.line, c.column + 1⟩
  | '\n' :: rest => ⟨rest, c.offset + 1, c.line + 1, 1⟩
  | _ :: rest => ⟨rest, c.offset + 1, c.line, c.column + 1⟩

@[simp]
theorem rest_advance (c : Cursor) : c.advance.rest = c.rest.tail := by
  unfold advance
  split <;> simp_all

theorem length_advance {c : Cursor} {x : Char} {xs : List Char} (h : c.rest = x :: xs) :
    c.advance.rest.length < c.rest.length := by
  simp [h]

theorem length_advance_le (c : Cursor) : c.advance.rest.length ≤ c.rest.length := by
  simp

/-- The cursor so many characters further. -/
def advanceBy : Nat → Cursor → Cursor
  | 0, c => c
  | n + 1, c => advanceBy n c.advance

@[simp]
theorem rest_advanceBy (n : Nat) (c : Cursor) : (advanceBy n c).rest = c.rest.drop n := by
  induction n generalizing c with
  | zero => rfl
  | succ n ih => simp [advanceBy, ih]

/-- Whether a character is skipped between data. -/
def isGap (x : Char) : Bool :=
  Text.isBlank x || x == '\uFEFF'

/-- Whether a character ends a bare word. -/
def isDelimiter (x : Char) : Bool :=
  x == '(' || x == ')' || x == '"' || x == ';'

/-- Whether a character can stand in a bare word. -/
def isWordChar (x : Char) : Bool :=
  !Text.isBlank x && !isDelimiter x

/-- The count of characters before the end of the line. -/
def restOfLine (c : Cursor) : Nat :=
  (c.rest.takeWhile (· != '\n')).length

/-- The cursor after blanks, byte order marks and comments. -/
def skipTrivia (c : Cursor) : Cursor :=
  match _h : c.rest with
  | [] => c
  | x :: _ =>
    if isGap x then skipTrivia c.advance
    -- The end of the line is left to be skipped as a blank.
    else if x = ';' then skipTrivia (advanceBy c.advance.restOfLine c.advance)
    else c
termination_by c.rest.length
decreasing_by
  · exact length_advance _h
  · have := length_advance _h
    simp only [rest_advanceBy, List.length_drop]
    omega

theorem length_skipTrivia (c : Cursor) : c.skipTrivia.rest.length ≤ c.rest.length := by
  fun_induction skipTrivia c with
  | case1 => exact Nat.le_refl _
  | case2 c x xs h _ ih => exact Nat.le_trans ih (length_advance_le c)
  | case3 c xs h _ ih => exact Nat.le_trans ih (by simp)
  | case4 => exact Nat.le_refl _

/-- The characters that an escape in a string stands for. An unknown escape stands for itself. -/
def unescape : Char → List Char
  | 'n' => ['\n']
  | 't' => ['\t']
  | '"' => ['"']
  | '\\' => ['\\']
  | x => ['\\', x]

/-- The rest of a string that was opened at `opened`, after the characters `done`, last first. -/
def readChars (opened : Position) (c : Cursor) (done : List Char) : Reading Datum :=
  match _h : c.rest with
  | [] => (.error ⟨opened, .unterminatedString⟩, c)
  | x :: _ =>
    if x = '"' then (.ok (.str (String.ofList done.reverse) opened), c.advance)
    else if x = '\\' then
      match c.advance.rest with
      | [] => (.error ⟨opened, .unterminatedString⟩, c.advance)
      -- An unknown escape stands for two characters, which are kept last first like all others.
      | e :: _ => readChars opened c.advance.advance ((unescape e).reverse ++ done)
    else readChars opened c.advance (x :: done)
termination_by c.rest.length
decreasing_by
  · exact Nat.lt_of_le_of_lt (length_advance_le _) (length_advance _h)
  · exact length_advance _h

theorem length_readChars (opened : Position) (c : Cursor) (done : List Char) :
    (readChars opened c done).2.rest.length ≤ c.rest.length := by
  fun_induction readChars opened c done with
  | case1 => exact Nat.le_refl _
  | case2 => exact length_advance_le _
  | case3 => exact length_advance_le _
  | case4 c _ _ _ _ _ _ _ ih =>
    exact Nat.le_trans ih (Nat.le_trans (length_advance_le _) (length_advance_le c))
  | case5 c _ _ _ _ _ _ ih => exact Nat.le_trans ih (length_advance_le c)

/-- The string whose opening quote is at the cursor. -/
def readString (c : Cursor) : Reading Datum :=
  readChars c.position c.advance []

/-- The word at the cursor, which is empty if no word starts there. -/
def word (c : Cursor) : List Char :=
  c.rest.takeWhile isWordChar

/-- The symbol or integer at the cursor. -/
def readAtom (c : Cursor) : Reading Datum :=
  (Datum.readWord c.word c.position, advanceBy c.word.length c)

theorem length_readString {c : Cursor} {x : Char} {xs : List Char} (h : c.rest = x :: xs) :
    (readString c).2.rest.length < c.rest.length :=
  Nat.lt_of_le_of_lt (length_readChars _ _ _) (length_advance h)

/-- The character that a cursor stops at after trivia is no gap and starts no comment. -/
theorem head_skipTrivia {c : Cursor} {x : Char} {xs : List Char} (h : c.skipTrivia.rest = x :: xs) :
    isGap x = false ∧ x ≠ ';' := by
  fun_induction skipTrivia c with
  | case1 c h' => simp [h'] at h
  | case2 c y ys h' _ ih => exact ih h
  | case3 c ys h' _ ih => exact ih h
  | case4 c y ys h' hgap hsemi =>
    rw [h'] at h
    obtain ⟨rfl, rfl⟩ := h
    exact ⟨by simpa using hgap, hsemi⟩

/-- A character that is no gap, comment mark, parenthesis or quote stands in a word. -/
theorem isWordChar_of_not {x : Char} (hgap : isGap x = false) (hsemi : x ≠ ';') (hopen : x ≠ '(')
    (hclose : x ≠ ')') (hquote : x ≠ '"') : isWordChar x = true := by
  simp only [isGap, Bool.or_eq_false_iff] at hgap
  simp [isWordChar, isDelimiter, hgap.1, hsemi, hopen, hclose, hquote]

theorem length_readAtom {c : Cursor} {x : Char} {xs : List Char} (h : c.rest = x :: xs)
    (hx : isWordChar x = true) : (readAtom c).2.rest.length < c.rest.length := by
  have hword : 0 < c.word.length := by
    rw [word, h, List.takeWhile_cons_of_pos hx]
    exact Nat.succ_pos _
  have hrest : 0 < c.rest.length := by
    rw [h]
    exact Nat.succ_pos _
  show (advanceBy c.word.length c).rest.length < c.rest.length
  rw [rest_advanceBy, List.length_drop]
  exact Nat.sub_lt hrest hword

/-- The datum of a list that was opened at `opened`, after the items `done`, last first, where there is
room for so many more lists inside one another. The text left over is no longer than the text at the
cursor. -/
def readItems (room : Nat) (opened : Position) (c : Cursor) (done : List Datum) :
    { r : Reading Datum // r.2.rest.length ≤ c.rest.length } :=
  have hskip := length_skipTrivia c
  match h : c.skipTrivia.rest with
  | [] => ⟨(.error ⟨opened, .unclosedList⟩, c.skipTrivia), hskip⟩
  | x :: xs =>
    if hclose : x = ')' then
      ⟨(.ok (.list done.reverse opened), c.skipTrivia.advance),
        Nat.le_trans (length_advance_le _) hskip⟩
    else if hopen : x = '(' then
      match room with
      | 0 => ⟨(.error ⟨c.skipTrivia.position, .tooDeep⟩, c.skipTrivia), hskip⟩
      | inside + 1 =>
        have hstep := length_advance h
        match readItems inside c.skipTrivia.position c.skipTrivia.advance [] with
        | ⟨(.error flaw, after), hafter⟩ => ⟨(.error flaw, after), by omega⟩
        | ⟨(.ok datum, after), hafter⟩ =>
          have : after.rest.length < c.rest.length := by
            have : after.rest.length ≤ c.skipTrivia.advance.rest.length := hafter
            omega
          let r := readItems (inside + 1) opened after (datum :: done)
          ⟨r.1, Nat.le_trans r.2 (Nat.le_of_lt this)⟩
    else if hquote : x = '"' then
      match hread : readString c.skipTrivia with
      | (.error flaw, after) =>
        ⟨(.error flaw, after), by
          have := length_readString h
          rw [hread] at this
          exact Nat.le_trans (Nat.le_of_lt this) hskip⟩
      | (.ok datum, after) =>
        have : after.rest.length < c.rest.length := by
          have := length_readString h
          rw [hread] at this
          exact Nat.lt_of_lt_of_le this hskip
        let r := readItems room opened after (datum :: done)
        ⟨r.1, Nat.le_trans r.2 (Nat.le_of_lt this)⟩
    else
      have hword : isWordChar x = true :=
        isWordChar_of_not (head_skipTrivia h).1 (head_skipTrivia h).2 hopen hclose hquote
      match hread : readAtom c.skipTrivia with
      | (.error flaw, after) =>
        ⟨(.error flaw, after), by
          have := length_readAtom h hword
          rw [hread] at this
          exact Nat.le_trans (Nat.le_of_lt this) hskip⟩
      | (.ok datum, after) =>
        have : after.rest.length < c.rest.length := by
          have := length_readAtom h hword
          rw [hread] at this
          exact Nat.lt_of_lt_of_le this hskip
        let r := readItems room opened after (datum :: done)
        ⟨r.1, Nat.le_trans r.2 (Nat.le_of_lt this)⟩
termination_by c.rest.length

/-- The list whose opening parenthesis is at the cursor, where there is room for so many lists inside one
another. -/
def readList (room : Nat) (c : Cursor) : Reading Datum :=
  match room with
  | 0 => (.error ⟨c.position, .tooDeep⟩, c)
  | inside + 1 => (readItems inside c.position c.advance []).1

/-- The next datum. -/
def readDatum (room : Nat) (c : Cursor) : Reading Datum :=
  let c := c.skipTrivia
  match c.rest with
  | [] => (.error ⟨c.position, .unexpectedEnd⟩, c)
  | x :: _ =>
    if x = '(' then readList room c
    else if x = '"' then readString c
    else readAtom c

theorem length_readList {room : Nat} {c after : Cursor} {d : Datum} {x : Char} {xs : List Char}
    (h : c.rest = x :: xs) (hread : readList room c = (.ok d, after)) :
    after.rest.length < c.rest.length := by
  unfold readList at hread
  split at hread
  · cases hread
  · next inside =>
    have hitems := (readItems inside c.position c.advance []).2
    rw [hread] at hitems
    exact Nat.lt_of_le_of_lt hitems (length_advance h)

/-- A datum that does not start with a closing parenthesis takes at least one character. -/
theorem length_readDatum {room : Nat} {c after : Cursor} {d : Datum} {x : Char} {xs : List Char}
    (h : c.skipTrivia.rest = x :: xs) (hclose : x ≠ ')')
    (hread : readDatum room c = (.ok d, after)) : after.rest.length < c.rest.length := by
  refine Nat.lt_of_lt_of_le ?_ (length_skipTrivia c)
  unfold readDatum at hread
  simp only [h] at hread
  split at hread
  · exact length_readList h hread
  next hopen =>
  split at hread
  · have hstring := length_readString h
    rwa [hread] at hstring
  · next hquote =>
    have hword := isWordChar_of_not (head_skipTrivia h).1 (head_skipTrivia h).2 hopen hclose hquote
    have hatom := length_readAtom h hword
    rwa [hread] at hatom

/-- All data up to the end of the text, after the data `done`, last first. -/
def readAllFrom (room : Nat) (c : Cursor) (done : List Datum) : Reading (List Datum) :=
  match h : c.skipTrivia.rest with
  | [] => (.ok done.reverse, c.skipTrivia)
  | x :: _ =>
    if hclose : x = ')' then (.error ⟨c.skipTrivia.position, .unbalancedClose⟩, c.skipTrivia)
    else
      match hread : readDatum room c with
      | (.error flaw, after) => (.error flaw, after)
      | (.ok datum, after) =>
        have : after.rest.length < c.rest.length := length_readDatum h hclose hread
        readAllFrom room after (datum :: done)
termination_by c.rest.length

/-- All data from the cursor to the end of the text. -/
def readAll (room : Nat) (c : Cursor) : Reading (List Datum) :=
  readAllFrom room c []

end Cursor

/-- The data of a text. -/
def Datum.read (text : String) (limits : Limits := .standard) : Except Flaw (List Datum) :=
  ((Cursor.start text).readAll limits.lists).1

end Parley
