import Parley.Proofs.Script.Layout

/-!
# Balanced Texts

A text of script data is balanced if every closing parenthesis outside strings and comments closes a
list, every string is closed and no list is left open. It fits the reader if no list is nested too deep
and no word writes an integer with too many digits. The scanner accepts the balanced texts that fit, and
of any other text it reports the first defect (`FirstDefect`). A parenthesis is a defect where it stands;
a word that is too long, an unfinished string and an unclosed list are defects where they start, which
the scanner remembers (`Scanner.Located`).
-/

namespace Parley

/-- The place of the character behind a text. -/
def Position.behind (before : List Char) : Position :=
  before.foldl Position.after ⟨1, 1⟩

theorem Position.behind_append_singleton (before : List Char) (x : Char) :
    Position.behind (before ++ [x]) = (Position.behind before).after x := by
  rw [Position.behind, List.foldl_append]
  rfl

namespace Scanner

/-- Everything that is opened in a text is closed, and nothing else is. -/
structure Balanced (limits : Limits) (text : List Char) : Prop where
  /-- A closing parenthesis outside strings and comments closes an open list. -/
  closes : ∀ before after s, text = before ++ ')' :: after → (start limits).scan before = .ok s →
    s.mode.isCode = true → s.opened ≠ []
  /-- No string is unfinished at the end. -/
  strings : ∀ s, (start limits).scan text = .ok s → s.mode.quote? = none
  /-- No list is open at the end. -/
  lists : ∀ s, (start limits).scan text = .ok s → s.opened = []

/-- A text goes on with a word that starts behind `before`, and the word ends in front of `after`. -/
structure HasWord (limits : Limits) (before word after : List Char) : Prop where
  scanned : ∃ s, (start limits).scan (before ++ word) = .ok s ∧
    s.mode = .word (Position.behind before) word.reverse
  ended : ∀ x xs, after = x :: xs → Cursor.isWordChar x = false

/-- No limit of the reader is exceeded in a text. -/
structure Fits (limits : Limits) (text : List Char) : Prop where
  /-- Where a list is opened, there is room for it. -/
  nesting : ∀ before after s, text = before ++ '(' :: after → (start limits).scan before = .ok s →
    s.mode.isCode = true → s.opened.length < limits.lists
  /-- No word writes an integer that has too many digits. -/
  words : ∀ before word after, text = before ++ (word ++ after) →
    HasWord limits before word after → ¬ (Text.IsNumeral word ∧ Text.isOverlong word = true)

/-- The first defect of a text and its place. -/
inductive FirstDefect (limits : Limits) (text : List Char) : Position → Defect → Prop
  /-- A closing parenthesis outside strings and comments, with no list open. -/
  | close (before after : List Char) (s : Scanner) (htext : text = before ++ ')' :: after)
      (hscan : (start limits).scan before = .ok s) (hcode : s.mode.isCode = true)
      (hword : s.checkWord = .ok ()) (hopened : s.opened = []) :
      FirstDefect limits text (Position.behind before) .unbalancedClose
  /-- An opening parenthesis outside strings and comments, with as many lists open as can be. -/
  | depth (before after : List Char) (s : Scanner) (htext : text = before ++ '(' :: after)
      (hscan : (start limits).scan before = .ok s) (hcode : s.mode.isCode = true)
      (hword : s.checkWord = .ok ()) (hopened : limits.lists ≤ s.opened.length) :
      FirstDefect limits text (Position.behind before) .tooDeep
  /-- A word that writes an integer with too many digits. -/
  | digits (before word after : List Char) (htext : text = before ++ (word ++ after))
      (hhas : HasWord limits before word after) (hnumeral : Text.IsNumeral word)
      (hlong : Text.isOverlong word = true) :
      FirstDefect limits text (Position.behind before) .tooManyDigits
  /-- A quote that opens a string which lasts to the end of the text. -/
  | string (before inside : List Char) (s : Scanner) (htext : text = before ++ '"' :: inside)
      (hscan : (start limits).scan text = .ok s)
      (hquote : s.mode.quote? = some (Position.behind before)) :
      FirstDefect limits text (Position.behind before) .unterminatedString
  /-- An opening parenthesis of the innermost list that is open at the end of the text. -/
  | list (before inside : List Char) (s : Scanner) (l : OpenList) (outer : List OpenList)
      (htext : text = before ++ '(' :: inside) (hscan : (start limits).scan text = .ok s)
      (hquote : s.mode.quote? = none) (hword : s.checkWord = .ok ()) (hopened : s.opened = l :: outer)
      (hstart : l.start = Position.behind before) :
      FirstDefect limits text (Position.behind before) .unclosedList

/-! ## What a character can do -/

theorem starts_eq_cons {s : Scanner} {l : OpenList} {outer : List OpenList}
    (h : s.opened = l :: outer) : s.starts = l.start :: outer.map (·.start) := by
  rw [starts, h]
  rfl

/-- Between data only parentheses are refused: one that closes nothing, and one that opens a list for
which there is no room. -/
theorem between_eq_error {s : Scanner} {x : Char} {flaw : Flaw} :
    s.between x = .error flaw ↔
      x = ')' ∧ s.starts = [] ∧ flaw = ⟨s.position, .unbalancedClose⟩ ∨
        x = '(' ∧ s.room ≤ s.starts.length ∧ flaw = ⟨s.position, .tooDeep⟩ := by
  by_cases hclose : x = ')'
  · subst hclose
    rw [or_iff_left (fun h => absurd h.1 (by decide)), ← opened_eq_nil_iff, between_close]
    cases s.opened with
    | nil =>
      exact ⟨fun h => ⟨rfl, rfl, (Except.error.inj h).symm⟩, fun h => congrArg Except.error h.2.2.symm⟩
    | cons l rest => simp
  by_cases hopen : x = '('
  · subst hopen
    rw [between_open, starts, List.length_map]
    rw [or_iff_right (fun h => absurd h.1 (by decide))]
    split
    · next hroom =>
      refine ⟨fun h => ?_, fun h => absurd hroom (Nat.not_lt.mpr h.2.1)⟩
      cases h
    · next hroom =>
      exact ⟨fun h => ⟨rfl, Nat.not_lt.mp hroom, (Except.error.inj h).symm⟩,
        fun h => congrArg Except.error h.2.2.symm⟩
  · unfold between
    simp only [hclose, hopen, if_false, false_and, or_false, iff_false]
    repeat' split
    all_goals
      intro h
      cases h

/-- Why a scanner refuses a character. -/
inductive Refuses (s : Scanner) : Char → Flaw → Prop
  /-- It ends a word that cannot be read. -/
  | digits {x : Char} {flaw : Flaw} (hx : Cursor.isWordChar x = false)
      (hword : s.checkWord = .error flaw) : Refuses s x flaw
  | close (hcode : s.mode.isCode = true) (hword : s.checkWord = .ok ()) (hstarts : s.starts = []) :
      Refuses s ')' ⟨s.position, .unbalancedClose⟩
  | depth (hcode : s.mode.isCode = true) (hword : s.checkWord = .ok ())
      (hstarts : s.room ≤ s.starts.length) : Refuses s '(' ⟨s.position, .tooDeep⟩

theorem take_eq_error {s : Scanner} {x : Char} {flaw : Flaw} :
    s.take x = .error flaw ↔ s.Refuses x flaw := by
  constructor
  · intro h
    -- In strings and comments nothing is refused.
    have hcode : s.mode.isCode = true ∧ (s.mode = .gap ∨ Cursor.isWordChar x = false) := by
      unfold take at h
      split at h
      · next hmode => exact ⟨by rw [hmode]; rfl, .inl hmode⟩
      · cases h
      · next hmode =>
        split at h
        · cases h
        · next hx => exact ⟨by rw [hmode]; rfl, .inr (Bool.eq_false_iff.mpr hx)⟩
      · repeat' split at h
        all_goals cases h
      · cases h
    have hended : s.take x = s.checkWord >>= fun _ => s.endWord.between x := by
      obtain ⟨hcode, hgap | hx⟩ := hcode
      · rw [take_of_gap hgap, checkWord_of_gap hgap, endWord_of_gap hgap]
        rfl
      · exact take_of_isCode hcode hx
    rw [hended] at h
    cases hword : s.checkWord with
    | error flaw' =>
      rw [hword] at h
      obtain rfl := Except.error.inj h
      obtain ⟨p, done, hmode, -⟩ := mode_of_checkWord hword
      exact .digits (hcode.2.resolve_left fun hgap => nomatch hgap.symm.trans hmode) hword
    | ok _ =>
      rw [hword] at h
      obtain ⟨rfl, hstarts, rfl⟩ | ⟨rfl, hroom, rfl⟩ := between_eq_error.mp h
      · rw [endWord_starts] at hstarts
        rw [endWord_position]
        exact .close hcode.1 hword hstarts
      · rw [endWord_starts, endWord_room] at hroom
        rw [endWord_position]
        exact .depth hcode.1 hword hroom
  · rintro (⟨hx, hword⟩ | ⟨hcode, hword, hstarts⟩ | ⟨hcode, hword, hroom⟩)
    · obtain ⟨p, done, hmode, -⟩ := mode_of_checkWord hword
      rw [take_of_isCode (by rw [hmode]; rfl) hx, hword]
      rfl
    · rw [take_of_isCode hcode (by decide), hword]
      show s.endWord.between ')' = _
      rw [between_eq_error, endWord_starts, endWord_position]
      exact .inl ⟨rfl, hstarts, rfl⟩
    · rw [take_of_isCode hcode (by decide), hword]
      show s.endWord.between '(' = _
      rw [between_eq_error, endWord_starts, endWord_position, endWord_room]
      exact .inr ⟨rfl, hroom, rfl⟩

theorem step_eq_error {s : Scanner} {x : Char} {flaw : Flaw} :
    s.step x = .error flaw ↔ s.Refuses x flaw := by
  rw [← take_eq_error, step]
  cases s.take x with
  | error flaw' => rfl
  | ok t => simp [Except.map]

theorem step_position {s t : Scanner} {x : Char} (h : s.step x = .ok t) :
    t.position = s.position.after x := by
  have hstep : Gives (fun u => u.position = s.position.after x) (s.step x) :=
    (Answers.trivial (s.take x)).map fun _ _ => rfl
  exact hstep.of_eq_ok h

/-- What a character does to the lists and strings that are open: only an opening parenthesis opens a
list, and only a quote opens a string, and it does so where it stands. -/
structure Opens (s : Scanner) (x : Char) (t : Scanner) : Prop where
  lists : ∀ p ∈ t.starts, p ∈ s.starts ∨ x = '(' ∧ p = s.position
  strings : ∀ p, t.mode.quote? = some p → s.mode.quote? = some p ∨ x = '"' ∧ p = s.position

theorem opens_between (s : Scanner) (x : Char) : Gives (Opens s x) (s.between x) := by
  have hlists : ∀ p ∈ s.starts, p ∈ s.starts ∨ x = '(' ∧ p = s.position := fun _ => .inl
  unfold between
  split
  · exact ⟨hlists, fun _ => .inl⟩
  split
  · exact ⟨hlists, nofun⟩
  split
  · next hopen =>
    split
    · refine ⟨fun p hp => ?_, fun _ => .inl⟩
      obtain rfl | hp := List.mem_cons.mp hp
      · exact .inr ⟨hopen, rfl⟩
      · exact .inl hp
    · exact True.intro
  split
  · split
    · exact True.intro
    · next l rest hopened =>
      refine ⟨fun p hp => .inl ?_, fun p hp => ?_⟩
      · rw [emit_starts] at hp
        exact starts_eq_cons hopened ▸ List.mem_cons_of_mem _ hp
      · rw [emit_mode] at hp
        exact nomatch hp
  split
  · next hquote => exact ⟨hlists, fun p hp => .inr ⟨hquote, (Option.some.inj hp).symm⟩⟩
  · exact ⟨hlists, nofun⟩

theorem opens_take (s : Scanner) (x : Char) : Gives (Opens s x) (s.take x) := by
  have hlists : ∀ p ∈ s.starts, p ∈ s.starts ∨ x = '(' ∧ p = s.position := fun _ => .inl
  unfold take
  split
  · exact opens_between s x
  · split
    · exact ⟨hlists, nofun⟩
    · exact ⟨hlists, fun _ => .inl⟩
  · next hmode =>
    split
    · exact ⟨hlists, nofun⟩
    · refine (Answers.trivial s.checkWord).bind fun _ _ => ?_
      refine (opens_between s.endWord x).imp fun t ht => ⟨?_, fun p hp => ?_⟩
      · simpa using ht.lists
      · simpa [endWord, hmode, ScanMode.quote?] using ht.strings p hp
  · next start done hmode =>
    have hstring : ∀ p, some start = some p → s.mode.quote? = some p ∨ x = '"' ∧ p = s.position :=
      fun p hp => .inl (by rw [hmode]; exact hp)
    split
    · exact ⟨by simpa using hlists, by simp [ScanMode.quote?]⟩
    split
    · exact ⟨hlists, hstring⟩
    · exact ⟨hlists, hstring⟩
  · next start done hmode =>
    exact ⟨hlists, fun p hp => .inl (by rw [hmode]; exact hp)⟩

theorem opens_step {s t : Scanner} {x : Char} (h : s.step x = .ok t) : Opens s x t := by
  have hopens : Gives (Opens s x) (s.step x) :=
    (opens_take s x).map fun u hu => ⟨hu.lists, hu.strings⟩
  exact hopens.of_eq_ok h

/-! ## What a scanner remembers -/

/-- The places that a scanner remembers are those of parentheses, quotes and words before it. -/
structure Located (limits : Limits) (before : List Char) (s : Scanner) : Prop where
  room : s.room = limits.lists
  position : s.position = Position.behind before
  lists : ∀ p ∈ s.starts, ∃ outer inside, before = outer ++ '(' :: inside ∧ p = Position.behind outer
  strings : ∀ p, s.mode.quote? = some p →
    ∃ outer inside, before = outer ++ '"' :: inside ∧ p = Position.behind outer
  words : ∀ p done, s.mode = .word p done →
    ∃ outer, before = outer ++ done.reverse ∧ p = Position.behind outer

variable {limits : Limits}

theorem located_step {before : List Char} {x : Char} {s t : Scanner} (hs : Located limits before s)
    (h : s.step x = .ok t) : Located limits (before ++ [x]) t := by
  have hold : ∀ {y : Char} {p : Position},
      (∃ outer inside, before = outer ++ y :: inside ∧ p = Position.behind outer) →
      ∃ outer inside, before ++ [x] = outer ++ y :: inside ∧ p = Position.behind outer := by
    rintro y p ⟨outer, inside, rfl, hp⟩
    exact ⟨outer, inside ++ [x], by simp, hp⟩
  refine ⟨?_, ?_, fun p hp => ?_, fun p hp => ?_, fun p done hp => ?_⟩
  · rw [step_room h, hs.room]
  · rw [step_position h, hs.position, Position.behind_append_singleton]
  · obtain hp | ⟨rfl, rfl⟩ := (opens_step h).lists p hp
    · exact hold (hs.lists p hp)
    · exact ⟨before, [], rfl, hs.position⟩
  · obtain hp | ⟨rfl, rfl⟩ := (opens_step h).strings p hp
    · exact hold (hs.strings p hp)
    · exact ⟨before, [], rfl, hs.position⟩
  · obtain ⟨-, ⟨rfl, rfl, -⟩ | ⟨sofar, hsofar, rfl⟩⟩ := word_step h hp
    · exact ⟨before, rfl, hs.position⟩
    · obtain ⟨outer, rfl, rfl⟩ := hs.words p sofar hsofar
      exact ⟨outer, by simp, rfl⟩

theorem located_scan {text : List Char} {s : Scanner} (h : (start limits).scan text = .ok s) :
    Located limits text s := by
  have hstart : Located limits [] (start limits) :=
    ⟨rfl, rfl, fun _ hp => absurd hp List.not_mem_nil, fun _ hp => absurd hp nofun, nofun⟩
  exact scan_induction hstart (fun _ _ _ _ hs hstep => located_step hs hstep) h

/-! ## What a text is answered -/

/-- A text is refused at one of its characters. -/
theorem scan_eq_error {s : Scanner} {text : List Char} {flaw : Flaw} :
    s.scan text = .error flaw ↔
      ∃ before x after t, text = before ++ x :: after ∧ s.scan before = .ok t ∧
        t.step x = .error flaw := by
  constructor
  · intro h
    induction text generalizing s with
    | nil => exact nomatch h
    | cons x xs ih =>
      rw [scan, List.foldlM_cons] at h
      cases hstep : s.step x with
      | error flaw' =>
        rw [hstep] at h
        exact ⟨[], x, xs, s, rfl, rfl, hstep.trans h⟩
      | ok u =>
        rw [hstep] at h
        obtain ⟨before, y, after, t, rfl, ht, hy⟩ := ih h
        exact ⟨x :: before, y, after, t, rfl, scan_cons.mpr ⟨u, hstep, ht⟩, hy⟩
  · rintro ⟨before, x, after, t, rfl, ht, hx⟩
    rw [scan_append ht, scan, List.foldlM_cons, hx]
    rfl

/-- A text is refused where a scanner that has come so far refuses a character. -/
theorem run_of_refuses {s t : Scanner} {before after : List Char} {x : Char} {flaw : Flaw}
    (hscan : s.scan before = .ok t) (h : t.Refuses x flaw) :
    s.run (before ++ x :: after) = .error flaw := by
  rw [run, scan_eq_error.mpr ⟨before, x, after, t, rfl, hscan, step_eq_error.mpr h⟩]
  rfl

/-- A scanner that cannot end its word is behind a word with too many digits. -/
theorem firstDefect_of_checkWord {before after : List Char} {s : Scanner} {flaw : Flaw}
    (hscan : (start limits).scan before = .ok s) (hword : s.checkWord = .error flaw)
    (hended : ∀ x xs, after = x :: xs → Cursor.isWordChar x = false) :
    FirstDefect limits (before ++ after) flaw.position flaw.defect := by
  obtain ⟨p, done, hmode, hread⟩ := mode_of_checkWord hword
  obtain ⟨hnumeral, hlong, rfl⟩ := Datum.readWord_eq_error_iff.mp hread
  obtain ⟨outer, rfl, rfl⟩ := (located_scan hscan).words p done hmode
  have hhas : HasWord limits outer done.reverse after :=
    ⟨⟨s, hscan, by rw [List.reverse_reverse]; exact hmode⟩, hended⟩
  exact .digits outer done.reverse after (List.append_assoc _ _ _) hhas hnumeral hlong

/-- Where the scanner stops in the middle of a text is its first defect. -/
theorem firstDefect_of_scan {text : List Char} {flaw : Flaw}
    (hscan : (start limits).scan text = .error flaw) :
    FirstDefect limits text flaw.position flaw.defect := by
  obtain ⟨before, x, after, s, rfl, hs, hstep⟩ := scan_eq_error.mp hscan
  have hlocated := located_scan hs
  obtain ⟨hx, hword⟩ | ⟨hcode, hword, hstarts⟩ | ⟨hcode, hword, hroom⟩ := step_eq_error.mp hstep
  · exact firstDefect_of_checkWord hs hword fun y ys hy => (List.cons.inj hy).1 ▸ hx
  · dsimp only
    rw [hlocated.position]
    exact .close before after s rfl hs hcode hword (opened_eq_nil_iff.mpr hstarts)
  · dsimp only
    rw [hlocated.position]
    rw [hlocated.room, starts, List.length_map] at hroom
    exact .depth before after s rfl hs hcode hword hroom

/-- What is not finished at the end of a text is its first defect. -/
theorem firstDefect_of_finish {text : List Char} {s : Scanner} {flaw : Flaw}
    (hscan : (start limits).scan text = .ok s) (h : s.finish = .error flaw) :
    FirstDefect limits text flaw.position flaw.defect := by
  unfold finish at h
  split at h
  · next quote hquote =>
    cases h
    obtain ⟨before, inside, htext, rfl⟩ := (located_scan hscan).strings _ hquote
    exact .string before inside s htext hscan hquote
  · next hquote =>
    cases hword : s.checkWord with
    | error flaw =>
      rw [hword] at h
      obtain rfl := Except.error.inj h
      have hended : ∀ x xs, ([] : List Char) = x :: xs → Cursor.isWordChar x = false :=
        fun x xs h => absurd h.symm (List.cons_ne_nil x xs)
      have hdefect := firstDefect_of_checkWord hscan hword hended
      rwa [List.append_nil] at hdefect
    | ok _ =>
      cases hopened : s.opened with
      | nil =>
        rw [hword, hopened] at h
        cases h
      | cons l outer =>
        rw [hword, hopened] at h
        cases h
        have hmem : l.start ∈ s.starts := by
          rw [starts_eq_cons hopened]
          exact List.mem_cons_self
        obtain ⟨before, inside, htext, hstart⟩ := (located_scan hscan).lists l.start hmem
        show FirstDefect limits text l.start .unclosedList
        rw [hstart]
        exact .list before inside s l outer htext hscan hquote hword hopened hstart

/-- The scanner reports the first defect. -/
theorem run_of_firstDefect {text : List Char} {p : Position} {defect : Defect}
    (h : FirstDefect limits text p defect) : (start limits).run text = .error ⟨p, defect⟩ := by
  cases h with
  | close before after s htext hscan hcode hword hopened =>
    rw [htext, ← (located_scan hscan).position]
    exact run_of_refuses hscan (.close hcode hword (opened_eq_nil_iff.mp hopened))
  | depth before after s htext hscan hcode hword hopened =>
    rw [htext, ← (located_scan hscan).position]
    refine run_of_refuses hscan (.depth hcode hword ?_)
    rwa [(located_scan hscan).room, starts, List.length_map]
  | digits before word after htext hhas hnumeral hlong =>
    obtain ⟨⟨s, hscan, hmode⟩, hended⟩ := hhas
    have hread : Datum.readWord word (Position.behind before) =
        .error ⟨Position.behind before, .tooManyDigits⟩ :=
      Datum.readWord_eq_error_iff.mpr ⟨hnumeral, hlong, rfl⟩
    have hword : s.checkWord = .error ⟨Position.behind before, .tooManyDigits⟩ := by
      rw [checkWord, hmode]
      dsimp only
      rw [List.reverse_reverse, hread]
      rfl
    rw [htext, ← List.append_assoc, run_append hscan]
    exact run_of_checkWord hword hended
  | string before inside s htext hscan hquote => rw [run_of_scan hscan, finish, hquote]
  | list before inside s l outer htext hscan hquote hword hopened hstart =>
    rw [run_of_scan hscan, finish, hquote, hword, hopened, ← hstart]
    rfl

/-- The first defect of a text is what the scanner reports. -/
theorem firstDefect_iff {text : List Char} {p : Position} {defect : Defect} :
    FirstDefect limits text p defect ↔ (start limits).run text = .error ⟨p, defect⟩ := by
  refine ⟨run_of_firstDefect, fun h => ?_⟩
  cases hscan : (start limits).scan text with
  | error flaw =>
    rw [run, hscan] at h
    obtain rfl := Except.error.inj h
    exact firstDefect_of_scan hscan
  | ok s =>
    rw [run_of_scan hscan] at h
    exact firstDefect_of_finish hscan h

/-- The scanner accepts the balanced texts that fit the reader. -/
theorem balanced_iff {text : List Char} :
    Balanced limits text ∧ Fits limits text ↔ ∃ data, (start limits).run text = .ok data := by
  constructor
  · rintro ⟨hbalanced, hfits⟩
    cases hrun : (start limits).run text with
    | ok data => exact ⟨data, rfl⟩
    | error flaw =>
      obtain ⟨p, defect⟩ := flaw
      obtain ⟨before, after, s, htext, hscan, hcode, hword, hopened⟩ |
        ⟨before, after, s, htext, hscan, hcode, hword, hopened⟩ |
        ⟨before, word, after, htext, hhas, hnumeral, hlong⟩ |
        ⟨before, inside, s, htext, hscan, hquote⟩ |
        ⟨before, inside, s, l, outer, htext, hscan, hquote, hword, hopened, hstart⟩ :=
          firstDefect_iff.mpr hrun
      · exact absurd hopened (hbalanced.closes before after s htext hscan hcode)
      · exact absurd (hfits.nesting before after s htext hscan hcode) (Nat.not_lt.mpr hopened)
      · exact absurd ⟨hnumeral, hlong⟩ (hfits.words before word after htext hhas)
      · exact nomatch (hbalanced.strings s hscan).symm.trans hquote
      · exact nomatch (hbalanced.lists s hscan).symm.trans hopened
  · rintro ⟨data, h⟩
    obtain ⟨s, hscan, hfinish⟩ := run_eq_ok.mp h
    obtain ⟨hquote, -, hopened, -⟩ := finish_eq_ok.mp hfinish
    have hend : ∀ t, (start limits).scan text = .ok t → s = t := by
      intro t ht
      rw [hscan] at ht
      exact Except.ok.inj ht
    -- Where a parenthesis would be refused, the word in front of it may be refused before.
    have hrefused : ∀ before x after t, text = before ++ x :: after →
        (start limits).scan before = .ok t → Cursor.isWordChar x = false →
        (t.checkWord = .ok () → ∃ flaw, t.Refuses x flaw) → False := by
      intro before x after t htext ht hx hbad
      have hany : ∃ flaw, t.Refuses x flaw := by
        cases hword : t.checkWord with
        | error flaw => exact ⟨flaw, .digits hx hword⟩
        | ok _ => exact hbad hword
      obtain ⟨flaw, hflaw⟩ := hany
      rw [htext, run_of_refuses ht hflaw] at h
      cases h
    refine ⟨⟨?_, fun t ht => hend t ht ▸ hquote, fun t ht => hend t ht ▸ hopened⟩, ?_, ?_⟩
    · intro before after t htext ht hcode hnone
      exact hrefused before ')' after t htext ht (by decide) fun hword =>
        ⟨_, .close hcode hword (opened_eq_nil_iff.mp hnone)⟩
    · intro before after t htext ht hcode
      refine Nat.lt_of_not_le fun hfull => hrefused before '(' after t htext ht (by decide) fun hword => ?_
      refine ⟨_, .depth hcode hword ?_⟩
      rwa [(located_scan ht).room, starts, List.length_map]
    · rintro before word after htext hhas ⟨hnumeral, hlong⟩
      rw [firstDefect_iff.mp (.digits before word after htext hhas hnumeral hlong)] at h
      cases h

/-- Reading a text is scanning it once with a stack of open lists. Exactly the balanced texts that fit
the reader are read; of any other text the first defect is reported at its place. -/
theorem read_scans (text : String) (limits : Limits) :
    Datum.read text limits = read text limits ∧
      ((∃ data, Datum.read text limits = .ok data) ↔
        Balanced limits text.toList ∧ Fits limits text.toList) ∧
      (∀ p defect, Datum.read text limits = .error ⟨p, defect⟩ ↔
        FirstDefect limits text.toList p defect) ∧
      (∀ p, Datum.read text limits ≠ .error ⟨p, .unexpectedEnd⟩) ∧
      Defect.message .unbalancedClose = "unbalanced ')'" ∧
      Defect.message .unterminatedString = "unterminated string" ∧
      Defect.message .unclosedList = "unbalanced '(': list is never closed" := by
  have hdefect : ∀ p defect, Datum.read text limits = .error ⟨p, defect⟩ ↔
      FirstDefect limits text.toList p defect := by
    intro p defect
    rw [read_eq, firstDefect_iff]
    rfl
  refine ⟨read_eq text limits, ?_, hdefect, fun p h => ?_, rfl, rfl, rfl⟩
  · rw [read_eq, balanced_iff]
    rfl
  · exact nomatch (hdefect p .unexpectedEnd).mp h

/-- A text without any parenthesis or quote is refused for its digits. -/
theorem zeros_refused : Balanced .standard Text.manyZeros ∧
    Datum.read (String.ofList Text.manyZeros) = .error ⟨⟨1, 1⟩, .tooManyDigits⟩ := by
  have hword := Text.isWord_of_spells Text.spells_manyZeros
  have hscan : (start .standard).scan Text.manyZeros = .ok _ := scan_word hword
  have hread := Datum.read_numeral Text.isNumeral_manyZeros Text.isOverlong_manyZeros .standard
  refine ⟨⟨fun before after s htext => ?_, fun s hs => ?_, fun s hs => ?_⟩, hread⟩
  · have hclose := hword.chars ')' (htext ▸ List.mem_append_right before List.mem_cons_self)
    exact absurd hclose (by decide)
  · rw [← Except.ok.inj (hscan.symm.trans hs)]
    rfl
  · rw [← Except.ok.inj (hscan.symm.trans hs)]

end Scanner

end Parley
