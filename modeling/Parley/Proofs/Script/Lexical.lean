import Parley.Proofs.Answer
import Parley.Proofs.Script.Scanner
import Parley.Proofs.Text.Integer

/-!
# Lexical Data

Not every symbol can be written in a script: a symbol is a bare word, which has no blanks, parentheses,
quotes or semicolons and does not start with a byte order mark, and it is not the writing of an
integer. Data are lexical if all symbols in them are such, at every depth. We show that reading a text
answers lexical data only. As reading is scanning, it is enough that no character makes the scanner
take up a datum that is not lexical, which is the invariant `Scanner.Lexical`.
-/

namespace Parley

/-- A text that can stand as a bare word. -/
structure IsWord (word : List Char) : Prop where
  nonempty : word ≠ []
  chars : ∀ x ∈ word, Cursor.isWordChar x = true
  unmarked : word.head? ≠ some '\uFEFF'

/-- A name that a bare word can write. -/
structure IsSymbol (name : String) : Prop where
  word : IsWord name.toList
  /-- A word that writes an integer is not read as a symbol. -/
  notInteger : Text.integer? name.toList = none

instance (word : List Char) : Decidable (IsWord word) :=
  decidable_of_iff
    (word ≠ [] ∧ word.all Cursor.isWordChar = true ∧ word.head? ≠ some '\uFEFF')
    ⟨fun ⟨h₁, h₂, h₃⟩ => ⟨h₁, List.all_eq_true.1 h₂, h₃⟩,
      fun h => ⟨h.nonempty, List.all_eq_true.2 h.chars, h.unmarked⟩⟩

instance (name : String) : Decidable (IsSymbol name) :=
  decidable_of_iff (IsWord name.toList ∧ Text.integer? name.toList = none)
    ⟨fun ⟨h₁, h₂⟩ => ⟨h₁, h₂⟩, fun h => ⟨h.word, h.notInteger⟩⟩

/-- A word goes on with word characters. -/
theorem IsWord.append_singleton {word : List Char} {x : Char} (h : IsWord word)
    (hx : Cursor.isWordChar x = true) : IsWord (word ++ [x]) := by
  obtain ⟨y, ys, rfl⟩ := List.exists_cons_of_ne_nil h.nonempty
  refine ⟨List.cons_ne_nil _ _, fun z hz => ?_, h.unmarked⟩
  rcases List.mem_append.mp hz with hz | hz
  · exact h.chars z hz
  · exact List.mem_singleton.mp hz ▸ hx

/-- What starts a word stands as a word. -/
theorem isWord_singleton {x : Char} (hgap : Cursor.isGap x = false)
    (hx : Cursor.isWordChar x = true) : IsWord [x] := by
  refine ⟨List.cons_ne_nil _ _, fun y hy => List.mem_singleton.mp hy ▸ hx, fun hmark => ?_⟩
  rw [Option.some.inj hmark] at hgap
  exact absurd hgap (by decide)

namespace Datum

mutual

/-- A datum all of whose symbols can be written. -/
def IsLexical : Datum → Prop
  | .symbol name _ => IsSymbol name
  | .int _ _ => True
  | .str _ _ => True
  | .list items _ => AreLexical items

/-- Data all of whose symbols can be written. -/
def AreLexical : List Datum → Prop
  | [] => True
  | d :: rest => IsLexical d ∧ AreLexical rest

end

/-- Data can be spelled if each of them can. -/
theorem areLexical_iff {ds : List Datum} : AreLexical ds ↔ ∀ d ∈ ds, d.IsLexical := by
  induction ds with
  | nil => simp [AreLexical]
  | cons d rest ih => simp [AreLexical, ih]

theorem isLexical_list {items : List Datum} {p : Position} :
    (list items p).IsLexical ↔ ∀ d ∈ items, d.IsLexical := by
  rw [IsLexical, areLexical_iff]

/-- A word is read as an integer or as a symbol that it can write. -/
theorem isLexical_ofWord {word : List Char} (h : IsWord word) (p : Position) :
    (ofWord word p).IsLexical := by
  unfold ofWord
  split
  · exact True.intro
  · next hnone =>
    rw [IsLexical]
    constructor
    · rwa [String.toList_ofList]
    · rwa [String.toList_ofList]

/-- A word is refused if it is a numeral with too many digits. -/
theorem readWord_eq_error_iff {word : List Char} {p : Position} {flaw : Flaw} :
    readWord word p = .error flaw ↔
      Text.IsNumeral word ∧ Text.isOverlong word = true ∧ flaw = ⟨p, .tooManyDigits⟩ := by
  rw [← and_assoc, ← Text.readInt_eq_error_iff, readWord]
  split
  · next hread => simp [hread]
  · next hread => simp [hread]
  · next refusal hread => simp [hread, eq_comm]

/-- Any other word is read as the datum that it writes. -/
theorem readWord_of_not {word : List Char}
    (h : ¬ (Text.IsNumeral word ∧ Text.isOverlong word = true)) (p : Position) :
    readWord word p = .ok (ofWord word p) := by
  refine (readWord_cases word p).resolve_right fun herror => h ?_
  obtain ⟨hnumeral, hlong, -⟩ := readWord_eq_error_iff.mp herror
  exact ⟨hnumeral, hlong⟩

end Datum

namespace Scanner

variable {s : Scanner}

/-! ## What a scanner holds -/

/-- All data that a scanner holds are of a kind. -/
structure AllHeld (P : Datum → Prop) (s : Scanner) : Prop where
  items : ∀ l ∈ s.opened, ∀ d ∈ l.items, P d
  data : ∀ d ∈ s.data, P d

namespace AllHeld

variable {P Q : Datum → Prop}

/-- A weaker property of all data held. -/
theorem imp (hs : s.AllHeld P) (h : ∀ d, P d → Q d) : s.AllHeld Q :=
  ⟨fun l hl d hd => h d (hs.items l hl d hd), fun d hd => h d (hs.data d hd)⟩

/-- A datum with the property may be added. -/
theorem emit (hs : s.AllHeld P) {d : Datum} (hd : P d) : (s.emit d).AllHeld P := by
  unfold Scanner.emit
  split
  · exact ⟨hs.items, List.forall_mem_cons.mpr ⟨hd, hs.data⟩⟩
  · next l rest hopened =>
    have hitems : ∀ k ∈ l :: rest, ∀ d ∈ k.items, P d := hopened ▸ hs.items
    obtain ⟨hl, hrest⟩ := List.forall_mem_cons.mp hitems
    exact ⟨List.forall_mem_cons.mpr ⟨List.forall_mem_cons.mpr ⟨hd, hl⟩, hrest⟩, hs.data⟩

/-- A word may be ended if the datum that it makes has the property. -/
theorem endWord (hs : s.AllHeld P)
    (hword : ∀ p done, s.mode = .word p done → P (.ofWord done.reverse p)) :
    s.endWord.AllHeld P := by
  unfold Scanner.endWord
  split
  · next p done hmode => exact hs.emit (hword p done hmode)
  · exact hs

/-- A closed list is made of the items that were read since it was opened. -/
theorem between (hs : s.AllHeld P)
    (hlist : ∀ ds p, (∀ d ∈ ds, P d) → p ∈ s.starts → P (.list ds p)) (x : Char) :
    Gives (AllHeld P) (s.between x) := by
  unfold Scanner.between
  split
  · exact hs
  split
  · exact ⟨hs.items, hs.data⟩
  split
  · split
    · exact ⟨List.forall_mem_cons.mpr ⟨List.forall_mem_nil _, hs.items⟩, hs.data⟩
    · exact True.intro
  split
  · split
    · exact True.intro
    · next l rest hopened =>
      have hitems : ∀ k ∈ l :: rest, ∀ d ∈ k.items, P d := hopened ▸ hs.items
      obtain ⟨hl, hrest⟩ := List.forall_mem_cons.mp hitems
      have houter : ({ s with opened := rest } : Scanner).AllHeld P := ⟨hrest, hs.data⟩
      have hstart : l.start ∈ s.starts := by
        rw [starts, hopened]
        exact List.mem_cons_self
      exact houter.emit
        (hlist l.items.reverse l.start (fun d hd => hl d (List.mem_reverse.mp hd)) hstart)
  split
  · exact ⟨hs.items, hs.data⟩
  · exact ⟨hs.items, hs.data⟩

/-- All data that a scanner takes up are words, strings and lists that end at a character. -/
theorem take (hs : s.AllHeld P)
    (hword : ∀ p done, s.mode = .word p done → P (.ofWord done.reverse p))
    (hstring : ∀ p done, s.mode = .string p done → P (.str (String.ofList done.reverse) p))
    (hlist : ∀ ds p, (∀ d ∈ ds, P d) → p ∈ s.starts → P (.list ds p)) (x : Char) :
    Gives (AllHeld P) (s.take x) := by
  unfold Scanner.take
  split
  · exact hs.between hlist x
  · split
    · exact ⟨hs.items, hs.data⟩
    · exact hs
  · split
    · exact ⟨hs.items, hs.data⟩
    · refine (Answers.trivial s.checkWord).bind fun _ _ => ?_
      exact (hs.endWord hword).between (by rwa [endWord_starts]) x
  · next p done hmode =>
    split
    · exact hs.emit (hstring p done hmode)
    split
    · exact ⟨hs.items, hs.data⟩
    · exact ⟨hs.items, hs.data⟩
  · exact ⟨hs.items, hs.data⟩

end AllHeld

/-! ## What a scanner has of a word -/

/-- Between data a word starts at a character of words. -/
theorem word_between (hs : s.mode = .gap) (x : Char) :
    Gives (fun t => ∀ p done, t.mode = .word p done →
      p = s.position ∧ done = [x] ∧ Cursor.isWordChar x = true ∧ Cursor.isGap x = false)
      (s.between x) := by
  have hnone : ∀ p done, s.mode ≠ .word p done := fun p done h => nomatch hs.symm.trans h
  unfold Scanner.between
  split
  · exact fun p done h => absurd h (hnone p done)
  next hgap =>
  split
  · exact nofun
  next hsemi =>
  split
  · split
    · exact fun p done h => absurd h (hnone p done)
    · exact True.intro
  next hopen =>
  split
  · split
    · exact True.intro
    · exact fun p done h => nomatch (emit_mode _ _).symm.trans h
  next hclose =>
  split
  · exact nofun
  next hquote =>
  have hgap : Cursor.isGap x = false := by simpa using hgap
  intro p done h
  obtain ⟨rfl, rfl⟩ := ScanMode.word.inj h
  exact ⟨rfl, rfl, Cursor.isWordChar_of_not hgap hsemi hopen hclose hquote, hgap⟩

/-- A word starts at a character of words or goes on with one. -/
theorem word_take (s : Scanner) (x : Char) :
    Gives (fun t => ∀ p done, t.mode = .word p done → Cursor.isWordChar x = true ∧
      (p = s.position ∧ done = [x] ∧ Cursor.isGap x = false ∨
        ∃ before, s.mode = .word p before ∧ done = x :: before)) (s.take x) := by
  unfold Scanner.take
  split
  · next hmode =>
    refine (word_between hmode x).imp fun t ht p done h => ?_
    obtain ⟨hp, hdone, hx, hgap⟩ := ht p done h
    exact ⟨hx, .inl ⟨hp, hdone, hgap⟩⟩
  · next hmode =>
    split
    · exact nofun
    · exact fun p done h => nomatch hmode.symm.trans h
  · next p before hmode =>
    split
    · next hx =>
      intro p' done h
      obtain ⟨rfl, rfl⟩ := ScanMode.word.inj h
      exact ⟨hx, .inr ⟨before, hmode, rfl⟩⟩
    · have hgap : s.endWord.mode = .gap := endWord_mode (by rw [hmode]; rfl)
      refine (Answers.trivial s.checkWord).bind fun _ _ => ?_
      refine (word_between hgap x).imp fun t ht p done h => ?_
      obtain ⟨hp, hdone, hx, hgap⟩ := ht p done h
      exact ⟨hx, .inl ⟨hp.trans (endWord_position s), hdone, hgap⟩⟩
  · split
    · exact fun p done h => nomatch (emit_mode _ _).symm.trans h
    · split <;> exact nofun
  · exact nofun

/-- A word that is being read grew by this character, or starts with it. -/
theorem word_step {s t : Scanner} {x : Char} (h : s.step x = .ok t) {p : Position} {done : List Char}
    (hmode : t.mode = .word p done) : Cursor.isWordChar x = true ∧
      (p = s.position ∧ done = [x] ∧ Cursor.isGap x = false ∨
        ∃ before, s.mode = .word p before ∧ done = x :: before) := by
  have hstep : Gives (fun t => ∀ p done, t.mode = .word p done → Cursor.isWordChar x = true ∧
      (p = s.position ∧ done = [x] ∧ Cursor.isGap x = false ∨
        ∃ before, s.mode = .word p before ∧ done = x :: before)) (s.step x) :=
    (word_take s x).map fun _ hu => hu
  exact hstep.of_eq_ok h p done hmode

/-! ## Lexical data -/

/-- All data that a scanner holds are lexical, and what it has of a word can stand as one. -/
structure Lexical (s : Scanner) : Prop where
  word : ∀ p done, s.mode = .word p done → IsWord done.reverse
  items : ∀ l ∈ s.opened, ∀ d ∈ l.items, d.IsLexical
  data : ∀ d ∈ s.data, d.IsLexical

/-- All data held can be spelled. -/
theorem Lexical.allHeld (hs : s.Lexical) : s.AllHeld Datum.IsLexical :=
  ⟨hs.items, hs.data⟩

theorem Lexical.isLexical_ofWord (hs : s.Lexical) (p : Position) (done : List Char)
    (hmode : s.mode = .word p done) : (Datum.ofWord done.reverse p).IsLexical :=
  Datum.isLexical_ofWord (hs.word p done hmode) p

theorem Lexical.take (hs : s.Lexical) (x : Char) : Gives Lexical (s.take x) := by
  have hheld := hs.allHeld.take hs.isLexical_ofWord (fun _ _ _ => True.intro)
    (fun ds p hds _ => Datum.isLexical_list.mpr hds) x
  refine ((word_take s x).and hheld).imp fun t ⟨hword, ht⟩ => ⟨fun p done hmode => ?_, ht.1, ht.2⟩
  obtain ⟨hx, ⟨-, rfl, hgap⟩ | ⟨before, hbefore, rfl⟩⟩ := hword p done hmode
  · exact isWord_singleton hgap hx
  · rw [List.reverse_cons]
    exact (hs.word p before hbefore).append_singleton hx

/-- One step keeps the data spelled. -/
theorem Lexical.step (hs : s.Lexical) {x : Char} {t : Scanner} (h : s.step x = .ok t) :
    t.Lexical := by
  have hstep : Gives Lexical (s.step x) := (hs.take x).map fun u hu => ⟨hu.word, hu.items, hu.data⟩
  exact hstep.of_eq_ok h

theorem lexical_start (limits : Limits) : (start limits).Lexical :=
  ⟨nofun, fun _ h => absurd h List.not_mem_nil, fun _ h => absurd h List.not_mem_nil⟩

/-- All that was scanned from a text can be spelled. -/
theorem lexical_scan {limits : Limits} {text : List Char} {t : Scanner}
    (h : (start limits).scan text = .ok t) : t.Lexical := by
  have hstep : ∀ (_ : List Char) x s t, Lexical s → s.step x = .ok t → Lexical t :=
    fun _ _ _ _ hs hx => hs.step hx
  exact scan_induction (lexical_start limits) hstep h

end Scanner

/-- The data of a text are lexical. -/
theorem Datum.areLexical_of_read {text : String} {limits : Limits} {data : List Datum}
    (h : read text limits = .ok data) : AreLexical data := by
  rw [Scanner.read_eq, Scanner.read, Scanner.run_eq_ok] at h
  obtain ⟨s, hscan, hfinish⟩ := h
  obtain ⟨-, -, -, rfl⟩ := Scanner.finish_eq_ok.mp hfinish
  rw [areLexical_iff]
  intro d hd
  have hlexical := Scanner.lexical_scan hscan
  exact (hlexical.allHeld.endWord hlexical.isLexical_ofWord).data d (List.mem_reverse.mp hd)

end Parley
