import Parley.Proofs.Script.Depth
import Parley.Proofs.Script.Lexical
import Parley.Proofs.Text.Strip

/-!
# Layouts of Data

The same data can be laid out in a text in many ways. The tokens of the data have to follow one after
the other, and there can be gaps of blanks and comments before, between and behind them; nothing but a
gap keeps two words apart. A token can be spelled in more than one way: an integer can have leading
zeros and a sign, and some characters of strings can be escaped or not. Reading does not tell these
layouts apart: it gives back the data, with the positions of the text. It takes integers of so many digits
only, and data that are nested so deep.

We follow the scanner over the tokens. What it holds after some of them, positions aside (`Outline`),
depends on the tokens only, not on their layout.

* `Scanner.scan_gap`, `Scanner.scan_token`: one gap and one token;
* `Scanner.holds_layout`: a layout of tokens;
* `Outline.takeAll_tokens`: the tokens of data add up to these data;
* `Datum.read_of_layout`: reading gives back what was laid out.
-/

namespace Parley

namespace Datum

mutual

/-- A datum that lies nowhere: its positions are forgotten. -/
def unplaced : Datum → Datum
  | .symbol name _ => .symbol name default
  | .int n _ => .int n default
  | .str s _ => .str s default
  | .list items _ => .list (unplacedAll items) default

/-- Data whose positions are forgotten. -/
def unplacedAll : List Datum → List Datum
  | [] => []
  | d :: rest => unplaced d :: unplacedAll rest

end

theorem unplacedAll_eq_map (ds : List Datum) : unplacedAll ds = ds.map unplaced := by
  induction ds with
  | nil => rfl
  | cons d rest ih => rw [unplacedAll, ih, List.map_cons]

theorem unplaced_list (items : List Datum) (p : Position) :
    (list items p).unplaced = .list (items.map unplaced) default := by
  rw [unplaced, unplacedAll_eq_map]

end Datum

/-! ## Tokens and their layouts -/

/-- What data are written with. -/
inductive Token
  | opening
  | closing
  | symbol (name : String)
  | int (n : Int)
  | str (s : String)
  deriving DecidableEq

/-- Whether a token is a bare word, which does not show by itself where it ends. -/
def Token.isBare : Token → Bool
  | .symbol _ => true
  | .int _ => true
  | _ => false

/-- A token that can be written. -/
def Token.IsLexical : Token → Prop
  | .symbol name => IsSymbol name
  | _ => True

namespace Datum

mutual

/-- The tokens of a datum. -/
def tokens : Datum → List Token
  | .symbol name _ => [.symbol name]
  | .int n _ => [.int n]
  | .str s _ => [.str s]
  | .list items _ => .opening :: (tokensAll items ++ [.closing])

/-- The tokens of data. -/
def tokensAll : List Datum → List Token
  | [] => []
  | d :: rest => tokens d ++ tokensAll rest

end

mutual

theorem isLexical_tokens : ∀ d : Datum, d.IsLexical → ∀ t ∈ d.tokens, t.IsLexical
  | .symbol _ _, h => List.forall_mem_singleton.mpr h
  | .int _ _, _ => List.forall_mem_singleton.mpr True.intro
  | .str _ _, _ => List.forall_mem_singleton.mpr True.intro
  | .list items _, h => by
    rw [tokens, List.forall_mem_cons, List.forall_mem_append]
    exact ⟨True.intro, isLexical_tokensAll items h, List.forall_mem_singleton.mpr True.intro⟩

theorem isLexical_tokensAll : ∀ ds : List Datum, AreLexical ds →
    ∀ t ∈ tokensAll ds, t.IsLexical
  | [], _ => List.forall_mem_nil _
  | d :: rest, h => by
    rw [tokensAll, List.forall_mem_append]
    exact ⟨isLexical_tokens d h.1, isLexical_tokensAll rest h.2⟩

end

end Datum

/-- The ways to write a character inside a string. -/
inductive SpellsChar : Char → List Char → Prop
  | raw (x : Char) (hquote : x ≠ '"') (hslash : x ≠ '\\') : SpellsChar x [x]
  | quote : SpellsChar '"' ['\\', '"']
  | slash : SpellsChar '\\' ['\\', '\\']
  | newline : SpellsChar '\n' ['\\', 'n']
  | tab : SpellsChar '\t' ['\\', 't']

/-- The ways to write characters inside a string. -/
inductive SpellsChars : List Char → List Char → Prop
  | nil : SpellsChars [] []
  | cons {x : Char} {word xs words : List Char} (hx : SpellsChar x word)
      (hxs : SpellsChars xs words) : SpellsChars (x :: xs) (word ++ words)

/-- The ways to write a token. -/
inductive Token.Spells : Token → List Char → Prop
  | opening : Spells .opening ['(']
  | closing : Spells .closing [')']
  | symbol (name : String) : Spells (.symbol name) name.toList
  | int {n : Int} {word : List Char} (h : Text.SpellsInt n word)
      (hshort : Text.isOverlong word = false) : Spells (.int n) word
  | str {s : String} {chars : List Char} (h : SpellsChars s.toList chars) :
      Spells (.str s) ('"' :: (chars ++ ['"']))

/-- Blanks, and comments that end with their lines. -/
inductive IsGap : List Char → Prop
  | nil : IsGap []
  | blank {x : Char} {rest : List Char} (hx : Text.isBlank x = true) (h : IsGap rest) :
      IsGap (x :: rest)
  | comment {chars rest : List Char} (hchars : '\n' ∉ chars) (h : IsGap rest) :
      IsGap (';' :: (chars ++ '\n' :: rest))

/-- A gap starts with what ends a word. -/
theorem IsGap.head {x : Char} {rest : List Char} (h : IsGap (x :: rest)) :
    Cursor.isWordChar x = false := by
  cases h with
  | blank hx _ => simp [Cursor.isWordChar, hx]
  | comment _ _ => decide

/-- So does a token that is no bare word. -/
theorem Token.Spells.head {t : Token} {word : List Char} (h : t.Spells word)
    (ht : t.isBare = false) : ∃ x xs, word = x :: xs ∧ Cursor.isWordChar x = false := by
  cases h with
  | opening => exact ⟨_, _, rfl, by decide⟩
  | closing => exact ⟨_, _, rfl, by decide⟩
  | symbol _ => exact nomatch ht
  | int _ _ => exact nomatch ht
  | str _ => exact ⟨_, _, rfl, by decide⟩

/-- The ways to write tokens one after the other, where a bare word may have come before. -/
inductive Layout : Bool → List Token → List Char → Prop
  | done {bare : Bool} {gap : List Char} (hgap : IsGap gap) : Layout bare [] gap
  | token {bare : Bool} {gap word text : List Char} {t : Token} {ts : List Token}
      (hgap : IsGap gap) (hapart : bare = true → t.isBare = true → gap ≠ [])
      (hword : t.Spells word) (h : Layout t.isBare ts text) :
      Layout bare (t :: ts) (gap ++ (word ++ text))

/-- Only a bare word needs a gap in front of it, and only behind another one. -/
theorem Layout.adjacent {bare : Bool} {t : Token} {ts : List Token} {word text : List Char}
    (hfree : bare = false ∨ t.isBare = false) (hword : t.Spells word) (h : Layout t.isBare ts text) :
    Layout bare (t :: ts) (word ++ text) := by
  refine .token .nil (fun hbare ht => ?_) hword h
  rcases hfree with hfree | hfree
  · exact nomatch hbare.symm.trans hfree
  · exact nomatch ht.symm.trans hfree

/-- A text is a way to write data. -/
def Datum.AreLaidOut (ds : List Datum) (text : List Char) : Prop :=
  Layout false (tokensAll ds) text

/-! ## Outlines -/

/-- What a scanner holds between data, positions aside. -/
structure Outline where
  /-- The items of the open lists, innermost list first and last item first. -/
  opened : List (List Datum)
  data : List Datum

namespace Outline

/-- What is held after another datum. -/
def add (o : Outline) (d : Datum) : Outline :=
  match o.opened with
  | [] => { o with data := d :: o.data }
  | items :: rest => { o with opened := (d :: items) :: rest }

theorem foldl_add_nil (data ds : List Datum) :
    ds.foldl Outline.add ⟨[], data⟩ = ⟨[], ds.reverse ++ data⟩ := by
  induction ds generalizing data with
  | nil => rfl
  | cons d rest ih =>
    rw [List.foldl_cons, List.reverse_cons, List.append_assoc]
    exact ih (d :: data)

theorem foldl_add_cons (items : List Datum) (opened : List (List Datum))
    (data ds : List Datum) :
    ds.foldl Outline.add ⟨items :: opened, data⟩ = ⟨(ds.reverse ++ items) :: opened, data⟩ := by
  induction ds generalizing items with
  | nil => rfl
  | cons d rest ih =>
    rw [List.foldl_cons, List.reverse_cons, List.append_assoc]
    exact ih (d :: items)

theorem length_opened_add (o : Outline) (d : Datum) :
    (o.add d).opened.length = o.opened.length := by
  unfold add
  split
  · rfl
  · next hopened =>
    rw [hopened]
    rfl

/-- What is held after another token, unless it opens a list for which there is no room or closes one
that is not open. -/
def take (room : Nat) (o : Outline) : Token → Option Outline
  | .opening => if o.opened.length < room then some { o with opened := [] :: o.opened } else none
  | .closing =>
    match o.opened with
    | [] => none
    | items :: rest =>
      some (add { o with opened := rest } (.list items.reverse default))
  | .symbol name => some (o.add (.symbol name default))
  | .int n => some (o.add (.int n default))
  | .str s => some (o.add (.str s default))

/-- What is held after more tokens. -/
def takeAll (room : Nat) (o : Outline) (ts : List Token) : Option Outline :=
  ts.foldlM (take room) o

variable {room : Nat}

mutual

/-- The tokens of a datum add up to this datum, where there is room for it. -/
theorem takeAll_tokens : ∀ (d : Datum) (ts : List Token) (o : Outline),
    o.opened.length + d.depth ≤ room →
      o.takeAll room (d.tokens ++ ts) = (o.add d.unplaced).takeAll room ts
  | .symbol _ _, _, _, _ => rfl
  | .int _ _, _, _, _ => rfl
  | .str _ _, _, _, _ => rfl
  | .list items _, ts, o, h => by
    rw [Datum.depth] at h
    have hopen : o.take room .opening = some { o with opened := [] :: o.opened } :=
      if_pos (by omega)
    have hitems := takeAll_tokensAll items (.closing :: ts) { o with opened := [] :: o.opened }
      (by simp only [List.length_cons]; omega)
    rw [foldl_add_cons, List.append_nil] at hitems
    rw [Datum.tokens, List.cons_append, List.append_assoc, Datum.unplaced_list, takeAll,
      List.foldlM_cons, hopen]
    refine hitems.trans ?_
    show takeAll room _ ts = _
    rw [List.reverse_reverse]

/-- The tokens of data add up to these data, where there is room for them. -/
theorem takeAll_tokensAll : ∀ (ds : List Datum) (ts : List Token) (o : Outline),
    o.opened.length + Datum.depthAll ds ≤ room →
      o.takeAll room (Datum.tokensAll ds ++ ts) =
        ((ds.map Datum.unplaced).foldl add o).takeAll room ts
  | [], _, _, _ => rfl
  | d :: rest, ts, o, h => by
    rw [Datum.depthAll] at h
    rw [Datum.tokensAll, List.append_assoc, takeAll_tokens d _ _ (by omega),
      takeAll_tokensAll rest _ _ (by rw [length_opened_add]; omega)]
    rfl

end

end Outline

/-! ## Integers as words -/

namespace Text

theorem isWordChar_of_isDigit {x : Char} (h : x.isDigit = true) : Cursor.isWordChar x = true := by
  have hbounds : 48 ≤ x.toNat ∧ x.toNat ≤ 57 := Char.isDigit_iff_toNat.mp h
  have hne : ∀ y : Char, y.toNat < 48 ∨ 57 < y.toNat → x ≠ y := by
    rintro y hy rfl
    omega
  simp [Cursor.isWordChar, Cursor.isDelimiter, isBlank_of_isDigit h, hne '(' (by decide), hne ')' (by decide),
    hne '"' (by decide), hne ';' (by decide)]

/-- A run of digits stands as a word. -/
theorem isWord_of_isDigits {word : List Char} (h : isDigits word = true) : IsWord word := by
  obtain ⟨hne, hdigits⟩ := isDigits_iff.mp h
  refine ⟨hne, fun x hx => isWordChar_of_isDigit (hdigits x hx), fun hmark => ?_⟩
  exact absurd (hdigits _ (List.mem_of_mem_head? hmark)) (by decide)

/-- So it does behind a sign. -/
theorem isWord_cons {x : Char} {word : List Char} (hx : Cursor.isWordChar x = true)
    (hmark : x ≠ '\uFEFF') (h : IsWord word) : IsWord (x :: word) :=
  ⟨List.cons_ne_nil _ _, List.forall_mem_cons.mpr ⟨hx, h.chars⟩,
    fun hhead => hmark (Option.some.inj hhead)⟩

/-- All writings of an integer stand as words. -/
theorem isWord_of_spells {n : Int} {word : List Char} (h : SpellsInt n word) : IsWord word := by
  cases h with
  | bare zeros _ => exact isWord_of_isDigits (isDigits_paddedDigits zeros _)
  | plus zeros _ =>
    exact isWord_cons (by decide) (by decide) (isWord_of_isDigits (isDigits_paddedDigits zeros _))
  | minus zeros _ =>
    exact isWord_cons (by decide) (by decide) (isWord_of_isDigits (isDigits_paddedDigits zeros _))

end Text

namespace Scanner

variable {room : Nat} {p : Position} {opened : List OpenList} {data : List Datum} {s : Scanner}

/-! ## Words and strings -/

/-- Characters of words lengthen a word. -/
theorem scan_wordChars {word : List Char} (h : ∀ x ∈ word, Cursor.isWordChar x = true)
    (q : Position) (done : List Char) :
    (⟨q, .word p done, opened, data, room⟩ : Scanner).scan word =
      .ok ⟨word.foldl Position.after q, .word p (word.reverse ++ done), opened, data, room⟩ := by
  induction word generalizing q done with
  | nil => rfl
  | cons x xs ih =>
    have htake : (⟨q, .word p done, opened, data, room⟩ : Scanner).take x =
        .ok ⟨q, .word p (x :: done), opened, data, room⟩ := by
      simp [take, h x List.mem_cons_self]
    rw [scan_of_take htake, ih (fun y hy => h y (List.mem_cons_of_mem _ hy)), List.reverse_cons,
      List.append_assoc]
    rfl

/-- A word is taken up as a whole, and may go on. -/
theorem scan_word {word : List Char} (h : IsWord word) :
    (atGap room p opened data).scan word =
      .ok ⟨word.foldl Position.after p, .word p word.reverse, opened, data, room⟩ := by
  obtain ⟨x, xs, rfl⟩ := List.exists_cons_of_ne_nil h.nonempty
  have hx : Cursor.isWordChar x = true := h.chars x List.mem_cons_self
  have hgap : Cursor.isGap x = false := by
    have hmark : x ≠ '\uFEFF' := fun hmark => h.unmarked (congrArg some hmark)
    simp only [Cursor.isWordChar, Bool.and_eq_true, Bool.not_eq_true'] at hx
    simp [Cursor.isGap, hx.1, hmark]
  rw [scan_of_take (take_wordChar hx hgap),
    scan_wordChars (fun y hy => h.chars y (List.mem_cons_of_mem _ hy)), List.reverse_cons]
  rfl

/-- However a character of a string is written, it is taken up as that character. -/
theorem scan_spelledChar {x : Char} {word : List Char} (h : SpellsChar x word) (q : Position)
    (done : List Char) :
    (⟨q, .string p done, opened, data, room⟩ : Scanner).scan word =
      .ok ⟨word.foldl Position.after q, .string p (x :: done), opened, data, room⟩ := by
  cases h with
  | raw _ hquote hslash =>
    have htake : (⟨q, .string p done, opened, data, room⟩ : Scanner).take x =
        .ok ⟨q, .string p (x :: done), opened, data, room⟩ := by
      simp [take, hquote, hslash]
    rw [scan_of_take htake]
    rfl
  | quote => rfl
  | slash => rfl
  | newline => rfl
  | tab => rfl

/-- However a string is written, it is taken up as its characters. -/
theorem scan_spelledChars {chars words : List Char} (h : SpellsChars chars words) (q : Position)
    (done : List Char) :
    (⟨q, .string p done, opened, data, room⟩ : Scanner).scan words =
      .ok ⟨words.foldl Position.after q, .string p (chars.reverse ++ done), opened, data, room⟩ := by
  induction h generalizing q done with
  | nil => rfl
  | cons hx hxs ih =>
    rw [scan_append (scan_spelledChar hx q done), ih, List.foldl_append, List.reverse_cons,
      List.append_assoc]
    rfl

/-- A string in quotes is taken up whole. -/
theorem scan_quoted {chars words : List Char} (h : SpellsChars chars words) :
    (atGap room p opened data).scan ('"' :: (words ++ ['"'])) =
      .ok { (atGap room p opened data).emit (.str (String.ofList chars) p) with
        position := ('"' :: (words ++ ['"'])).foldl Position.after p } := by
  have hopen : (atGap room p opened data).take '"' = .ok ⟨p, .string p [], opened, data, room⟩ := rfl
  have hclose : ∀ q, (⟨q, .string p chars.reverse, opened, data, room⟩ : Scanner).take '"' =
      .ok ((⟨q, .string p chars.reverse, opened, data, room⟩ : Scanner).emit
        (.str (String.ofList chars.reverse.reverse) p)) := fun _ => rfl
  rw [scan_of_take hopen, scan_append (scan_spelledChars h _ []), List.append_nil,
    scan_of_take (hclose _), List.reverse_reverse, List.foldl_cons, List.foldl_append]
  cases opened <;> rfl

/-! ## Gaps -/

/-- Characters of a comment are skipped. -/
theorem scan_commentChars {chars : List Char} (h : '\n' ∉ chars) (q : Position) :
    (⟨q, .comment, opened, data, room⟩ : Scanner).scan chars =
      .ok ⟨chars.foldl Position.after q, .comment, opened, data, room⟩ := by
  induction chars generalizing q with
  | nil => rfl
  | cons x xs ih =>
    rw [List.mem_cons, not_or] at h
    have htake : (⟨q, .comment, opened, data, room⟩ : Scanner).take x = .ok ⟨q, .comment, opened, data, room⟩ := by
      simp [take, Ne.symm h.1]
    rw [scan_of_take htake]
    exact ih h.2 _

/-- Between data a gap is skipped. -/
theorem scan_gap (hs : s.mode = .gap) {gap : List Char} (h : IsGap gap) :
    s.scan gap = .ok { s with position := gap.foldl Position.after s.position } := by
  obtain ⟨p, mode, opened, data, room⟩ := s
  subst hs
  induction h generalizing p with
  | nil => rfl
  | blank hx hrest ih =>
    have hgap : Cursor.isGap _ = true := congrArg (· || _) hx
    rw [scan_of_take (take_gap hgap)]
    exact ih _
  | comment hchars hrest ih =>
    have hopen : (atGap room p opened data).take ';' = .ok ⟨p, .comment, opened, data, room⟩ := rfl
    have hclose : ∀ q, (⟨q, .comment, opened, data, room⟩ : Scanner).take '\n' =
        .ok (atGap room q opened data) := fun _ => rfl
    rw [scan_of_take hopen, scan_append (scan_commentChars hchars _), scan_of_take (hclose _), ih,
      List.foldl_cons, List.foldl_append]
    rfl

/-- What is no character of words is looked at as between data. -/
theorem scan_endWord (hs : s.mode.isCode = true) (hword : s.checkWord = .ok ()) {x : Char}
    (hx : Cursor.isWordChar x = false) (xs : List Char) :
    s.scan (x :: xs) = s.endWord.scan (x :: xs) := by
  rw [scan, List.foldlM_cons, step, take_of_isCode hs hx, hword, scan, List.foldlM_cons, step,
    take_of_gap (endWord_mode hs), endWord_position]
  rfl

/-! ## Tokens -/

/-- What a scanner holds, a word that it is in aside. -/
def outline (s : Scanner) : Outline :=
  ⟨s.opened.map fun l => l.items.map Datum.unplaced, s.data.map Datum.unplaced⟩

@[simp]
theorem outline_emit (s : Scanner) (d : Datum) :
    (s.emit d).outline = s.outline.add d.unplaced := by
  unfold emit
  split
  · next hopened => simp [outline, Outline.add, hopened]
  · next hopened => simp [outline, Outline.add, hopened]

/-- The scanner passes a text and holds so much behind it, once a word that it is in has ended. -/
def Holds (s : Scanner) (text : List Char) (o : Outline) : Prop :=
  ∃ t, s.scan text = .ok t ∧ t.mode.isCode = true ∧ t.checkWord = .ok () ∧ t.endWord.outline = o

/-- The scanner holds so much outside strings and comments, and is in no word unless a bare one has
just come, which can end here. -/
structure Stands (s : Scanner) (room : Nat) (bare : Bool) (o : Outline) : Prop where
  room : s.room = room
  code : s.mode.isCode = true
  gap : bare = false → s.mode = .gap
  word : s.checkWord = .ok ()
  outline : s.endWord.outline = o

variable {bare : Bool} {o : Outline}

theorem stands_of_gap (hs : s.mode = .gap) (bare : Bool) : s.Stands s.room bare s.outline :=
  ⟨rfl, by rw [hs]; rfl, fun _ => hs, checkWord_of_gap hs, by rw [endWord_of_gap hs]⟩

/-- Where a scanner is does not matter. -/
theorem stands_moved (hs : s.mode = .gap) (q : Position) (bare : Bool) :
    ({ s with position := q } : Scanner).Stands s.room bare s.outline :=
  stands_of_gap (s := { s with position := q }) hs bare

/-- A gap changes nothing but that a word ends. -/
theorem Stands.scan_gap (hs : s.Stands room bare o) {gap : List Char} (h : IsGap gap) :
    ∃ t, s.scan gap = .ok t ∧ t.Stands room (bare && gap.isEmpty) o := by
  cases gap with
  | nil => exact ⟨s, rfl, by rwa [List.isEmpty_nil, Bool.and_true]⟩
  | cons x rest =>
    have hgap : s.endWord.mode = .gap := endWord_mode hs.code
    have hroom : s.endWord.room = room := by rw [endWord_room, hs.room]
    rw [scan_endWord hs.code hs.word h.head, Scanner.scan_gap hgap h, ← hs.outline, ← hroom]
    exact ⟨_, rfl, stands_moved hgap _ _⟩

/-- What is made of a datum holds it. -/
theorem stands_emit (s : Scanner) (d : Datum) (q : Position) (bare : Bool) :
    ({ s.emit d with position := q } : Scanner).Stands s.room bare (s.outline.add d.unplaced) := by
  rw [← outline_emit, ← emit_room s d]
  exact stands_moved (emit_mode s d) q bare

/-- A word is held as the datum that it writes, if it can be read. -/
theorem stands_word (hs : s.mode = .gap) {word : List Char} (h : IsWord word) {d : Datum}
    (hread : Datum.readWord word s.position = .ok (.ofWord word s.position))
    (hd : (Datum.ofWord word s.position).unplaced = d) :
    ∃ u, s.scan word = .ok u ∧ u.Stands s.room true (s.outline.add d) := by
  obtain ⟨p, mode, opened, data, room⟩ := s
  subst hs
  refine ⟨_, scan_word h, rfl, rfl, nofun, ?_, ?_⟩
  · simp only [checkWord, List.reverse_reverse]
    rw [hread]
    rfl
  · simp only [endWord, List.reverse_reverse, outline_emit]
    exact congrArg _ hd

/-- A token behind a gap is taken up, however it is written. -/
theorem scan_token (hs : s.mode = .gap) {t : Token} (ht : t.IsLexical) {word : List Char}
    (hword : t.Spells word) (ho : s.outline.take s.room t = some o) :
    ∃ u, s.scan word = .ok u ∧ u.Stands s.room t.isBare o := by
  cases hword with
  | opening =>
    obtain ⟨hroom, ho⟩ := Option.ite_none_right_eq_some.mp ho
    obtain rfl := Option.some.inj ho
    rw [outline, List.length_map] at hroom
    let inner : Scanner :=
      ⟨s.position.after '(', s.mode, ⟨s.position, []⟩ :: s.opened, s.data, s.room⟩
    have hinner : inner.mode = .gap := hs
    have hopen : s.take '(' = .ok { s with opened := ⟨s.position, []⟩ :: s.opened } := by
      rw [take_of_gap hs, between_open, if_pos hroom]
    exact ⟨inner, scan_of_take hopen [], stands_of_gap hinner false⟩
  | closing =>
    cases hopened : s.opened with
    | nil =>
      rw [outline, hopened] at ho
      exact nomatch ho
    | cons l rest =>
      let outer : Scanner := { s with opened := rest }
      have hclose : s.take ')' = .ok (outer.emit (.list l.items.reverse l.start)) := by
        rw [take_of_gap hs, between_close, hopened]
      have hlist : outer.outline.add (Datum.list l.items.reverse l.start).unplaced = o := by
        rw [outline, hopened] at ho
        rw [Datum.unplaced_list, List.map_reverse]
        exact Option.some.inj ho
      rw [← hlist]
      exact ⟨_, scan_of_take hclose [], stands_emit outer _ _ _⟩
  | symbol name =>
    obtain rfl := Option.some.inj ho
    have hread := Datum.readWord_of_not
      (fun h => Text.integer?_eq_none_iff.mp ht.notInteger h.1) s.position
    apply stands_word hs ht.word hread
    rw [Datum.ofWord, ht.notInteger, String.ofList_toList]
    rfl
  | int h hshort =>
    obtain rfl := Option.some.inj ho
    have hread := Datum.readWord_of_not (fun h => Bool.false_ne_true (hshort.symm.trans h.2)) s.position
    apply stands_word hs (Text.isWord_of_spells h) hread
    rw [Datum.ofWord, Text.integer?_of_spells h]
    rfl
  | @str text chars h =>
    obtain rfl := Option.some.inj ho
    obtain ⟨p, mode, opened, data, room⟩ := s
    subst hs
    refine ⟨_, scan_quoted h, ?_⟩
    rw [String.ofList_toList]
    exact stands_emit (atGap room p opened data) (.str text p) _ _

/-- A token that need not be kept apart from what comes before ends a word. -/
theorem Stands.scan_token (hs : s.Stands room bare o) {t : Token} (ht : t.IsLexical)
    (hapart : t.isBare = true → bare = false) {word : List Char} (hword : t.Spells word)
    {o' : Outline} (ho : o.take room t = some o') :
    ∃ u, s.scan word = .ok u ∧ u.Stands room t.isBare o' := by
  obtain rfl := hs.room
  rw [← hs.outline] at ho
  cases hbare : t.isBare with
  | true =>
    have hgap := hs.gap (hapart hbare)
    rw [endWord_of_gap hgap] at ho
    exact hbare ▸ Scanner.scan_token hgap ht hword ho
  | false =>
    -- Parentheses and quotes end a word themselves.
    obtain ⟨x, xs, rfl, hx⟩ := hword.head hbare
    rw [scan_endWord hs.code hs.word hx]
    rw [← endWord_room] at ho ⊢
    exact hbare ▸ Scanner.scan_token (endWord_mode hs.code) ht hword ho

/-- What is held behind tokens does not depend on their layout. -/
theorem holds_layout {ts : List Token} {text : List Char} (h : Layout bare ts text)
    (hlexical : ∀ t ∈ ts, t.IsLexical) (hs : s.Stands room bare o) {o' : Outline}
    (ho : o.takeAll room ts = some o') : s.Holds text o' := by
  induction h generalizing s o with
  | done hgap =>
    obtain ⟨u, hu, hstands⟩ := hs.scan_gap hgap
    exact ⟨u, hu, hstands.code, hstands.word, hstands.outline.trans (Option.some.inj ho)⟩
  | @token bare gap word text t ts hgap hapart hword _ ih =>
    obtain ⟨ht, hrest⟩ := List.forall_mem_cons.mp hlexical
    obtain ⟨mid, hmid, ho⟩ := Option.bind_eq_some_iff.mp ho
    obtain ⟨u, hu, hgapped⟩ := hs.scan_gap hgap
    -- Two bare words have a gap between them, so the first has ended.
    have hfree : t.isBare = true → (bare && gap.isEmpty) = false := by
      intro hbare
      cases bare with
      | false => rfl
      | true => exact List.isEmpty_eq_false_iff.mpr (hapart rfl hbare)
    obtain ⟨v, hv, hstands⟩ := hgapped.scan_token ht hfree hword hmid
    obtain ⟨w, hw, hholds⟩ := ih hrest hstands ho
    exact ⟨w, by rw [scan_append hu, scan_append hv, hw], hholds⟩

/-- A numeral with too many digits is refused where it starts. -/
theorem run_of_numeral (hs : s.mode = .gap) {word after : List Char} (hnumeral : Text.IsNumeral word)
    (hlong : Text.isOverlong word = true)
    (hended : ∀ x xs, after = x :: xs → Cursor.isWordChar x = false) :
    s.run (word ++ after) = .error ⟨s.position, .tooManyDigits⟩ := by
  obtain ⟨p, mode, opened, data, room⟩ := s
  subst hs
  obtain ⟨n, hspells⟩ := Text.isNumeral_iff.mp hnumeral
  rw [run_append (scan_word (Text.isWord_of_spells hspells))]
  refine run_of_checkWord ?_ hended
  simp only [checkWord, List.reverse_reverse]
  rw [Datum.readWord_eq_error_iff.mpr ⟨hnumeral, hlong, rfl⟩]
  rfl

end Scanner

/-- Reading gives back lexical data that are not nested too deep from all their layouts, but for their
positions. -/
theorem Datum.read_of_layout {ds : List Datum} {text : String} {limits : Limits} (h : AreLexical ds)
    (hdepth : depthAll ds ≤ limits.lists) (htext : AreLaidOut ds text.toList) :
    ∃ data, read text limits = .ok data ∧ data.map unplaced = ds.map unplaced := by
  have hroom : (⟨[], []⟩ : Outline).opened.length + depthAll ds ≤ limits.lists := by
    simpa using hdepth
  have htokens := Outline.takeAll_tokensAll ds [] ⟨[], []⟩ hroom
  rw [List.append_nil, Outline.foldl_add_nil, List.append_nil] at htokens
  have hstart : (Scanner.start limits).Stands limits.lists false ⟨[], []⟩ :=
    Scanner.stands_of_gap rfl false
  obtain ⟨s, hscan, hcode, hword, houtline⟩ :=
    Scanner.holds_layout htext (isLexical_tokensAll ds h) hstart htokens
  obtain ⟨hopened, hdata⟩ := Outline.mk.inj houtline
  refine ⟨s.endWord.data.reverse, ?_, ?_⟩
  · have hnone : s.opened = [] := by
      rw [Scanner.opened_eq_nil_iff, ← Scanner.endWord_starts, ← Scanner.opened_eq_nil_iff]
      exact List.map_eq_nil_iff.mp hopened
    rw [Scanner.read_eq, Scanner.read, Scanner.run_of_scan hscan, Scanner.finish_eq_ok]
    exact ⟨ScanMode.quote?_of_isCode hcode, hword, hnone, rfl⟩
  · rw [List.map_reverse, hdata, List.reverse_reverse]

/-- A text with a numeral that has too many digits is refused where the numeral starts, if nothing before
it is. -/
theorem Datum.read_of_numeral {limits : Limits} {before word after : List Char} {s : Scanner}
    (hscan : (Scanner.start limits).scan before = .ok s) (hgap : s.mode = .gap)
    (hnumeral : Text.IsNumeral word) (hlong : Text.isOverlong word = true)
    (hended : ∀ x xs, after = x :: xs → Cursor.isWordChar x = false) :
    read (String.ofList (before ++ (word ++ after))) limits =
      .error ⟨s.position, .tooManyDigits⟩ := by
  rw [Scanner.read_eq, Scanner.read, String.toList_ofList, Scanner.run_append hscan]
  exact Scanner.run_of_numeral hgap hnumeral hlong hended

/-- The border between symbols and integers: a name can be written unless it is a numeral. -/
theorem isSymbol_iff {name : String} : IsSymbol name ↔ name ≠ "" ∧
    (∀ x ∈ name.toList, Text.isBlank x = false ∧ x ∉ ['(', ')', '"', ';']) ∧
    name.toList.head? ≠ some '\uFEFF' ∧ ¬ Text.IsNumeral name.toList := by
  have hempty : name.toList ≠ [] ↔ name ≠ "" := not_congr String.toList_eq_nil_iff
  have hchar : ∀ x, Cursor.isWordChar x = true ↔
      Text.isBlank x = false ∧ x ∉ ['(', ')', '"', ';'] := by
    intro x
    simp [Cursor.isWordChar, Cursor.isDelimiter, and_assoc]
  rw [← hempty, ← Text.integer?_eq_none_iff]
  constructor
  · intro h
    exact ⟨h.word.nonempty, fun x hx => (hchar x).mp (h.word.chars x hx), h.word.unmarked,
      h.notInteger⟩
  · rintro ⟨hne, hchars, hmark, hint⟩
    exact ⟨⟨hne, fun x hx => (hchar x).mpr (hchars x hx), hmark⟩, hint⟩

/-- So is a text that is nothing but such a numeral. -/
theorem Datum.read_numeral {word : List Char} (hnumeral : Text.IsNumeral word)
    (hlong : Text.isOverlong word = true) (limits : Limits) :
    read (String.ofList word) limits = .error ⟨⟨1, 1⟩, .tooManyDigits⟩ := by
  have hscan : (Scanner.start limits).scan [] = .ok (Scanner.start limits) := rfl
  have hended : ∀ x xs, ([] : List Char) = x :: xs → Cursor.isWordChar x = false := nofun
  have hread := Datum.read_of_numeral hscan rfl hnumeral hlong hended
  rw [List.nil_append, List.append_nil] at hread
  exact hread

/-- The text that charges a price in digits. -/
def priceText (digits : List Char) : List Char :=
  "(spend ".toList ++ (digits ++ [')'])

/-- A price of too many digits is refused where it stands. -/
theorem Datum.read_priceText {digits : List Char} (hnumeral : Text.IsNumeral digits)
    (hlong : Text.isOverlong digits = true) :
    read (String.ofList (priceText digits)) = .error ⟨⟨1, 8⟩, .tooManyDigits⟩ := by
  obtain ⟨s, hscan, hgap, hposition⟩ : ∃ s, (Scanner.start .standard).scan "(spend ".toList = .ok s ∧
      s.mode = .gap ∧ s.position = ⟨1, 8⟩ := ⟨_, rfl, rfl, rfl⟩
  have hended : ∀ x xs, [')'] = x :: xs → Cursor.isWordChar x = false := by
    rintro x xs h
    rw [← (List.cons.inj h).1]
    decide
  have hread := Datum.read_of_numeral hscan hgap hnumeral hlong hended
  rw [hposition] at hread
  exact hread

/-- Data are read if and only if they are lexical and not nested too deep: all data of a text are, and
such data are read from every text that is a layout of them, but for their positions. A name is lexical
if it has no blanks, parentheses, quotes and semicolons, does not start with a byte order mark and is no
numeral. -/
theorem Datum.read_lexical (limits : Limits) :
    (∀ name : String, IsSymbol name ↔ name ≠ "" ∧
      (∀ x ∈ name.toList, Text.isBlank x = false ∧ x ∉ ['(', ')', '"', ';']) ∧
      name.toList.head? ≠ some '\uFEFF' ∧ ¬ Text.IsNumeral name.toList) ∧
    (∀ (text : String) (data : List Datum), read text limits = .ok data →
      AreLexical data ∧ depthAll data ≤ limits.lists) ∧
    ∀ (ds : List Datum) (text : String), AreLexical ds → depthAll ds ≤ limits.lists →
      AreLaidOut ds text.toList →
      ∃ data, read text limits = .ok data ∧ data.map unplaced = ds.map unplaced :=
  ⟨fun _ => isSymbol_iff, fun _ _ h => ⟨areLexical_of_read h, depthAll_of_read h⟩,
    fun _ _ => read_of_layout⟩

/-- Without the limit of digits this fails: a zero with many zeros in front of it is not read. -/
theorem Datum.read_fails_of_zeros : AreLexical [.int 0 default] ∧ Text.SpellsInt 0 Text.manyZeros ∧
    read (String.ofList Text.manyZeros) = .error ⟨⟨1, 1⟩, .tooManyDigits⟩ := by
  have hread := Datum.read_numeral Text.isNumeral_manyZeros Text.isOverlong_manyZeros .standard
  exact ⟨⟨True.intro, True.intro⟩, Text.spells_manyZeros, hread⟩

/-- A payment and a word, which lie nowhere. -/
def Datum.payment : List Datum :=
  [.list [.symbol "spend" default, .int 7 default, .str "\n;\"" default] default,
    .symbol "x" default]

/-- The payment with a sign and zeros, a comment and as few blanks as possible. -/
def Datum.paymentText : String :=
  "(spend\t+007\"\\n;\\\"\";seven\n)x"

theorem Datum.read_lexical_payment : AreLexical payment ∧
    depthAll payment ≤ Limits.standard.lists ∧ AreLaidOut payment paymentText.toList ∧
    ∃ data, read paymentText = .ok data ∧ data.map unplaced = payment.map unplaced := by
  have hlexical : AreLexical payment := by
    refine ⟨⟨?_, True.intro, True.intro, True.intro⟩, ?_, True.intro⟩
    · show IsSymbol "spend"
      decide +kernel
    · show IsSymbol "x"
      decide +kernel
  have hchars : SpellsChars "\n;\"".toList _ :=
    .cons .newline (.cons (.raw ';' (by decide) (by decide)) (.cons .quote .nil))
  -- The tokens, last first, each with the gap in front of it.
  have hx : Layout false [.symbol "x"] _ := .adjacent (.inl rfl) (.symbol "x") (.done .nil)
  have hclosing : Layout false [.closing, .symbol "x"] _ :=
    .token (.comment (by decide : '\n' ∉ "seven".toList) .nil) (fun h => nomatch h) .closing hx
  have hstr : Layout true [.str "\n;\"", .closing, .symbol "x"] _ :=
    .adjacent (.inr rfl) (.str hchars) hclosing
  have hint : Layout true (.int 7 :: [.str "\n;\"", .closing, .symbol "x"]) _ :=
    .token (.blank (by decide : Text.isBlank '\t' = true) .nil) (fun _ _ => List.cons_ne_nil _ _)
      (.int (.plus 2 (by decide)) (by decide)) hstr
  have hspend : Layout false (.symbol "spend" :: .int 7 :: [.str "\n;\"", .closing, .symbol "x"]) _ :=
    .adjacent (.inl rfl) (.symbol "spend") hint
  have hlayout : AreLaidOut payment paymentText.toList := by
    have hopening : Layout false (tokensAll payment) _ := .adjacent (.inl rfl) .opening hspend
    refine cast (congrArg (Layout _ _) ?_) hopening
    decide +kernel
  exact ⟨hlexical, by decide, hlayout,
    (read_lexical .standard).2.2 payment paymentText hlexical (by decide) hlayout⟩

end Parley
