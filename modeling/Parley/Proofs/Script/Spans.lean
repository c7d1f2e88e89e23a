import Parley.Proofs.Script.Offsets
import Parley.Proofs.Script.Reports

/-!
# Where Data Lie in a Text

A datum has a text of its own, which starts where its word, its quote or its parenthesis stands, and
its position is that of this start (`Datum.Spans`). The texts of the items of a list lie inside its
parentheses one after the other, with nothing but trivia around them (`Datum.AreSpread`). Reading can
be asked for piece by piece (`Cursor.Call`), each time from where the last piece was left, whether it
was read or refused. We show that the positions of every piece are exact.

* `Cursor.exact_readChars`, `Cursor.exact_readItems`: what is read of a string or a list, with the
  cursor behind it (`ExactReading`);
* `Datum.Spans.part`: what lies in a datum has its own text within that of the datum;
* `Cursor.Call.exact_perform`: one call;
* `Cursor.positions_exact`: any calls, one after the other.
-/

namespace Parley

variable {text : List Char}

/-- The longest word from an offset on, which can be empty. -/
def wordAt (text : List Char) (i : Nat) : List Char :=
  (text.drop i).takeWhile Cursor.isWordChar

/-- The characters of a string that are written from an offset on, where another offset is behind the
closing quote. -/
inductive QuotedChars (text : List Char) : List Char → Nat → Nat → Prop
  | close {i : Nat} (hquote : text[i]? = some '"') : QuotedChars text [] i (i + 1)
  | escape {i j : Nat} {e : Char} {chars : List Char} (hslash : text[i]? = some '\\')
      (he : text[i + 1]? = some e) (h : QuotedChars text chars (i + 2) j) :
      QuotedChars text (Cursor.unescape e ++ chars) i j
  | plain {i j : Nat} {x : Char} {chars : List Char} (hx : text[i]? = some x) (hquote : x ≠ '"')
      (hslash : x ≠ '\\') (h : QuotedChars text chars (i + 1) j) : QuotedChars text (x :: chars) i j

theorem QuotedChars.lt {chars : List Char} {i j : Nat} (h : QuotedChars text chars i j) :
    i < j := by
  induction h with
  | close => exact Nat.lt_succ_self _
  | escape _ _ _ ih => omega
  | plain _ _ _ _ ih => omega

namespace Datum

/-- The character at an offset starts a datum, and would not be skipped. -/
def BeginsAt (text : List Char) (d : Datum) (i : Nat) : Prop :=
  ∃ x, text[i]? = some x ∧ Cursor.isGap x = false ∧ d.CanStart x

mutual

/-- A datum has its own text from one offset to another, and its position is that of the first. Which
character opens a string or a list is left to `BeginsAt`, since they can be asked for anywhere. -/
inductive Spans (text : List Char) : Datum → Nat → Nat → Prop
  | symbol {p : Position} {i : Nat} (hp : p.IsAt text i)
      (hword : Text.integer? (wordAt text i) = none) :
      Spans text (.symbol (String.ofList (wordAt text i)) p) i (i + (wordAt text i).length)
  | int {n : Int} {p : Position} {i : Nat} (hp : p.IsAt text i)
      (hword : Text.integer? (wordAt text i) = some n) :
      Spans text (.int n p) i (i + (wordAt text i).length)
  | str {chars : List Char} {p : Position} {i j : Nat} (hp : p.IsAt text i)
      (hchars : QuotedChars text chars (i + 1) j) : Spans text (.str (String.ofList chars) p) i j
  | list {items : List Datum} {p : Position} {i j : Nat} (hp : p.IsAt text i)
      (hitems : AreSpread text items (i + 1) j) (hclose : text[j]? = some ')') :
      Spans text (.list items p) i (j + 1)

/-- Data have their own texts one after the other between two offsets, and around them is trivia. -/
inductive AreSpread (text : List Char) : List Datum → Nat → Nat → Prop
  | nil {i j : Nat} (htrivia : Trivia text i j) : AreSpread text [] i j
  | cons {d : Datum} {rest : List Datum} {i start stop j : Nat} (htrivia : Trivia text i start)
      (hbegin : d.BeginsAt text start) (hd : Spans text d start stop)
      (hrest : AreSpread text rest stop j) : AreSpread text (d :: rest) i j

end

theorem Spans.position {d : Datum} {i j : Nat} (h : d.Spans text i j) : d.position.IsAt text i := by
  cases h <;> assumption

theorem spans_ofWord {p : Position} {i : Nat} (hp : p.IsAt text i) :
    (ofWord (wordAt text i) p).Spans text i (i + (wordAt text i).length) := by
  unfold ofWord
  split
  · next hword => exact .int hp hword
  · next hword => exact .symbol hp hword

mutual

theorem Spans.le : ∀ {d : Datum} {i j : Nat}, d.Spans text i j → i ≤ j
  | _, _, _, .symbol _ _ => Nat.le_add_right _ _
  | _, _, _, .int _ _ => Nat.le_add_right _ _
  | _, _, _, .str _ hchars => by
    have := hchars.lt
    omega
  | _, _, _, .list _ hitems _ => by
    have := AreSpread.le hitems
    omega

theorem AreSpread.le : ∀ {ds : List Datum} {i j : Nat}, AreSpread text ds i j → i ≤ j
  | _, _, _, .nil htrivia => htrivia.le
  | _, _, _, .cons htrivia _ hd hrest =>
    Nat.le_trans htrivia.le (Nat.le_trans (Spans.le hd) (AreSpread.le hrest))

end

/-- A datum has its own text between two offsets. -/
def LiesBetween (text : List Char) (i j : Nat) (d : Datum) : Prop :=
  ∃ start stop, i ≤ start ∧ start ≤ stop ∧ stop ≤ j ∧ d.Spans text start stop

theorem LiesBetween.mono {d : Datum} {i j i' j' : Nat} (h : d.LiesBetween text i j) (hi : i' ≤ i)
    (hj : j ≤ j') : d.LiesBetween text i' j' := by
  obtain ⟨start, stop, hstart, hle, hstop, hspans⟩ := h
  exact ⟨start, stop, Nat.le_trans hi hstart, hle, Nat.le_trans hstop hj, hspans⟩

theorem Spans.liesBetween {d : Datum} {i j : Nat} (h : d.Spans text i j) : d.LiesBetween text i j :=
  ⟨i, j, Nat.le_refl i, h.le, Nat.le_refl j, h⟩

mutual

/-- A datum and all data inside it have their own texts within that of the datum. -/
theorem Spans.part : ∀ {d : Datum} {i j : Nat}, d.Spans text i j → ∀ x ∈ d.parts,
    x.LiesBetween text i j
  | .symbol _ _, _, _, h, x, hx
  | .int _ _, _, _, h, x, hx
  | .str _ _, _, _, h, x, hx => by
    obtain rfl := List.mem_singleton.mp hx
    exact h.liesBetween
  | .list items p, i, _, .list hp hitems hclose, x, hx => by
    rw [parts, List.mem_cons] at hx
    obtain rfl | hx := hx
    · exact (Spans.list hp hitems hclose).liesBetween
    · -- The items lie between the parentheses.
      exact (AreSpread.part hitems x hx).mono (Nat.le_succ i) (Nat.le_succ _)

/-- Data that lie one after the other, and all data inside them, have their own texts in between. -/
theorem AreSpread.part : ∀ {ds : List Datum} {i j : Nat}, AreSpread text ds i j →
    ∀ x ∈ partsAll ds, x.LiesBetween text i j
  | [], _, _, _, _, hx => absurd hx List.not_mem_nil
  | d :: rest, i, j, .cons htrivia _ hd hrest, x, hx => by
    rw [partsAll, List.mem_append] at hx
    obtain hx | hx := hx
    · exact (Spans.part hd x hx).mono htrivia.le hrest.le
    · exact (AreSpread.part hrest x hx).mono (Nat.le_trans htrivia.le hd.le) (Nat.le_refl j)

end

end Datum

/-- A piece of reading from an offset on is exact: the cursor behind it counts right and has not gone
back, a flaw has the position of an offset that was gone over, and what is answered is as it should be
for the offset at which reading ended. -/
structure ExactReading {α : Type} (text : List Char) (i : Nat) (Q : α → Nat → Prop)
    (r : Reading α) : Prop where
  stands : r.2.StandsIn text
  le : i ≤ r.2.offset
  answers : Answers (fun flaw => ∃ k, i ≤ k ∧ k ≤ r.2.offset ∧ flaw.position.IsAt text k)
    (fun a => Q a r.2.offset) r.1

namespace ExactReading

variable {α : Type} {Q : α → Nat → Prop} {r : Reading α} {i : Nat}

theorem imp {Q' : α → Nat → Prop} (h : ExactReading text i Q r) (hQ : ∀ a j, Q a j → Q' a j) :
    ExactReading text i Q' r :=
  ⟨h.stands, h.le, h.answers.imp fun a ha => hQ a _ ha⟩

/-- What is exact from a later offset on is so from an earlier one on. -/
theorem from_earlier {k : Nat} (h : ExactReading text k Q r) (hle : i ≤ k) :
    ExactReading text i Q r := by
  obtain ⟨answer, after⟩ := r
  refine ⟨h.stands, Nat.le_trans hle h.le, ?_⟩
  cases answer with
  | ok a => exact h.answers
  | error flaw =>
    obtain ⟨m, hkm, hm, hposition⟩ := h.answers
    exact ⟨m, Nat.le_trans hle hkm, hm, hposition⟩

/-- A flaw does not depend on what is to be read. -/
theorem error {β : Type} {Q' : β → Nat → Prop} {flaw : Flaw} {after : Cursor}
    (h : ExactReading text i Q (.error flaw, after)) :
    ExactReading text i Q' (.error flaw, after) :=
  ⟨h.stands, h.le, h.answers⟩

end ExactReading

namespace Cursor

variable {c : Cursor} {i : Nat} {opened : Position}

theorem word_eq (hc : c.StandsIn text) : c.word = wordAt text c.offset := by
  rw [word, wordAt, hc.rest]

/-- The rest of a string is read with its characters, up to the quote. -/
theorem exact_readChars (hopened : opened.IsAt text i) (hc : c.StandsIn text) (hle : i ≤ c.offset)
    (done : List Char) :
    ExactReading text i (fun d j => ∃ chars,
      d = .str (String.ofList (done.reverse ++ chars)) opened ∧ QuotedChars text chars c.offset j)
      (readChars opened c done) := by
  -- Wherever the text is cut, the flaw lies at the opening quote.
  fun_induction readChars opened c done with
  | case1 c done h => exact ⟨hc, hle, i, Nat.le_refl i, hle, hopened⟩
  | case2 c done xs h =>
    have hle' := Nat.le_trans hle (offset_le_advance c)
    have hquoted : QuotedChars text [] c.offset c.advance.offset :=
      offset_advance c ▸ .close (hc.of_cons h)
    exact ⟨hc.advance, hle', [], by rw [List.append_nil], hquoted⟩
  | case3 c done xs hnext h hquote =>
    -- The backslash has been passed.
    have hle' := Nat.le_trans hle (offset_le_advance c)
    exact ⟨hc.advance, hle', i, Nat.le_refl i, hle', hopened⟩
  | case4 c done xs e rest hnext h hquote ih =>
    have he : text[c.offset + 1]? = some e := by
      rw [← offset_advance]
      exact hc.advance.of_cons hnext
    have hle' := Nat.le_trans hle (offset_le_advance c)
    refine (ih hc.advance.advance (Nat.le_trans hle' (offset_le_advance _))).imp ?_
    rintro d j ⟨chars, rfl, hchars⟩
    rw [offset_advance, offset_advance] at hchars
    exact ⟨Cursor.unescape e ++ chars, by simp, .escape (hc.of_cons h) he hchars⟩
  | case5 c done x xs h hquote hslash ih =>
    refine (ih hc.advance (Nat.le_trans hle (offset_le_advance c))).imp ?_
    rintro d j ⟨chars, rfl, hchars⟩
    rw [offset_advance] at hchars
    exact ⟨x :: chars, by simp, .plain (hc.of_cons h) hquote hslash hchars⟩

/-- A string is read from where the cursor is, whatever character is there. -/
theorem exact_readString (hc : c.StandsIn text) :
    ExactReading text c.offset (fun d j => d.Spans text c.offset j ∧ d.CanStart '"')
      c.readString := by
  refine (exact_readChars hc.position hc.advance (offset_le_advance c) []).imp ?_
  rintro d j ⟨chars, rfl, hchars⟩
  rw [offset_advance] at hchars
  exact ⟨.str hc.position hchars, rfl⟩

/-- So is a word, which may be empty. -/
theorem exact_readAtom (hc : c.StandsIn text) :
    ExactReading text c.offset (fun d j => d.Spans text c.offset j ∧
      ∀ x, isWordChar x = true → d.CanStart x) c.readAtom := by
  have hstands : c.readAtom.2.StandsIn text := hc.advanceBy _
  have hoffset : c.readAtom.2.offset = c.offset + (wordAt text c.offset).length := by
    rw [readAtom, offset_advanceBy, word_eq hc]
  have hle : c.offset ≤ c.readAtom.2.offset := by omega
  refine ⟨hstands, hle, ?_⟩
  obtain hread | hread := Datum.readWord_cases c.word c.position
  · rw [hoffset]
    show Answers _ _ (Datum.readWord c.word c.position)
    rw [hread, word_eq hc]
    refine ⟨Datum.spans_ofWord hc.position, fun x hx => ?_⟩
    unfold Datum.ofWord
    split <;> exact hx
  · -- A word that cannot be read has been passed.
    show Answers _ _ (Datum.readWord c.word c.position)
    rw [hread]
    exact ⟨c.offset, Nat.le_refl _, hle, hc.position⟩

/-- A list is made of the items so far, last first, and of those from an offset up to the parenthesis
that closes it, which ends at another. -/
def Completes (text : List Char) (opened : Position) (n : Nat) (done : List Datum) (d : Datum)
    (j : Nat) : Prop :=
  ∃ items k, d = .list (done.reverse ++ items) opened ∧ Datum.AreSpread text items n k ∧
    text[k]? = some ')' ∧ j = k + 1

/-- What completes a list behind an item completes it in front of the item. -/
theorem Completes.item {done : List Datum} {item d : Datum} {n start stop j : Nat}
    (htrivia : Trivia text n start) (hbegin : item.BeginsAt text start)
    (hitem : item.Spans text start stop) (h : Completes text opened stop (item :: done) d j) :
    Completes text opened n done d j := by
  obtain ⟨items, k, rfl, hitems, hclose, hj⟩ := h
  exact ⟨item :: items, k, by simp, .cons htrivia hbegin hitem hitems, hclose, hj⟩

/-- So the list as a whole is completed behind its opening parenthesis. -/
theorem Completes.spans {d : Datum} {n j : Nat} (hopened : opened.IsAt text n)
    (h : Completes text opened (n + 1) [] d j) : d.Spans text n j ∧ d.CanStart '(' := by
  obtain ⟨items, k, rfl, hitems, hclose, rfl⟩ := h
  exact ⟨.list hopened hitems hclose, rfl⟩

/-- An item of a list is read first, and reading goes on with the rest of the list behind it. -/
theorem exact_item {done : List Datum} {item : Datum} {x : Char} {xs : List Char} {after : Cursor}
    {r : Reading Datum} (hc : c.StandsIn text) (hle : i ≤ c.offset) (h : c.skipTrivia.rest = x :: xs)
    (hitem : ExactReading text c.skipTrivia.offset
      (fun d j => d.Spans text c.skipTrivia.offset j ∧ d.CanStart x) (.ok item, after))
    (hrest : after.StandsIn text → i ≤ after.offset →
      ExactReading text i (Completes text opened after.offset (item :: done)) r) :
    ExactReading text i (Completes text opened c.offset done) r := by
  obtain ⟨hstands, htrivia⟩ := hc.skipTrivia
  obtain ⟨hspans, hx⟩ := hitem.answers
  have hlater : i ≤ after.offset := Nat.le_trans hle (Nat.le_trans htrivia.le hitem.le)
  exact (hrest hitem.stands hlater).imp fun d j hd =>
    hd.item htrivia ⟨x, hstands.of_cons h, (head_skipTrivia h).1, hx⟩ hspans

/-- The items of a list are read with the trivia around them, up to the closing parenthesis. -/
theorem exact_readItems (room : Nat) (opened : Position) (c : Cursor) (done : List Datum) :
    ∀ i, opened.IsAt text i → c.StandsIn text → i ≤ c.offset →
      ExactReading text i (Completes text opened c.offset done) (readItems room opened c done).1 := by
  -- For each list it is another offset at which it was opened: for an inner one, that of the cursor.
  fun_induction readItems room opened c done with
  | case1 room opened c done _ h =>
    intro i hopened hc hle
    obtain ⟨hstands, htrivia⟩ := hc.skipTrivia
    have hle' := Nat.le_trans hle htrivia.le
    exact ⟨hstands, hle', i, Nat.le_refl i, hle', hopened⟩
  | case2 room opened c done _ xs h =>
    intro i hopened hc hle
    obtain ⟨hstands, htrivia⟩ := hc.skipTrivia
    have hle' := Nat.le_trans hle htrivia.le
    refine ⟨hstands.advance, Nat.le_trans hle' (offset_le_advance _), ?_⟩
    exact ⟨[], _, by simp, .nil htrivia, hstands.of_cons h, offset_advance _⟩
  | case3 opened c done _ xs h =>
    intro i hopened hc hle
    obtain ⟨hstands, htrivia⟩ := hc.skipTrivia
    have hle' := Nat.le_trans hle htrivia.le
    exact ⟨hstands, hle', _, hle', Nat.le_refl _, hstands.position⟩
  | case4 opened c done _ xs inside flaw after _ hread h _ _ ih =>
    intro i hopened hc hle
    obtain ⟨hstands, htrivia⟩ := hc.skipTrivia
    have hinner := ih _ hstands.position hstands.advance (offset_le_advance _)
    rw [hread] at hinner
    exact hinner.error.from_earlier (Nat.le_trans hle htrivia.le)
  | case5 opened c done _ xs inside datum after _ hread _ h _ _ _ ih ihrest =>
    intro i hopened hc hle
    obtain ⟨hstands, -⟩ := hc.skipTrivia
    have hinner := ih _ hstands.position hstands.advance (offset_le_advance _)
    rw [hread, offset_advance] at hinner
    -- As it was opened behind the trivia, the inner list is an item of the outer one.
    have hitem := hinner.imp fun d j hd => hd.spans hstands.position
    exact exact_item hc hle h hitem (ihrest i hopened)
  | case6 room opened c done _ xs flaw after hread h =>
    intro i hopened hc hle
    obtain ⟨hstands, htrivia⟩ := hc.skipTrivia
    have hstring := exact_readString hstands
    rw [hread] at hstring
    exact hstring.error.from_earlier (Nat.le_trans hle htrivia.le)
  | case7 room opened c done _ xs datum after hread _ h _ _ _ ih =>
    intro i hopened hc hle
    obtain ⟨hstands, -⟩ := hc.skipTrivia
    have hitem := exact_readString hstands
    rw [hread] at hitem
    exact exact_item hc hle h hitem (ih i hopened)
  | case8 room opened c done _ x xs h _ _ _ hword flaw after hread =>
    intro i hopened hc hle
    obtain ⟨hstands, htrivia⟩ := hc.skipTrivia
    have hatom := exact_readAtom hstands
    rw [hread] at hatom
    exact hatom.error.from_earlier (Nat.le_trans hle htrivia.le)
  | case9 room opened c done _ x xs h _ _ _ hword datum after hread _ _ ih =>
    intro i hopened hc hle
    obtain ⟨hstands, -⟩ := hc.skipTrivia
    have hatom := exact_readAtom hstands
    rw [hread] at hatom
    have hitem := hatom.imp fun d j hd => And.intro hd.1 (hd.2 x hword)
    exact exact_item hc hle h hitem (ih i hopened)

/-- A list is read from where the cursor is, whatever character is there. -/
theorem exact_readList (hc : c.StandsIn text) (room : Nat) :
    ExactReading text c.offset (fun d j => d.Spans text c.offset j ∧ d.CanStart '(')
      (c.readList room) := by
  cases room with
  | zero => exact ⟨hc, Nat.le_refl _, c.offset, Nat.le_refl _, Nat.le_refl _, hc.position⟩
  | succ inside =>
    have hitems := exact_readItems inside _ _ [] _ hc.position hc.advance (offset_le_advance c)
    rw [offset_advance] at hitems
    exact hitems.imp fun d j hd => hd.spans hc.position

/-- A datum is read behind the trivia at the cursor. It starts with one of its characters, unless a
closing parenthesis stands there, at which an empty word is read. -/
theorem exact_readDatum (hc : c.StandsIn text) (room : Nat) :
    ExactReading text c.offset (fun d j => d.Spans text c.skipTrivia.offset j ∧
      (text[c.skipTrivia.offset]? = some ')' ∨ d.BeginsAt text c.skipTrivia.offset))
      (c.readDatum room) := by
  obtain ⟨hstands, htrivia⟩ := hc.skipTrivia
  have hle := htrivia.le
  unfold readDatum
  dsimp only
  split
  · exact ⟨hstands, hle, _, hle, Nat.le_refl _, hstands.position⟩
  next x xs h =>
  have hstart := head_skipTrivia h
  have hbegin : ∀ d : Datum, d.CanStart x → d.BeginsAt text c.skipTrivia.offset :=
    fun d hd => ⟨x, hstands.of_cons h, hstart.1, hd⟩
  refine ExactReading.from_earlier ?_ hle
  split
  · next hopen =>
    subst hopen
    exact (exact_readList hstands room).imp fun d j hd => ⟨hd.1, .inr (hbegin d hd.2)⟩
  next hopen =>
  split
  · next hquote =>
    subst hquote
    exact (exact_readString hstands).imp fun d j hd => ⟨hd.1, .inr (hbegin d hd.2)⟩
  next hquote =>
  refine (exact_readAtom hstands).imp fun d j hd => ⟨hd.1, ?_⟩
  by_cases hclose : x = ')'
  · subst hclose
    exact .inl (hstands.of_cons h)
  · have hword := isWordChar_of_not hstart.1 hstart.2 hopen hclose hquote
    exact .inr (hbegin d (hd.2 x hword))

/-- All data are read one after the other. -/
theorem exact_readAllFrom (hc : c.StandsIn text) (room : Nat) (done : List Datum) :
    ExactReading text c.offset (fun data j => ∃ more, data = done.reverse ++ more ∧
      Datum.AreSpread text more c.offset j) (c.readAllFrom room done) := by
  fun_induction Cursor.readAllFrom room c done with
  | case1 c done h =>
    obtain ⟨hstands, htrivia⟩ := hc.skipTrivia
    exact ⟨hstands, htrivia.le, [], by simp, .nil htrivia⟩
  | case2 c done xs h =>
    obtain ⟨hstands, htrivia⟩ := hc.skipTrivia
    exact ⟨hstands, htrivia.le, _, htrivia.le, Nat.le_refl _, hstands.position⟩
  | case3 c done x xs h hclose flaw after hread =>
    have hdatum := exact_readDatum hc room
    rw [hread] at hdatum
    exact hdatum.error
  | case4 c done x xs h hclose datum after hread _ ih =>
    obtain ⟨hstands, htrivia⟩ := hc.skipTrivia
    have hdatum := exact_readDatum hc room
    rw [hread] at hdatum
    obtain ⟨hspans, hbegin⟩ := hdatum.answers
    -- A closing parenthesis is refused here, so the datum starts with one of its characters.
    have hbegin : datum.BeginsAt text c.skipTrivia.offset := by
      refine hbegin.resolve_left fun hx => hclose ?_
      exact Option.some.inj ((hstands.of_cons h).symm.trans hx)
    refine ((ih hdatum.stands).imp ?_).from_earlier hdatum.le
    rintro data j ⟨more, rfl, hmore⟩
    exact ⟨datum :: more, by simp, .cons htrivia hbegin hspans hmore⟩

/-! ## Calls -/

/-- What can be asked of a cursor. -/
inductive Call
  | advance
  | skipTrivia
  | readDatum
  | readList
  | readString
  | readAtom
  | readAll

/-- The answer of one datum as an answer of data. -/
def alone (r : Reading Datum) : Reading (List Datum) :=
  (r.1.map ([·]), r.2)

/-- The data that a call answers where there is room for so many lists inside one another, and the cursor
after it. -/
def Call.perform (room : Nat) (c : Cursor) : Call → Reading (List Datum)
  | .advance => (.ok [], c.advance)
  | .skipTrivia => (.ok [], c.skipTrivia)
  | .readDatum => alone (c.readDatum room)
  | .readList => alone (c.readList room)
  | .readString => alone c.readString
  | .readAtom => alone c.readAtom
  | .readAll => c.readAll room

/-- The cursor after calls, some of which may have been refused. -/
def afterCalls (room : Nat) (c : Cursor) (calls : List Call) : Cursor :=
  calls.foldl (fun c call => (call.perform room c).2) c

/-- How the data that a call answers lie between the offsets before and after it. -/
def Call.Returns (text : List Char) (i : Nat) (data : List Datum) (j : Nat) : Call → Prop
  | .advance => data = [] ∧ j = i + 1
  | .skipTrivia => data = [] ∧ Trivia text i j
  | .readDatum => ∃ d start, data = [d] ∧ Trivia text i start ∧
      (text[start]? = some ')' ∨ d.BeginsAt text start) ∧ d.Spans text start j
  | .readList => ∃ d, data = [d] ∧ d.Spans text i j
  | .readString => ∃ d, data = [d] ∧ d.Spans text i j
  | .readAtom => ∃ d, data = [d] ∧ d.Spans text i j
  | .readAll => Datum.AreSpread text data i j

theorem exact_alone {Q : Datum → Nat → Prop} {Q' : List Datum → Nat → Prop} {r : Reading Datum}
    (h : ExactReading text i Q r) (hQ : ∀ d j, Q d j → Q' [d] j) :
    ExactReading text i Q' (alone r) :=
  ⟨h.stands, h.le, h.answers.map fun d hd => hQ d _ hd⟩

/-- One call is answered with exact positions. -/
theorem Call.exact_perform (hc : c.StandsIn text) (room : Nat) (call : Call) :
    ExactReading text c.offset (fun data j => call.Returns text c.offset data j)
      (call.perform room c) := by
  cases call with
  | advance => exact ⟨hc.advance, offset_le_advance c, rfl, offset_advance c⟩
  | skipTrivia =>
    obtain ⟨hstands, htrivia⟩ := hc.skipTrivia
    exact ⟨hstands, htrivia.le, rfl, htrivia⟩
  | readDatum =>
    obtain ⟨-, htrivia⟩ := hc.skipTrivia
    exact exact_alone (exact_readDatum hc room) fun d j hd => ⟨d, _, rfl, htrivia, hd.2, hd.1⟩
  | readList => exact exact_alone (exact_readList hc room) fun d j hd => ⟨d, rfl, hd.1⟩
  | readString => exact exact_alone (exact_readString hc) fun d j hd => ⟨d, rfl, hd.1⟩
  | readAtom => exact exact_alone (exact_readAtom hc) fun d j hd => ⟨d, rfl, hd.1⟩
  | readAll =>
    refine (exact_readAllFrom hc room []).imp ?_
    rintro data j ⟨more, rfl, hmore⟩
    exact hmore

/-- All data that a call answers, at any depth, have their own texts where the call went. -/
theorem Call.Returns.part {call : Call} {data : List Datum} {j : Nat}
    (h : call.Returns text i data j) : ∀ x ∈ Datum.partsAll data, x.LiesBetween text i j := by
  have hnone : data = [] → ∀ x ∈ Datum.partsAll data, x.LiesBetween text i j := by
    rintro rfl x hx
    exact absurd hx List.not_mem_nil
  -- A single datum lies behind trivia, be it none.
  have hone : ∀ d k, data = [d] → Trivia text i k → d.Spans text k j →
      ∀ x ∈ Datum.partsAll data, x.LiesBetween text i j := by
    rintro d k rfl htrivia hd x hx
    have hparts : x ∈ d.parts := by simpa [Datum.partsAll] using hx
    exact (hd.part x hparts).mono htrivia.le (Nat.le_refl j)
  cases call with
  | advance => exact hnone h.1
  | skipTrivia => exact hnone h.1
  | readDatum =>
    obtain ⟨d, k, hdata, htrivia, -, hd⟩ := h
    exact hone d k hdata htrivia hd
  | readList | readString | readAtom =>
    obtain ⟨d, hdata, hd⟩ := h
    exact hone d i hdata (.nil i) hd
  | readAll => exact Datum.AreSpread.part h

theorem standsIn_afterCalls (hc : c.StandsIn text) (room : Nat) (calls : List Call) :
    (c.afterCalls room calls).StandsIn text := by
  induction calls generalizing c with
  | nil => exact hc
  | cons call rest ih => exact ih (call.exact_perform hc room).stands

theorem offset_le_afterCalls (hc : c.StandsIn text) (room : Nat) (calls : List Call) :
    c.offset ≤ (c.afterCalls room calls).offset := by
  induction calls generalizing c with
  | nil => exact Nat.le_refl _
  | cons call rest ih =>
    have hexact := call.exact_perform hc room
    exact Nat.le_trans hexact.le (ih hexact.stands)

/-- After any calls, refused ones among them, the cursor has the one position that belongs to its
offset in the text, and later calls do not take the offset back. Whatever is asked next is answered
exactly: a flaw has the position of an offset that this call went over, and each datum, at any depth,
has the position at which its own text starts. -/
theorem positions_exact (text : String) (room : Nat) (calls : List Call) :
    let c := (start text).afterCalls room calls
    (∀ p : Position, p.IsAt text.toList c.offset ↔ p = c.position) ∧
      (∀ later, c.offset ≤ (c.afterCalls room later).offset) ∧
      ∀ call : Call, ExactReading text.toList c.offset (fun data j =>
        call.Returns text.toList c.offset data j ∧ ∀ x ∈ Datum.partsAll data, ∃ start stop,
          c.offset ≤ start ∧ start ≤ stop ∧ stop ≤ j ∧ x.Spans text.toList start stop ∧
          x.position.IsAt text.toList start) (call.perform room c) := by
  intro c
  have hc : c.StandsIn text.toList := standsIn_afterCalls (standsIn_start text) room calls
  have hposition : ∀ p : Position, p.IsAt text.toList c.offset ↔ p = c.position :=
    fun p => ⟨fun hp => hp.unique hc.position, fun hp => hp ▸ hc.position⟩
  refine ⟨hposition, offset_le_afterCalls hc room, fun call => ?_⟩
  refine (call.exact_perform hc room).imp fun data j hdata => ⟨hdata, fun x hx => ?_⟩
  obtain ⟨first, last, hfirst, hle, hlast, hspans⟩ := hdata.part x hx
  exact ⟨first, last, hfirst, hle, hlast, hspans, hspans.position⟩

/-- A string is left unfinished, and the cursor is taken beyond the end of the text. -/
example :
    let c := (start "(say\n \"x").afterCalls 1 [.readDatum, .advance]
    (c.offset, c.position) = (9, ⟨2, 5⟩) := by
  decide +kernel

/-- A list on the third line, and a string in it on the fourth. -/
example : (Datum.read "\n\n   (say\n      \"x\")").toOption.map
    (fun data => (Datum.partsAll data).map Datum.position) =
      some [⟨3, 4⟩, ⟨3, 5⟩, ⟨4, 7⟩] := by
  decide +kernel

end Cursor

end Parley
