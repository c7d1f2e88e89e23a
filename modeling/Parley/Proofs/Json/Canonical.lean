import Mathlib.Data.List.Perm.Basic
import Parley.Proofs.Json.RoundTrip

/-!
# Canonical Texts Tell Documents Apart

A digest of the canonical text stands for a document only if different documents have different
canonical texts. The text puts fields in the order of their names, so that documents are told apart up
to the order of fields.

* `Same`: two documents have the same fields, items, values and kinds of values at every depth,
  whatever the order of fields;
* `isMarked_writeFloat`: no binary64 number is written like an integer;
* `separate_cut`: the parts of a list or an object can be told from each other;
* `cuts_of_isPlain`: the canonical text of a plain document can be told from what comes after it, and
  no other document has this text, be it plain or not;
* `same_of_canonical`: the consequence for whole texts;
* `isAscii_canonical`: the bytes of a canonical text are its characters.
-/

namespace Parley.Json

/-! ## Sameness -/

mutual

/-- Two documents are the same up to the order of fields. -/
def Same : Json → Json → Prop
  | .list items, .list items' => SameItems items items'
  | .object fields, .object fields' =>
    SameFields fields fields' ∧ fields'.map Prod.fst ⊆ fields.map Prod.fst
  | a, b => a = b

/-- Items that are the same one by one. -/
def SameItems : List Json → List Json → Prop
  | [], [] => True
  | a :: as, b :: bs => Same a b ∧ SameItems as bs
  | _, _ => False

/-- Fields whose documents are the same as those under their names among other fields. -/
def SameFields : List (String × Json) → List (String × Json) → Prop
  | [], _ => True
  | (n, v) :: rest, others => (∃ w, others.lookup n = some w ∧ Same v w) ∧ SameFields rest others

end

/-- Two objects say the same if each has the fields of the other, with values that say the same. -/
theorem same_object {fields fields' : List (String × Json)} :
    Same (.object fields) (.object fields') ↔
      SameFields fields fields' ∧ fields'.map Prod.fst ⊆ fields.map Prod.fst := by
  rw [Same]

theorem sameFields_iff {fields others : List (String × Json)} :
    SameFields fields others ↔ ∀ f ∈ fields, ∃ w, others.lookup f.1 = some w ∧ Same f.2 w := by
  induction fields with
  | nil => simp [SameFields]
  | cons f rest ih =>
    obtain ⟨n, v⟩ := f
    rw [SameFields, ih, List.forall_mem_cons]

/-! ## The parts of a canonical text -/

/-- Sorting a field in neither adds nor drops fields. -/
theorem insertByName_perm {α : Type} (field : String × α) (fields : List (String × α)) :
    (insertByName field fields).Perm (field :: fields) := by
  induction fields with
  | nil => exact .refl _
  | cons f rest ih =>
    rw [insertByName]
    split
    · exact (ih.cons f).trans (.swap field f rest)
    · exact .refl _

/-- To sort fields loses none. -/
theorem sortByName_perm {α : Type} (fields : List (String × α)) :
    (sortByName fields).Perm fields := by
  induction fields with
  | nil => exact .refl _
  | cons f rest ih => exact (insertByName_perm f _).trans (ih.cons f)

/-- The items of a list are written one by one. -/
theorem canonicalItems_eq (items : List Json) : canonicalItems items = items.map canonical := by
  induction items with
  | nil => rfl
  | cons v rest ih => rw [canonicalItems, ih, List.map_cons]

/-- The values of an object are written one by one, under their names. -/
theorem canonicalFields_eq (fields : List (String × Json)) :
    canonicalFields fields = fields.map fun f => (f.1, f.2.canonical) := by
  induction fields with
  | nil => rfl
  | cons f rest ih => rw [canonicalFields, ih, List.map_cons]

/-- Behind the first part every part has a separator in front of it. -/
theorem separate_cons (separator part : List Char) (rest : List (List Char)) :
    separate separator (part :: rest) = part ++ rest.flatMap (separator ++ ·) := by
  induction rest generalizing part with
  | nil => simp [separate]
  | cons next rest ih =>
    rw [separate, ih, List.flatMap_cons, List.append_assoc, List.append_assoc]
    exact nofun

/-- Two texts that go on alike have a common start, up to where a property of characters ends. -/
theorem append_inj_of_forall {p : Char → Prop} {s s' r r' : List Char} (hs : ∀ c ∈ s, p c)
    (hs' : ∀ c ∈ s', p c) (hr : ∀ c ∈ r.head?, ¬ p c) (hr' : ∀ c ∈ r'.head?, ¬ p c)
    (h : s ++ r = s' ++ r') : s = s' ∧ r = r' := by
  induction s generalizing s' with
  | nil =>
    cases s' with
    | nil => exact ⟨rfl, h⟩
    | cons c' rest' =>
      obtain rfl : r = c' :: (rest' ++ r') := h
      exact absurd (hs' c' List.mem_cons_self) (hr c' rfl)
  | cons c rest ih =>
    cases s' with
    | nil =>
      obtain rfl : c :: (rest ++ r) = r' := h
      exact absurd (hs c List.mem_cons_self) (hr' c rfl)
    | cons c' rest' =>
      rw [List.cons_append, List.cons_append] at h
      obtain ⟨rfl, htail⟩ := List.cons.inj h
      obtain ⟨rfl, rfl⟩ := ih (fun d hd => hs d (List.mem_cons_of_mem c hd))
        (fun d hd => hs' d (List.mem_cons_of_mem c hd)) htail
      exact ⟨rfl, rfl⟩

/-! ## Numbers -/

/-- The characters of an integer. -/
def IsNumeral (c : Char) : Prop :=
  c.isDigit = true ∨ c = '-'

/-- The characters by which a binary64 number can first be told from an integer. -/
def IsMark (c : Char) : Prop :=
  c = '.' ∨ c = 'e' ∨ c = 'I' ∨ c = 'N'

instance (c : Char) : Decidable (IsNumeral c) :=
  inferInstanceAs (Decidable (_ ∨ _))

instance (c : Char) : Decidable (IsMark c) :=
  inferInstanceAs (Decidable (_ ∨ _ ∨ _ ∨ _))

theorem isMark_point : IsMark '.' := .inl rfl

theorem isMark_exponent : IsMark 'e' := .inr (.inl rfl)

/-- The marks of a float are not found in integers. -/
theorem IsMark.not_isNumeral {c : Char} (h : IsMark c) : ¬ IsNumeral c := by
  unfold IsNumeral
  rcases h with rfl | rfl | rfl | rfl <;> decide

/-- An integer is written in digits and at most a sign. -/
theorem isNumeral_ofInt (n : Int) : ∀ c ∈ Text.ofInt n, IsNumeral c :=
  fun _ => Text.isDigit_or_of_mem_ofInt

/-- An ASCII text starts like an integer and goes on as none does. -/
def IsMarked (s : List Char) : Prop :=
  ∃ start mark rest, s = start ++ mark :: rest ∧ (∀ c ∈ start, IsNumeral c) ∧ IsMark mark ∧
    IsAscii rest

/-- Digits with a mark after them are marked, whatever follows. -/
theorem isMarked_of_digits {digits rest : List Char} {mark : Char}
    (hdigits : ∀ c ∈ digits, c.isDigit = true) (hmark : IsMark mark) (hrest : IsAscii rest) :
    IsMarked (digits ++ mark :: rest) :=
  ⟨digits, mark, rest, rfl, fun c hc => .inl (hdigits c hc), hmark, hrest⟩

/-- A sign in front keeps the mark. -/
theorem IsMarked.sign {s : List Char} (h : IsMarked s) (negative : Bool) :
    IsMarked ((if negative then ['-'] else []) ++ s) := by
  obtain ⟨start, mark, rest, rfl, hstart, hmark, hrest⟩ := h
  refine ⟨(if negative then ['-'] else []) ++ start, mark, rest, by simp, ?_, hmark, hrest⟩
  intro c hc
  rcases List.mem_append.1 hc with hsign | hc
  · split at hsign
    · exact .inr (List.mem_singleton.1 hsign)
    · cases hsign
  · exact hstart c hc

theorem IsMarked.isAscii {s : List Char} (h : IsMarked s) : IsAscii s := by
  obtain ⟨start, mark, rest, rfl, hstart, hmark, hrest⟩ := h
  refine IsAscii.append (fun c hc => ?_) (hrest.cons ?_)
  · rcases hstart c hc with hdigit | rfl
    · exact isAscii_of_isDigit (List.forall_mem_singleton.2 hdigit) c (List.mem_singleton_self c)
    · decide
  · rcases hmark with rfl | rfl | rfl | rfl <;> decide

namespace Binary64

/-- What is left of digits without their last zeros is digits. -/
theorem isDigit_of_mem_trimZeros {n : Nat} {c : Char}
    (h : c ∈ (trimZeros (Nat.toDigits 10 n)).1) : c.isDigit = true := by
  simp only [trimZeros, List.mem_reverse] at h
  exact Text.isDigit_of_mem_toDigits (List.mem_reverse.1 ((List.dropWhile_sublist _).mem h))

theorem isAscii_exponent (lead : Int) : IsAscii ((if lead < 0 then '-' else '+') ::
    if (Nat.toDigits 10 lead.natAbs).length < 2 then '0' :: Nat.toDigits 10 lead.natAbs
    else Nat.toDigits 10 lead.natAbs) := by
  refine IsAscii.cons (by split <;> decide) ?_
  split
  · exact (isAscii_toDigits _).cons (by decide)
  · exact isAscii_toDigits _

/-- Every decimal writing has a point or an exponent. -/
theorem isMarked_layOut (x : Decimal) : IsMarked (layOut x) := by
  have hdigits : ∀ c ∈ (trimZeros (Nat.toDigits 10 x.digits)).1, c.isDigit = true :=
    fun c hc => isDigit_of_mem_trimZeros hc
  have hzero : ∀ n, ∀ c ∈ List.replicate n '0', c.isDigit = true := fun n c hc => by
    rw [(List.mem_replicate.1 hc).2]
    rfl
  unfold layOut
  generalize trimZeros (Nat.toDigits 10 x.digits) = trimmed at hdigits ⊢
  obtain ⟨digits, zeros⟩ := trimmed
  dsimp only at hdigits ⊢
  have htake : ∀ n, ∀ c ∈ digits.take n, c.isDigit = true :=
    fun n c hc => hdigits c (List.mem_of_mem_take hc)
  have hdrop : ∀ n, IsAscii (digits.drop n) :=
    fun n => isAscii_of_isDigit fun c hc => hdigits c (List.mem_of_mem_drop hc)
  -- One case for each way to lay out: a whole number, a point among the digits, a point in front of
  -- them, and an exponent, which a point may come before.
  split
  · split
    · refine isMarked_of_digits (fun c hc => ?_) isMark_point (by decide)
      exact (List.mem_append.1 hc).elim (hdigits c) (hzero _ c)
    · split
      · exact isMarked_of_digits (htake _) isMark_point (hdrop _)
      · exact ⟨['0'], '.', _, rfl, List.forall_mem_singleton.2 (.inl rfl), isMark_point,
          (isAscii_of_isDigit (hzero _)).append (isAscii_of_isDigit hdigits)⟩
  · split
    · rw [List.append_nil]
      exact isMarked_of_digits (htake 1) isMark_exponent (isAscii_exponent _)
    · rw [List.append_assoc, List.cons_append]
      exact isMarked_of_digits (htake 1) isMark_point
        ((hdrop 1).append ((isAscii_exponent _).cons (by decide)))

end Binary64

/-- A written binary64 number is told from an integer by one of its characters. -/
theorem isMarked_writeFloat (x : Binary64) : IsMarked (writeFloat x) := by
  unfold writeFloat Binary64.text
  split
  · exact IsMarked.sign ⟨['0'], '.', ['0'], rfl, List.forall_mem_singleton.2 (.inl rfl),
      isMark_point, by decide⟩ _
  · exact (Binary64.isMarked_layOut _).sign _
  · exact IsMarked.sign ⟨[], 'I', "nfinity".toList, rfl, nofun, .inr (.inr (.inl rfl)),
      by decide⟩ _
  · exact ⟨[], 'N', "aN".toList, rfl, nofun, .inr (.inr (.inr rfl)), by decide⟩

/-! ## Where a text ends -/

/-- What comes next is no part of a document. -/
def Ends (r : List Char) : Prop :=
  ∀ c ∈ r.head?, c = ',' ∨ c = ']' ∨ c = '}'

/-- What follows a value does not go on with a number. -/
theorem Ends.not_isNumeral {r : List Char} (h : Ends r) : ∀ c ∈ r.head?, ¬ IsNumeral c := by
  intro c hc
  unfold IsNumeral
  rcases h c hc with rfl | rfl | rfl <;> decide

/-- No written integer goes on as a marked text. -/
theorem IsMarked.ne_numeral {s t r r' : List Char} (h : IsMarked t) (hs : ∀ c ∈ s, IsNumeral c)
    (hr : Ends r) : s ++ r ≠ t ++ r' := by
  obtain ⟨start, mark, rest, rfl, hstart, hmark, -⟩ := h
  intro heq
  rw [List.append_assoc] at heq
  -- The integer would end in front of the mark, but no document ends there.
  have hmarks : ∀ c ∈ (mark :: rest ++ r').head?, ¬ IsNumeral c := by
    intro c hc
    obtain rfl : mark = c := Option.some.inj hc
    exact hmark.not_isNumeral
  obtain ⟨rfl, rfl⟩ := append_inj_of_forall hs hstart hr.not_isNumeral hmarks heq
  have hhead := hr mark rfl
  rcases hmark with rfl | rfl | rfl | rfl <;> simp at hhead

/-- Among texts with a property, a text can be told from what comes after it. -/
def IsCut (P : List Char → Prop) (s : List Char) : Prop :=
  ∀ s' r r', P s' → Ends r → Ends r' → s ++ r = s' ++ r' → s = s' ∧ r = r'

section Parts

variable {P : List Char → Prop} {close : Char} {parts parts' : List (List Char)}

/-- After an item comes a comma or the end of its list or object. -/
theorem ends_parts (hclose : close = ']' ∨ close = '}') (r : List Char) :
    Ends (parts.flatMap (',' :: ·) ++ close :: r) := by
  intro c hc
  cases parts with
  | nil =>
    obtain rfl : close = c := Option.some.inj hc
    exact .inr hclose
  | cons s rest =>
    obtain rfl : ',' = c := Option.some.inj hc
    exact .inl rfl

/-- Parts with separators in front can be told from each other and from what comes after them. -/
theorem flatMap_cut {r r' : List Char} (hclose : close = ']' ∨ close = '}')
    (hparts : ∀ s ∈ parts, IsCut P s) (hparts' : ∀ s ∈ parts', P s)
    (h : parts.flatMap (',' :: ·) ++ close :: r = parts'.flatMap (',' :: ·) ++ close :: r') :
    parts = parts' ∧ r = r' := by
  have hcomma : close ≠ ',' := by rcases hclose with rfl | rfl <;> decide
  induction parts generalizing parts' with
  | nil =>
    cases parts' with
    | nil => exact ⟨rfl, (List.cons.inj h).2⟩
    | cons s' rest' => exact absurd (List.cons.inj h).1 hcomma
  | cons s rest ih =>
    cases parts' with
    | nil => exact absurd (List.cons.inj h).1.symm hcomma
    | cons s' rest' =>
      -- Behind the first part stands a separator or the bracket, so that it can be told.
      obtain ⟨hs, hrest⟩ := List.forall_mem_cons.1 hparts
      obtain ⟨hs', hrest'⟩ := List.forall_mem_cons.1 hparts'
      simp only [List.flatMap_cons, List.cons_append, List.append_assoc, List.cons.injEq,
        true_and] at h
      obtain ⟨rfl, htail⟩ := hs s' _ _ hs' (ends_parts hclose r) (ends_parts hclose r') h
      obtain ⟨rfl, hr⟩ := ih hrest hrest' htail
      exact ⟨rfl, hr⟩

/-- Separated parts can be told from each other and from what comes after them, if no part starts
with the bracket that closes. -/
theorem separate_cut {r r' : List Char} (hclose : close = ']' ∨ close = '}')
    (hP : ∀ s, P s → ∃ c rest, s = c :: rest ∧ c ≠ close)
    (hparts : ∀ s ∈ parts, P s ∧ IsCut P s) (hparts' : ∀ s ∈ parts', P s)
    (h : separate [','] parts ++ close :: r = separate [','] parts' ++ close :: r') :
    parts = parts' ∧ r = r' := by
  cases parts with
  | nil =>
    cases parts' with
    | nil => exact ⟨rfl, (List.cons.inj h).2⟩
    | cons s' rest' =>
      obtain ⟨c, more, rfl, hc⟩ := hP s' (hparts' s' List.mem_cons_self)
      rw [separate_cons] at h
      exact absurd (List.cons.inj h).1.symm hc
  | cons s rest =>
    obtain ⟨⟨hs, hcut⟩, hrest⟩ := List.forall_mem_cons.1 hparts
    cases parts' with
    | nil =>
      obtain ⟨c, more, rfl, hc⟩ := hP s hs
      rw [separate_cons] at h
      exact absurd (List.cons.inj h).1 hc
    | cons s' rest' =>
      obtain ⟨hs', hrest'⟩ := List.forall_mem_cons.1 hparts'
      rw [separate_cons, separate_cons, List.append_assoc, List.append_assoc] at h
      obtain ⟨rfl, htail⟩ := hcut s' _ _ hs' (ends_parts hclose r) (ends_parts hclose r') h
      obtain ⟨rfl, hr⟩ := flatMap_cut hclose (fun t ht => (hrest t ht).2) hrest' htail
      exact ⟨rfl, hr⟩

end Parts

/-! ## Kinds of documents -/

/-- What the first character of a canonical text tells of the document. -/
inductive Kind
  | null
  | bool (b : Bool)
  | number
  | str
  | list
  | object

/-- The kind of a document. -/
def kind : Json → Kind
  | .null => .null
  | .bool b => .bool b
  | .int _ => .number
  | .float _ => .number
  | .str _ => .str
  | .list _ => .list
  | .object _ => .object

/-- The kind of the documents whose canonical texts start with a character. -/
def Kind.ofChar? (c : Char) : Option Kind :=
  if c = 'n' then some .null
  else if c = 't' then some (.bool true)
  else if c = 'f' then some (.bool false)
  else if c = '"' then some .str
  else if c = '[' then some .list
  else if c = '{' then some .object
  else if IsNumeral c ∨ IsMark c then some .number
  else none

/-- The first character of a number shows that it is one. -/
theorem Kind.ofChar?_of_number {c : Char} (h : IsNumeral c ∨ IsMark c) :
    ofChar? c = some .number := by
  -- None of the characters that start other documents is part of a number.
  have hne : ∀ d, ¬ (IsNumeral d ∨ IsMark d) → c ≠ d := by
    rintro d hd rfl
    exact hd h
  rw [ofChar?, if_neg (hne _ (by decide)), if_neg (hne _ (by decide)), if_neg (hne _ (by decide)),
    if_neg (hne _ (by decide)), if_neg (hne _ (by decide)), if_neg (hne _ (by decide)), if_pos h]

/-- The first character of a canonical text tells the kind of the document. -/
theorem kind_canonical (v : Json) :
    ∃ c rest, v.canonical = c :: rest ∧ Kind.ofChar? c = some v.kind := by
  cases v with
  | null => exact ⟨_, _, rfl, rfl⟩
  | bool b => cases b <;> exact ⟨_, _, rfl, rfl⟩
  | int n =>
    cases htext : Text.ofInt n with
    | nil =>
      have hread := Text.integer?_ofInt n
      rw [htext] at hread
      cases hread
    | cons c rest =>
      refine ⟨c, rest, htext, Kind.ofChar?_of_number (.inl (isNumeral_ofInt n c ?_))⟩
      rw [htext]
      exact List.mem_cons_self
  | float x =>
    obtain ⟨start, mark, rest, htext, hstart, hmark, -⟩ := isMarked_writeFloat x
    cases start with
    | nil => exact ⟨mark, rest, htext, Kind.ofChar?_of_number (.inr hmark)⟩
    | cons c more =>
      exact ⟨c, _, htext, Kind.ofChar?_of_number (.inl (hstart c List.mem_cons_self))⟩
  | str s => exact ⟨_, _, rfl, rfl⟩
  | list items => exact ⟨_, _, rfl, rfl⟩
  | object fields => exact ⟨_, _, rfl, rfl⟩

/-- Documents whose texts go on alike are of one kind. -/
theorem kind_eq_of_append {v w : Json} {r r' : List Char}
    (h : v.canonical ++ r = w.canonical ++ r') : v.kind = w.kind := by
  obtain ⟨c, rest, hv, hc⟩ := kind_canonical v
  obtain ⟨d, rest', hw, hd⟩ := kind_canonical w
  rw [hv, hw] at h
  obtain rfl : c = d := (List.cons.inj h).1
  exact Option.some.inj (hc.symm.trans hd)

/-- The canonical text of a document can be told from what comes after it, and no other document has
this text. -/
def Cuts (v : Json) : Prop :=
  ∀ w r r', Ends r → Ends r' → v.canonical ++ r = w.canonical ++ r' → Same v w ∧ r = r'

/-- Texts of documents. -/
def IsCanonical (s : List Char) : Prop :=
  ∃ v : Json, s = v.canonical

/-- Texts of fields. -/
def IsField (s : List Char) : Prop :=
  ∃ (n : String) (v : Json), s = writeString n ++ ':' :: v.canonical

/-- A value that is cut from what follows is found at the start of a text in one way only. -/
theorem Cuts.canonical_eq {v w : Json} {r r' : List Char} (h : Cuts v) (hr : Ends r) (hr' : Ends r')
    (heq : v.canonical ++ r = w.canonical ++ r') : v.canonical = w.canonical ∧ r = r' := by
  obtain ⟨-, rfl⟩ := h w r r' hr hr' heq
  exact ⟨List.append_cancel_right heq, rfl⟩

/-- A value that can be cut off is cut off from the canonical texts. -/
theorem Cuts.isCut {v : Json} (h : Cuts v) : IsCut IsCanonical v.canonical := by
  rintro s' r r' ⟨w, rfl⟩ hr hr' heq
  exact h.canonical_eq hr hr' heq

/-- A written string can be told from what comes after it. -/
theorem writeString_cut {n m : String} {r r' : List Char}
    (h : writeString n ++ r = writeString m ++ r') : n = m ∧ r = r' := by
  -- Both are read off the text.
  have hread := congrArg Token.scalar? h
  rw [scalar?_writeString, scalar?_writeString] at hread
  simpa using hread

/-- A field is cut off from the fields if its value can be. -/
theorem Cuts.isCut_field {v : Json} (h : Cuts v) (n : String) :
    IsCut IsField (writeString n ++ ':' :: v.canonical) := by
  rintro s' r r' ⟨m, w, rfl⟩ hr hr' heq
  rw [List.append_assoc, List.append_assoc] at heq
  -- First the name is told from what comes after it, then the document.
  obtain ⟨rfl, htail⟩ := writeString_cut heq
  obtain ⟨htext, rfl⟩ := h.canonical_eq hr hr' (List.cons.inj htail).2
  rw [htext]
  exact ⟨rfl, rfl⟩

/-- Two values with one canonical text say the same. -/
theorem Cuts.same {v w : Json} (h : Cuts v) (heq : v.canonical = w.canonical) : Same v w := by
  have hend : Ends [] := fun c hc => by simp at hc
  exact (h w [] [] hend hend (by rw [heq])).1

/-! ## Lists and objects -/

/-- A canonical text does not start with the end of a list. -/
theorem isCanonical_lead {s : List Char} (h : IsCanonical s) : ∃ c rest, s = c :: rest ∧ c ≠ ']' := by
  obtain ⟨v, rfl⟩ := h
  obtain ⟨c, rest, htext, hc⟩ := kind_canonical v
  refine ⟨c, rest, htext, ?_⟩
  -- A closing bracket is the first character of no kind of document.
  rintro rfl
  cases hc

/-- The text of a field does not start with the end of an object. -/
theorem isField_lead {s : List Char} (h : IsField s) : ∃ c rest, s = c :: rest ∧ c ≠ '}' := by
  obtain ⟨n, v, rfl⟩ := h
  exact ⟨'"', _, rfl, by decide⟩

/-- Two lists of items with the same canonical texts say the same, item by item. -/
theorem sameItems_of_canonical {items items' : List Json} (h : ∀ v ∈ items, Cuts v)
    (heq : items.map canonical = items'.map canonical) : SameItems items items' := by
  induction items generalizing items' with
  | nil =>
    obtain rfl : items' = [] := List.map_eq_nil_iff.1 heq.symm
    trivial
  | cons v rest ih =>
    cases items' with
    | nil => cases heq
    | cons w rest' =>
      obtain ⟨hv, hrest⟩ := List.forall_mem_cons.1 h
      obtain ⟨htext, htail⟩ := List.cons.inj heq
      exact ⟨hv.same htext, ih hrest htail⟩

/-- A list can be cut off if each of its items can. -/
theorem cuts_list {items : List Json} (h : ∀ v ∈ items, Cuts v) : Cuts (.list items) := by
  intro w r r' hr hr' heq
  have hkind := kind_eq_of_append heq
  cases w with
  | list items' =>
    simp only [canonical, canonicalItems_eq, List.cons_append, List.append_assoc, List.nil_append,
      List.cons.injEq, true_and] at heq
    have hparts : ∀ s ∈ items.map canonical, IsCanonical s ∧ IsCut IsCanonical s :=
      List.forall_mem_map.2 fun v hv => ⟨⟨v, rfl⟩, (h v hv).isCut⟩
    have hparts' : ∀ s ∈ items'.map canonical, IsCanonical s :=
      List.forall_mem_map.2 fun v _ => ⟨v, rfl⟩
    obtain ⟨htexts, rfl⟩ :=
      separate_cut (.inl rfl) (fun _ => isCanonical_lead) hparts hparts' heq
    exact ⟨sameItems_of_canonical h htexts, rfl⟩
  | _ => cases hkind

/-- The text of a field, given that of its document. -/
def fieldText (f : String × List Char) : List Char :=
  writeString f.1 ++ ':' :: f.2

/-- The text of a field tells its name and the text of its value. -/
theorem fieldText_injective : Function.Injective fieldText := by
  intro f g h
  obtain ⟨hname, htail⟩ := writeString_cut h
  exact Prod.ext hname (List.cons.inj htail).2

/-- The canonical text of an object has its fields in the order of their names. -/
theorem canonical_object (fields : List (String × Json)) :
    canonical (.object fields) = '{' :: separate [','] ((sortByName (canonicalFields fields)).map
      fieldText) ++ ['}'] := by
  rw [canonical]
  rfl

/-- Every field that is written is one of the object. -/
theorem mem_sortByName_canonicalFields {fields : List (String × Json)} {f : String × List Char}
    (h : f ∈ sortByName (canonicalFields fields)) :
    ∃ g ∈ fields, f = (g.1, g.2.canonical) := by
  rw [(sortByName_perm _).mem_iff, canonicalFields_eq] at h
  obtain ⟨g, hg, rfl⟩ := List.mem_map.1 h
  exact ⟨g, hg, rfl⟩

/-- Objects with the same fields in canonical form are the same. -/
theorem same_of_canonicalFields {fields fields' : List (String × Json)}
    (hnodup : (fields.map Prod.fst).Nodup) (h : ∀ f ∈ fields, Cuts f.2)
    (hperm : (canonicalFields fields).Perm (canonicalFields fields')) :
    Same (.object fields) (.object fields') := by
  rw [canonicalFields_eq, canonicalFields_eq] at hperm
  have hnames : (fields.map Prod.fst).Perm (fields'.map Prod.fst) := by
    simpa [List.map_map, Function.comp_def] using hperm.map Prod.fst
  refine ⟨sameFields_iff.2 fun f hf => ?_, hnames.symm.subset⟩
  -- The field has its text among the others, and its name stands for one of them only.
  obtain ⟨g, hg, htext⟩ := List.mem_map.1 (hperm.mem_iff.1 (List.mem_map_of_mem hf))
  obtain ⟨hname, hvalue⟩ := Prod.mk.inj htext
  have hlookup : fields'.lookup g.1 = some g.2 :=
    (OrderedMap.get?_eq_some_iff (m := ⟨fields', hnames.nodup_iff.1 hnodup⟩)).2 hg
  rw [hname] at hlookup
  exact ⟨g.2, hlookup, (h f hf).same hvalue.symm⟩

/-- An object with distinct names can be cut off if each of its values can. -/
theorem cuts_object {fields : List (String × Json)} (hnodup : (fields.map Prod.fst).Nodup)
    (h : ∀ f ∈ fields, Cuts f.2) : Cuts (.object fields) := by
  intro w r r' hr hr' heq
  have hkind := kind_eq_of_append heq
  cases w with
  | object fields' =>
    simp only [canonical_object, List.cons_append, List.append_assoc, List.nil_append,
      List.cons.injEq, true_and] at heq
    have hparts : ∀ s ∈ (sortByName (canonicalFields fields)).map fieldText,
        IsField s ∧ IsCut IsField s := List.forall_mem_map.2 fun f hf => by
      obtain ⟨g, hg, rfl⟩ := mem_sortByName_canonicalFields hf
      exact ⟨⟨g.1, g.2, rfl⟩, (h g hg).isCut_field g.1⟩
    have hparts' : ∀ s ∈ (sortByName (canonicalFields fields')).map fieldText, IsField s :=
      List.forall_mem_map.2 fun f hf => by
        obtain ⟨g, -, rfl⟩ := mem_sortByName_canonicalFields hf
        exact ⟨g.1, g.2, rfl⟩
    obtain ⟨htexts, rfl⟩ := separate_cut (.inr rfl) (fun _ => isField_lead) hparts hparts' heq
    -- The sorted fields agree, so the fields agree up to their order.
    have hsorted := List.map_injective_iff.2 fieldText_injective htexts
    refine ⟨same_of_canonicalFields hnodup h ?_, rfl⟩
    exact (sortByName_perm _).symm.trans (hsorted ▸ sortByName_perm _)
  | _ => cases hkind

/-! ## Scalars -/

theorem cuts_null : Cuts .null := by
  intro w r r' _ _ heq
  have hkind := kind_eq_of_append heq
  cases w with
  | null => exact ⟨rfl, List.append_cancel_left heq⟩
  | _ => cases hkind

theorem cuts_bool (b : Bool) : Cuts (.bool b) := by
  intro w r r' _ _ heq
  have hkind := kind_eq_of_append heq
  cases w with
  | bool b' =>
    cases hkind
    exact ⟨rfl, List.append_cancel_left heq⟩
  | _ => cases hkind

theorem cuts_int (n : Int) : Cuts (.int n) := by
  intro w r r' hr hr' heq
  have hkind := kind_eq_of_append heq
  cases w with
  | int m =>
    obtain ⟨htext, rfl⟩ := append_inj_of_forall (isNumeral_ofInt n) (isNumeral_ofInt m)
      hr.not_isNumeral hr'.not_isNumeral heq
    -- Equal digits denote equal numbers.
    have hread := congrArg Text.integer? htext
    rw [Text.integer?_ofInt, Text.integer?_ofInt] at hread
    cases hread
    exact ⟨rfl, rfl⟩
  | float x => exact absurd heq ((isMarked_writeFloat x).ne_numeral (isNumeral_ofInt n) hr)
  | _ => cases hkind

theorem cuts_str (s : String) : Cuts (.str s) := by
  intro w r r' _ _ heq
  have hkind := kind_eq_of_append heq
  cases w with
  | str s' =>
    obtain ⟨rfl, rfl⟩ := writeString_cut heq
    exact ⟨rfl, rfl⟩
  | _ => cases hkind

/-! ## Documents -/

mutual

/-- The canonical text of a plain document can be told from what comes after it, and no other
document has this text. -/
theorem cuts_of_isPlain : ∀ v : Json, v.IsPlain → Cuts v
  | .null, _ => cuts_null
  | .bool b, _ => cuts_bool b
  | .int n, _ => cuts_int n
  | .float _, h => h.elim
  | .str s, _ => cuts_str s
  | .list items, h => cuts_list (cuts_of_itemsPlain items h)
  | .object fields, h => cuts_object h.1 (cuts_of_fieldsPlain fields h.2)

theorem cuts_of_itemsPlain : ∀ items : List Json, ItemsPlain items → ∀ v ∈ items, Cuts v
  | [], _ => nofun
  | v :: rest, h => List.forall_mem_cons.2 ⟨cuts_of_isPlain v h.1, cuts_of_itemsPlain rest h.2⟩

theorem cuts_of_fieldsPlain : ∀ fields : List (String × Json), FieldsPlain fields →
    ∀ f ∈ fields, Cuts f.2
  | [], _ => nofun
  | (_, v) :: rest, h =>
    List.forall_mem_cons.2 ⟨cuts_of_isPlain v h.1, cuts_of_fieldsPlain rest h.2⟩

end

/-- A document with the canonical text of a plain document is the same document. -/
theorem same_of_canonical {v w : Json} (h : v.IsPlain) (heq : v.canonical = w.canonical) :
    Same v w :=
  (cuts_of_isPlain v h).same heq

/-! ## From text to bytes -/

theorem isAscii_separate {parts : List (List Char)} (h : ∀ s ∈ parts, IsAscii s) :
    IsAscii (separate [','] parts) := by
  cases parts with
  | nil => exact nofun
  | cons s rest =>
    rw [separate_cons]
    refine (h s List.mem_cons_self).append fun c hc => ?_
    obtain ⟨t, ht, hc⟩ := List.mem_flatMap.1 hc
    exact (h t (List.mem_cons_of_mem s ht)).cons (by decide) c hc

mutual

/-- The canonical text of a document is ASCII. -/
theorem isAscii_canonical : ∀ v : Json, IsAscii v.canonical
  | .null => by decide
  | .bool true => by decide
  | .bool false => by decide
  | .int n => isAscii_ofInt n
  | .float x => (isMarked_writeFloat x).isAscii
  | .str s => isAscii_writeString s
  | .list items => by
    rw [canonical, canonicalItems_eq]
    refine (IsAscii.cons (by decide) (isAscii_separate fun s hs => ?_)).append (by decide)
    obtain ⟨v, hv, rfl⟩ := List.mem_map.1 hs
    exact isAscii_canonicalItems items v hv
  | .object fields => by
    rw [canonical_object]
    refine (IsAscii.cons (by decide) (isAscii_separate fun s hs => ?_)).append (by decide)
    obtain ⟨f, hf, rfl⟩ := List.mem_map.1 hs
    obtain ⟨g, hg, rfl⟩ := mem_sortByName_canonicalFields hf
    exact (isAscii_writeString g.1).append
      ((isAscii_canonicalFields fields g hg).cons (by decide))

theorem isAscii_canonicalItems : ∀ items : List Json, ∀ v ∈ items, IsAscii v.canonical
  | [] => nofun
  | v :: rest => List.forall_mem_cons.2 ⟨isAscii_canonical v, isAscii_canonicalItems rest⟩

theorem isAscii_canonicalFields : ∀ fields : List (String × Json), ∀ f ∈ fields,
    IsAscii f.2.canonical
  | [] => nofun
  | (_, v) :: rest => List.forall_mem_cons.2 ⟨isAscii_canonical v, isAscii_canonicalFields rest⟩

end

/-- ASCII texts with the same bytes are the same. -/
theorem IsAscii.eq_of_bytes {s s' : List Char} (h : IsAscii s) (h' : IsAscii s')
    (heq : (s.map fun c => UInt8.ofNat c.toNat) = s'.map fun c => UInt8.ofNat c.toNat) : s = s' := by
  have hread := decodeUtf8_ascii h
  rw [heq, decodeUtf8_ascii h'] at hread
  exact (Option.some.inj hread).symm

end Parley.Json
