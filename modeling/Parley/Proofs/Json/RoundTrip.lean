import Parley.Proofs.Json.Numbers
import Parley.Proofs.Json.Strings
import Parley.Text.Utf8

/-!
# Written Documents Read Back

The indented form of a document is read as that document. Two things are asked of the document
(`Json.IsPlain`): it has no binary64 numbers, whose writing is a matter of its own, and the fields of
an object have distinct names, since a reader keeps one field for each name. Two more are asked for the
limits of the reader: the integers can be converted, and there is room for the objects and lists.

* `Token.ofTextAfter_indented`: the tokens of the indented form are those of the document;
* `ofTokens_tokens`: the tokens of a document are read as the document;
* `ofText_indented`: both together, for every plain document;
* `decodeUtf8_indented`: the bytes of the indented form are the bytes of its characters.
-/

namespace Parley.Json

mutual

/-- A document without binary64 numbers, whose objects have distinct field names. -/
def IsPlain : Json → Prop
  | .float _ => False
  | .list items => ItemsPlain items
  | .object fields => (fields.map Prod.fst).Nodup ∧ FieldsPlain fields
  | _ => True

/-- Documents all of which are plain. -/
def ItemsPlain : List Json → Prop
  | [] => True
  | v :: rest => IsPlain v ∧ ItemsPlain rest

/-- Fields with plain documents. -/
def FieldsPlain : List (String × Json) → Prop
  | [] => True
  | (_, v) :: rest => IsPlain v ∧ FieldsPlain rest

end

mutual

/-- The tokens of a document. -/
def tokens : Json → List Token
  | .list [] => [.openList, .closeList]
  | .list (v :: rest) => .openList :: (tokens v ++ itemTokens rest ++ [.closeList])
  | .object [] => [.openObject, .closeObject]
  | .object ((n, v) :: rest) =>
    .openObject :: .scalar (.str n) :: .colon :: (tokens v ++ fieldTokens rest ++ [.closeObject])
  | v => [.scalar v]

/-- The tokens of the items after the first one of a list. -/
def itemTokens : List Json → List Token
  | [] => []
  | v :: rest => .comma :: (tokens v ++ itemTokens rest)

/-- The tokens of the fields after the first one of an object. -/
def fieldTokens : List (String × Json) → List Token
  | [] => []
  | (n, v) :: rest => .comma :: .scalar (.str n) :: .colon :: (tokens v ++ fieldTokens rest)

end

/-! ## From text to tokens -/

namespace Token

variable {c : Char} {seen : List Token} {s rest : List Char}

/-- A gap is passed over. -/
theorem ofTextAfter_gap (h : isGap c = true) :
    ofTextAfter seen (c :: rest) = ofTextAfter seen rest := by
  rw [ofTextAfter, if_pos h]

/-- A bracket or separator is a token of its own. -/
theorem ofTextAfter_punctuation {t : Token} (hgap : isGap c = false)
    (h : punctuation? c = some t) :
    ofTextAfter seen (c :: rest) = ofTextAfter (t :: seen) rest := by
  rw [ofTextAfter, if_neg (by simp [hgap]), h]

/-- A scalar is a token. -/
theorem ofTextAfter_scalar {v : Json} (hgap : isGap c = false) (hp : punctuation? c = none)
    (hshort : v.isShort = true) (h : scalar? (c :: s) = some (v, rest)) :
    ofTextAfter seen (c :: s) = ofTextAfter (.scalar v :: seen) rest := by
  rw [ofTextAfter, if_neg (by simp [hgap]), hp]
  dsimp only
  split
  · next value rest' hscalar =>
    rw [h] at hscalar
    cases hscalar
    rw [if_pos hshort]
  · next hnone =>
    rw [h] at hnone
    cases hnone

/-- A line end and the indentation after it are passed over. -/
theorem ofTextAfter_newLine (level : Nat) :
    ofTextAfter seen (newLine level ++ rest) = ofTextAfter seen rest := by
  -- Blank by blank.
  have hblanks : ∀ n, ofTextAfter seen (List.replicate n ' ' ++ rest) = ofTextAfter seen rest := by
    intro n
    induction n with
    | zero => rfl
    | succ n ih =>
      rw [List.replicate_succ, List.cons_append, ofTextAfter_gap rfl, ih]
  rw [newLine, List.cons_append, ofTextAfter_gap rfl, hblanks]

/-- A written string is a token. -/
theorem ofTextAfter_writeString (name : String) :
    ofTextAfter seen (writeString name ++ rest) =
      ofTextAfter (.scalar (.str name) :: seen) rest := by
  have hscalar := scalar?_writeString name rest
  rw [writeString, List.cons_append, List.cons_append] at hscalar ⊢
  exact ofTextAfter_scalar rfl rfl rfl hscalar

theorem isGap_of_isDigit (h : c.isDigit = true) : isGap c = false := by
  simp only [isGap, Bool.or_eq_false_iff, beq_eq_false_iff_ne]
  refine ⟨⟨⟨?_, ?_⟩, ?_⟩, ?_⟩ <;> (rintro rfl; cases h)

theorem punctuation?_of_isDigit (h : c.isDigit = true) : punctuation? c = none := by
  unfold punctuation?
  split <;> first | rfl | cases h

theorem ofTextAfter_ofInt (n : Int) (hshort : (Json.int n).isShort = true)
    (hrest : EndsNumber rest) :
    ofTextAfter seen (Text.ofInt n ++ rest) = ofTextAfter (.scalar (.int n) :: seen) rest := by
  have hscalar := scalar?_ofInt n hrest
  cases n with
  | negSucc m =>
    rw [Text.ofInt_negSucc, List.cons_append] at hscalar ⊢
    exact ofTextAfter_scalar rfl rfl hshort hscalar
  | ofNat m =>
    rw [show Text.ofInt (.ofNat m) = Nat.toDigits 10 m from Text.ofInt_natCast m] at hscalar ⊢
    cases hdigits : Nat.toDigits 10 m with
    | nil => exact absurd hdigits Nat.toDigits_ne_nil
    -- The first digit is neither a gap nor a bracket, so it starts a scalar.
    | cons c more =>
      have hc : c.isDigit = true := Text.isDigit_of_mem_toDigits (n := m) (by simp [hdigits])
      rw [hdigits, List.cons_append] at hscalar
      exact ofTextAfter_scalar (isGap_of_isDigit hc) (punctuation?_of_isDigit hc) hshort hscalar

theorem endsNumber_cons (hc : c = ',' ∨ c = '\n') : EndsNumber (c :: rest) := by
  intro d hd
  obtain rfl : c = d := by simpa using hd
  rcases hc with rfl | rfl <;> decide

/-- Behind an item comes the next one or the end of the line. -/
theorem endsNumber_indentedItems (level : Nat) (items : List Json) (hrest : EndsNumber rest) :
    EndsNumber (indentedItems level items ++ rest) := by
  cases items with
  | nil => exact hrest
  | cons v more =>
    rw [indentedItems]
    exact endsNumber_cons (.inl rfl)

theorem endsNumber_indentedFields (level : Nat) (fields : List (String × Json))
    (hrest : EndsNumber rest) : EndsNumber (indentedFields level fields ++ rest) := by
  cases fields with
  | nil => exact hrest
  | cons f more =>
    rw [indentedFields]
    exact endsNumber_cons (.inl rfl)

mutual

/-- The tokens of the indented form of a document are the tokens of the document. -/
theorem ofTextAfter_indented (level : Nat) : ∀ (v : Json), v.IsPlain → v.isShort = true →
    ∀ (seen : List Token) (rest : List Char), EndsNumber rest →
      ofTextAfter seen (indented level v ++ rest) = ofTextAfter ((tokens v).reverse ++ seen) rest
  | .null, _, _, seen, rest, _ => ofTextAfter_scalar rfl rfl rfl rfl
  | .bool true, _, _, seen, rest, _ => ofTextAfter_scalar rfl rfl rfl rfl
  | .bool false, _, _, seen, rest, _ => ofTextAfter_scalar rfl rfl rfl rfl
  | .int n, _, hshort, seen, rest, hrest => by
    rw [indented, ofTextAfter_ofInt n hshort hrest]
    rfl
  | .float x, h, _, _, _, _ => h.elim
  | .str s, _, _, seen, rest, _ => by
    rw [indented, ofTextAfter_writeString]
    rfl
  | .list [], _, _, seen, rest, _ => by
    rw [indented, List.cons_append, ofTextAfter_punctuation rfl rfl]
    exact ofTextAfter_punctuation rfl rfl
  -- The pieces of the text in order: bracket, line, first item, other items, line, bracket. A line end
  -- or a comma follows every item, so that numbers end where they should.
  | .list (v :: items), h, hshort, seen, rest, _ => by
    have hline : ∀ rest, EndsNumber (newLine level ++ rest) := fun _ => endsNumber_cons (.inr rfl)
    rw [IsPlain, ItemsPlain] at h
    rw [isShort, itemsShort, Bool.and_eq_true] at hshort
    simp only [indented, List.cons_append, List.append_assoc, List.nil_append]
    rw [ofTextAfter_punctuation rfl rfl, ofTextAfter_newLine,
      ofTextAfter_indented (level + 1) v h.1 hshort.1 _ _ (endsNumber_indentedItems _ _ (hline _)),
      ofTextAfter_indentedItems (level + 1) items h.2 hshort.2 _ _ (hline _), ofTextAfter_newLine,
      ofTextAfter_punctuation rfl rfl]
    simp [tokens]
  | .object [], _, _, seen, rest, _ => by
    rw [indented, List.cons_append, ofTextAfter_punctuation rfl rfl]
    exact ofTextAfter_punctuation rfl rfl
  | .object ((name, v) :: fields), h, hshort, seen, rest, _ => by
    have hline : ∀ rest, EndsNumber (newLine level ++ rest) := fun _ => endsNumber_cons (.inr rfl)
    rw [IsPlain, FieldsPlain] at h
    rw [isShort, fieldsShort, Bool.and_eq_true] at hshort
    simp only [indented, List.cons_append, List.append_assoc, List.nil_append]
    rw [ofTextAfter_punctuation rfl rfl, ofTextAfter_newLine, ofTextAfter_writeString,
      ofTextAfter_punctuation rfl rfl, ofTextAfter_gap rfl,
      ofTextAfter_indented (level + 1) v h.2.1 hshort.1 _ _
        (endsNumber_indentedFields _ _ (hline _)),
      ofTextAfter_indentedFields (level + 1) fields h.2.2 hshort.2 _ _ (hline _),
      ofTextAfter_newLine,
      ofTextAfter_punctuation rfl rfl]
    simp [tokens]

theorem ofTextAfter_indentedItems (level : Nat) : ∀ (items : List Json), ItemsPlain items →
    itemsShort items = true → ∀ (seen : List Token) (rest : List Char), EndsNumber rest →
      ofTextAfter seen (indentedItems level items ++ rest) =
        ofTextAfter ((itemTokens items).reverse ++ seen) rest
  | [], _, _, _, _, _ => rfl
  | v :: items, h, hshort, seen, rest, hrest => by
    rw [ItemsPlain] at h
    rw [itemsShort, Bool.and_eq_true] at hshort
    simp only [indentedItems, List.cons_append, List.append_assoc]
    rw [ofTextAfter_punctuation rfl rfl, ofTextAfter_newLine,
      ofTextAfter_indented level v h.1 hshort.1 _ _ (endsNumber_indentedItems _ _ hrest),
      ofTextAfter_indentedItems level items h.2 hshort.2 _ _ hrest]
    simp [itemTokens]

theorem ofTextAfter_indentedFields (level : Nat) : ∀ (fields : List (String × Json)),
    FieldsPlain fields → fieldsShort fields = true →
    ∀ (seen : List Token) (rest : List Char), EndsNumber rest →
      ofTextAfter seen (indentedFields level fields ++ rest) =
        ofTextAfter ((fieldTokens fields).reverse ++ seen) rest
  | [], _, _, _, _, _ => rfl
  | (name, v) :: fields, h, hshort, seen, rest, hrest => by
    rw [FieldsPlain] at h
    rw [fieldsShort, Bool.and_eq_true] at hshort
    simp only [indentedFields, List.cons_append, List.append_assoc, List.nil_append]
    rw [ofTextAfter_punctuation rfl rfl, ofTextAfter_newLine, ofTextAfter_writeString,
      ofTextAfter_punctuation rfl rfl, ofTextAfter_gap rfl,
      ofTextAfter_indented level v h.1 hshort.1 _ _ (endsNumber_indentedFields _ _ hrest),
      ofTextAfter_indentedFields level fields h.2 hshort.2 _ _ hrest]
    simp [fieldTokens]

end

end Token

/-! ## From tokens to documents -/

variable {room : Nat}

/-- The first item of a list is read like every other one: the list counts as open in both cases. -/
theorem ofTokens_firstItem (v : Json) (rest : List Token) (frames : List Frame) :
    ofTokens room (tokens v ++ rest) frames .firstItem =
      ofTokens room (tokens v ++ rest) (.list [] :: frames) .value := by
  -- A closing bracket is the only token that a first item makes a difference for.
  cases v with
  | list items => cases items <;> rfl
  | object fields => cases fields <;> rfl
  | _ => rfl

mutual

/-- The tokens of a document are read as the document, if there is room for what is in it. -/
theorem ofTokens_tokens : ∀ (v : Json), v.IsPlain → ∀ (rest : List Token) (frames : List Frame),
    frames.length + v.depth ≤ room →
    ofTokens room (tokens v ++ rest) frames .value = ofTokens room rest frames (.after v)
  | .null, _, _, _, _ => rfl
  | .bool _, _, _, _, _ => rfl
  | .int _, _, _, _, _ => rfl
  | .float _, h, _, _, _ => h.elim
  | .str _, _, _, _, _ => rfl
  | .list [], _, rest, frames, hroom => by
    rw [depth, itemsDepth] at hroom
    exact if_pos (by omega)
  | .list (v :: items), h, rest, frames, hroom => by
    rw [IsPlain, ItemsPlain] at h
    rw [depth, itemsDepth] at hroom
    have hv : (Frame.list [] :: frames).length + v.depth ≤ room := by
      rw [List.length_cons]
      omega
    simp only [tokens, List.cons_append, List.append_assoc, List.nil_append]
    -- After the bracket the first item is read, and the others are gathered behind it.
    rw [ofTokens, if_pos (by omega), ofTokens_firstItem, ofTokens_tokens v h.1 _ _ hv,
      ofTokens_itemTokens items h.2 _ _ _ _ (by omega)]
    rfl
  | .object [], _, rest, frames, hroom => by
    rw [depth, fieldsDepth] at hroom
    exact if_pos (by omega)
  | .object ((name, v) :: fields), h, rest, frames, hroom => by
    rw [IsPlain, FieldsPlain] at h
    rw [depth, fieldsDepth] at hroom
    have hv : (Frame.object [] name :: frames).length + v.depth ≤ room := by
      rw [List.length_cons]
      omega
    simp only [tokens, List.cons_append, List.append_assoc, List.nil_append]
    rw [ofTokens, if_pos (by omega), ofTokens, ofTokens, ofTokens_tokens v h.2.1 _ _ hv,
      ofTokens_fieldTokens fields h.2.2 rest frames [] name v h.1 (by omega)]
    rfl

/-- The items of a list are gathered behind those before them. -/
theorem ofTokens_itemTokens : ∀ (items : List Json), ItemsPlain items →
    ∀ (rest : List Token) (frames : List Frame) (before : List Json) (v : Json),
      frames.length + (itemsDepth items + 1) ≤ room →
      ofTokens room (itemTokens items ++ .closeList :: rest) (.list before :: frames) (.after v) =
        ofTokens room rest frames (.after (.list (before.reverse ++ v :: items)))
  | [], _, rest, frames, before, v, _ => by
    rw [itemTokens, List.nil_append, ofTokens, List.reverse_cons]
  | w :: items, h, rest, frames, before, v, hroom => by
    rw [ItemsPlain] at h
    rw [itemsDepth] at hroom
    have hw : (Frame.list (v :: before) :: frames).length + w.depth ≤ room := by
      rw [List.length_cons]
      omega
    simp only [itemTokens, List.cons_append, List.append_assoc]
    rw [ofTokens, ofTokens_tokens w h.1 _ _ hw, ofTokens_itemTokens items h.2 _ _ _ _ (by omega)]
    simp

/-- The fields of an object are gathered behind those before them, since their names are new. -/
theorem ofTokens_fieldTokens : ∀ (fields : List (String × Json)), FieldsPlain fields →
    ∀ (rest : List Token) (frames : List Frame) (before : List (String × Json)) (name : String)
      (v : Json), ((before ++ (name, v) :: fields).map Prod.fst).Nodup →
      frames.length + (fieldsDepth fields + 1) ≤ room →
      ofTokens room (fieldTokens fields ++ .closeObject :: rest) (.object before name :: frames)
          (.after v) =
        ofTokens room rest frames (.after (.object (before ++ (name, v) :: fields)))
  | [], _, rest, frames, before, name, v, hnodup, _ => by
    have hnew : name ∉ before.map Prod.fst := by
      rw [List.map_append, List.nodup_append] at hnodup
      exact fun hmem => hnodup.2.2 _ hmem _ (by simp) rfl
    -- The last field is put behind the others when the bracket closes.
    rw [fieldTokens, List.nil_append, ofTokens, insertEntry_of_notMem hnew]
  | (next, w) :: fields, h, rest, frames, before, name, v, hnodup, hroom => by
    have hnew : name ∉ before.map Prod.fst := by
      rw [List.map_append, List.nodup_append] at hnodup
      exact fun hmem => hnodup.2.2 _ hmem _ (by simp) rfl
    rw [FieldsPlain] at h
    rw [fieldsDepth] at hroom
    have hw : (Frame.object (before ++ [(name, v)]) next :: frames).length + w.depth ≤ room := by
      rw [List.length_cons]
      omega
    simp only [fieldTokens, List.cons_append, List.append_assoc]
    rw [ofTokens, insertEntry_of_notMem hnew, ofTokens, ofTokens, ofTokens_tokens w h.1 _ _ hw,
      ofTokens_fieldTokens fields h.2 rest frames _ next w (by simpa using hnodup) (by omega)]
    simp

end

/-- Fields are no deeper than the deepest of them. -/
theorem fieldsDepth_le {fields : List (String × Json)} {n : Nat} (h : ∀ f ∈ fields, f.2.depth ≤ n) :
    fieldsDepth fields ≤ n := by
  induction fields with
  | nil => exact Nat.zero_le n
  | cons f rest ih =>
    obtain ⟨hf, hrest⟩ := List.forall_mem_cons.1 h
    exact Nat.max_le.2 ⟨hf, ih hrest⟩

/-- A plain document that the reader can hold. -/
structure IsReadable (limits : Limits) (v : Json) : Prop where
  plain : v.IsPlain
  short : v.isShort = true
  fits : v.depth ≤ limits.documents

/-- The indented form of a document that the reader can hold is read as the document. -/
theorem ofText_indented {limits : Limits} {v : Json} (h : IsReadable limits v) :
    ofText (v.indented 0) limits = .ok v := by
  -- Nothing follows the document, which ends a number too.
  have htokens : Token.ofText (v.indented 0) = tokens v := by
    have hend : EndsNumber [] := fun c hc => by simp at hc
    have htext := Token.ofTextAfter_indented 0 v h.plain h.short [] [] hend
    rw [List.append_nil, List.append_nil, Token.ofTextAfter, List.reverse_reverse] at htext
    exact htext
  have hroom : ([] : List Frame).length + v.depth ≤ limits.documents := by
    simpa using h.fits
  have hdocument := ofTokens_tokens v h.plain [] [] hroom
  rw [List.append_nil] at hdocument
  rw [ofText, htokens, hdocument, ofTokens]

/-! ## From bytes to text -/

/-- A text of ASCII characters. -/
def IsAscii (s : List Char) : Prop :=
  ∀ c ∈ s, c.toNat < 128

instance (s : List Char) : Decidable (IsAscii s) :=
  decidable_of_iff (s.all (fun c => c.toNat < 128) = true) (by simp [IsAscii])

theorem IsAscii.append {s s' : List Char} (h : IsAscii s) (h' : IsAscii s') : IsAscii (s ++ s') := by
  intro c hc
  rcases List.mem_append.1 hc with hc | hc
  · exact h c hc
  · exact h' c hc

theorem IsAscii.cons {c : Char} {s : List Char} (hc : c.toNat < 128) (h : IsAscii s) :
    IsAscii (c :: s) := by
  intro d hd
  rcases List.mem_cons.1 hd with rfl | hd
  · exact hc
  · exact h d hd

/-- ASCII characters are their own bytes. -/
theorem decodeUtf8_ascii {s : List Char} (h : IsAscii s) :
    Text.decodeUtf8 (s.map fun c => UInt8.ofNat c.toNat) = some s := by
  induction s with
  | nil => rfl
  | cons c rest ih =>
    have hc : c.toNat < 128 := h c List.mem_cons_self
    -- An ASCII character is one byte, its own code.
    have hbyte : (UInt8.ofNat c.toNat).toNat = c.toNat := by
      rw [UInt8.toNat_ofNat']
      omega
    have hlow : UInt8.ofNat c.toNat < 0x80 := by
      rw [UInt8.lt_iff_toNat_lt, hbyte]
      exact hc
    have hrest := ih fun d hd => h d (List.mem_cons_of_mem c hd)
    rw [List.map_cons, Text.decodeUtf8.eq_def]
    dsimp only
    rw [if_pos hlow, hbyte, Char.ofNat_toNat, hrest]
    rfl

theorem isAscii_escapeUnit {n : Nat} (h : n < 65536) : IsAscii (escapeUnit n) := by
  have hdigit : ∀ d < 16, (Nat.digitChar d).toNat < 128 := by decide
  rw [escapeUnit, Text.hex_four h]
  intro c hc
  simp only [List.mem_cons, List.not_mem_nil, or_false] at hc
  rcases hc with rfl | rfl | rfl | rfl | rfl | rfl
  · decide
  · decide
  · exact hdigit _ (by omega)
  · exact hdigit _ (by omega)
  · exact hdigit _ (by omega)
  · exact hdigit _ (by omega)

theorem isAscii_escapeChar (c : Char) : IsAscii (escapeChar c) := by
  have hvalid := isValid_toNat c
  have hpair : ∀ d : Char, d.toNat < 128 → IsAscii ['\\', d] := by
    intro d hd e he
    simp only [List.mem_cons, List.not_mem_nil, or_false] at he
    rcases he with rfl | rfl
    · decide
    · exact hd
  rw [escapeChar]
  split
  · next h =>
    rcases h with rfl | rfl
    · exact hpair _ (by decide)
    · exact hpair _ (by decide)
  iterate 5
    split
    · exact hpair _ (by decide)
  split
  · next hprintable =>
    intro d hd
    obtain rfl := List.mem_singleton.1 hd
    omega
  split
  · exact isAscii_escapeUnit (by omega)
  · exact (isAscii_escapeUnit (by omega)).append (isAscii_escapeUnit (by omega))

theorem isAscii_writeString (s : String) : IsAscii (writeString s) := by
  rw [writeString]
  refine (IsAscii.cons (by decide) ?_).append (by decide)
  intro c hc
  obtain ⟨d, -, hc⟩ := List.mem_flatMap.1 hc
  exact isAscii_escapeChar d c hc

theorem isAscii_of_isDigit {s : List Char} (h : ∀ c ∈ s, c.isDigit = true) : IsAscii s := by
  intro c hc
  exact Nat.lt_of_le_of_lt (Char.isDigit_iff_toNat.1 (h c hc)).2 (by decide)

theorem isAscii_toDigits (n : Nat) : IsAscii (Nat.toDigits 10 n) :=
  isAscii_of_isDigit fun _ => Text.isDigit_of_mem_toDigits

theorem isAscii_ofInt (n : Int) : IsAscii (Text.ofInt n) := by
  rw [Text.ofInt]
  split
  · exact IsAscii.cons (by decide) (isAscii_toDigits _)
  · exact isAscii_toDigits _

theorem isAscii_newLine (level : Nat) : IsAscii (newLine level) := by
  refine IsAscii.cons (by decide) fun c hc => ?_
  rw [(List.mem_replicate.1 hc).2]
  decide

mutual

/-- The indented form of a document without binary64 numbers is ASCII. -/
theorem isAscii_indented (level : Nat) : ∀ v : Json, v.IsPlain → IsAscii (indented level v)
  | .null, _ => by rw [indented]; decide
  | .bool true, _ => by rw [indented]; decide
  | .bool false, _ => by rw [indented]; decide
  | .int n, _ => isAscii_ofInt n
  | .float _, h => h.elim
  | .str s, _ => isAscii_writeString s
  | .list [], _ => by rw [indented]; decide
  | .list (v :: items), h => by
    rw [IsPlain, ItemsPlain] at h
    rw [indented]
    exact ((((IsAscii.cons (by decide) (isAscii_newLine _)).append
      (isAscii_indented _ v h.1)).append (isAscii_indentedItems _ items h.2)).append
      (isAscii_newLine _)).append (by decide)
  | .object [], _ => by rw [indented]; decide
  | .object ((name, v) :: fields), h => by
    rw [IsPlain, FieldsPlain] at h
    rw [indented]
    exact ((((((IsAscii.cons (by decide) (isAscii_newLine _)).append
      (isAscii_writeString name)).append (by decide)).append
      (isAscii_indented _ v h.2.1)).append (isAscii_indentedFields _ fields h.2.2)).append
      (isAscii_newLine _)).append (by decide)

theorem isAscii_indentedItems (level : Nat) : ∀ items : List Json, ItemsPlain items →
    IsAscii (indentedItems level items)
  | [], _ => by rw [indentedItems]; decide
  | v :: items, h => by
    rw [ItemsPlain] at h
    rw [indentedItems]
    exact ((IsAscii.cons (by decide) (isAscii_newLine _)).append
      (isAscii_indented _ v h.1)).append (isAscii_indentedItems _ items h.2)

theorem isAscii_indentedFields (level : Nat) : ∀ fields : List (String × Json),
    FieldsPlain fields → IsAscii (indentedFields level fields)
  | [], _ => by rw [indentedFields]; decide
  | (name, v) :: fields, h => by
    rw [FieldsPlain] at h
    rw [indentedFields]
    exact ((((IsAscii.cons (by decide) (isAscii_newLine _)).append
      (isAscii_writeString name)).append (by decide)).append
      (isAscii_indented _ v h.1)).append (isAscii_indentedFields _ fields h.2)

end

/-- The bytes of the indented form of a plain document are those of its characters. -/
theorem decodeUtf8_indented {v : Json} (h : v.IsPlain) (level : Nat) :
    Text.decodeUtf8 ((indented level v).map fun c => UInt8.ofNat c.toNat) =
      some (indented level v) :=
  decodeUtf8_ascii (isAscii_indented level v h)

end Parley.Json
