import Parley.Text.Utf8
import Mathlib.Data.List.Basic

/-!
# Texts of Script Files

The bytes of a script file are read as UTF-8 without the byte order mark that they may start with.
The mark is taken away as bytes, before anything is decoded, so that it need not be whole:

* `decodeUtf8_mark` and `exists_of_decodeUtf8_mark`: a decoded text starts with the mark as a
  character exactly if its bytes start with the bytes of the mark;
* `decodeScript_eq_some_iff`: a script file holds UTF-8, from which a mark at the start is left out, or
  it holds nothing but a beginning of the mark, and then its text is empty.
-/

namespace Parley.Text

/-- The byte order mark as a character. -/
def markChar : Char := Char.ofNat 0xFEFF

/-- A text without the byte order mark at its start. -/
def withoutMark : List Char → List Char
  | [] => []
  | c :: rest => if c = markChar then rest else c :: rest

theorem eq_of_ofNat_eq_mark {n : Nat} (h : Char.ofNat n = markChar) : n = 0xFEFF := by
  have htoNat := congrArg Char.toNat h
  by_cases hvalid : n.isValidChar
  · have hn : (Char.ofNat n).toNat = n := by
      rw [Char.ofNat, dif_pos hvalid]
      rfl
    exact hn.symm.trans htoNat
  · rw [Char.ofNat, dif_neg hvalid] at htoNat
    cases htoNat

theorem decodeUtf8_mark (rest : List UInt8) :
    decodeUtf8 (byteOrderMark ++ rest) = (decodeUtf8 rest).map (markChar :: ·) := by
  show decodeUtf8 (0xEF :: 0xBB :: 0xBF :: rest) = _
  rw [decodeUtf8]
  rfl

/-- What is said of a byte by two comparisons is said of its number. -/
theorem toNat_of_range {a low high : UInt8} (h : (low ≤ a && a ≤ high) = true) :
    low.toNat ≤ a.toNat ∧ a.toNat ≤ high.toNat := by
  obtain ⟨hlow, hhigh⟩ := Bool.and_eq_true_iff.1 h
  exact ⟨UInt8.le_iff_toNat_le.1 (of_decide_eq_true hlow),
    UInt8.le_iff_toNat_le.1 (of_decide_eq_true hhigh)⟩

/-- A continuation byte is a range of 64 numbers, and contributes its place among them. -/
theorem toNat_of_isContinuation {b : UInt8} (h : isContinuation b = true) :
    b.toNat = 128 + continuationBits b ∧ continuationBits b < 64 := by
  obtain ⟨hlow, hhigh⟩ : 128 ≤ b.toNat ∧ b.toNat ≤ 191 := toNat_of_range h
  have hbits : continuationBits b = b.toNat - 128 := rfl
  omega

/-- A text that starts with the mark comes from bytes that do. Characters of one or two bytes come
before the mark, and those of four bytes behind it. -/
theorem exists_of_decodeUtf8_mark {bytes : List UInt8} {rest : List Char}
    (h : decodeUtf8 bytes = some (markChar :: rest)) : ∃ more, bytes = byteOrderMark ++ more := by
  have hfirst : ∀ {c : Char} {s : List UInt8},
      (decodeUtf8 s).map (c :: ·) = some (markChar :: rest) → c = markChar := by
    intro c s hmap
    obtain ⟨_, -, hcons⟩ := Option.map_eq_some_iff.1 hmap
    exact (List.cons.inj hcons).1
  rw [decodeUtf8.eq_def] at h
  split at h
  · cases h
  split at h
  · next a bytes ha =>
    have hn := eq_of_ofNat_eq_mark (hfirst h)
    have hbound : a.toNat < 128 := UInt8.lt_iff_toNat_lt.1 ha
    omega
  split at h
  · next a bytes _ ha =>
    obtain ⟨-, hhigh⟩ : 194 ≤ a.toNat ∧ a.toNat ≤ 223 := toNat_of_range ha
    split at h
    · split at h
      · next b more hb =>
        have hn := eq_of_ofNat_eq_mark (hfirst h)
        obtain ⟨-, hbits⟩ := toNat_of_isContinuation hb
        omega
      · cases h
    · cases h
  split at h
  · next a bytes _ _ ha =>
    obtain ⟨-, hhigh⟩ : 224 ≤ a.toNat ∧ a.toNat ≤ 239 := toNat_of_range ha
    split at h
    · split at h
      · next b c more hbc =>
        have hn := eq_of_ofNat_eq_mark (hfirst h)
        rw [Bool.and_eq_true, Bool.and_eq_true, Bool.and_eq_true] at hbc
        obtain ⟨hb, hbits⟩ := toNat_of_isContinuation hbc.1.1.1
        obtain ⟨hc, hbits'⟩ := toNat_of_isContinuation hbc.1.1.2
        -- The three groups of bits are those of the mark.
        have ha : a = 0xEF := UInt8.toNat_inj.1 (by show a.toNat = 239; omega)
        have hb : b = 0xBB := UInt8.toNat_inj.1 (by show b.toNat = 187; omega)
        have hc : c = 0xBF := UInt8.toNat_inj.1 (by show c.toNat = 191; omega)
        exact ⟨more, by rw [ha, hb, hc]; rfl⟩
      · cases h
    · cases h
  split at h
  · next a bytes _ _ _ ha =>
    obtain ⟨hlow, -⟩ : 240 ≤ a.toNat ∧ a.toNat ≤ 244 := toNat_of_range ha
    split at h
    · split at h
      · next b c d more hbcd =>
        have hn := eq_of_ofNat_eq_mark (hfirst h)
        rw [Bool.and_eq_true, Bool.and_eq_true, Bool.and_eq_true, Bool.and_eq_true,
          Bool.or_eq_true, bne_iff_ne] at hbcd
        obtain ⟨hb, -⟩ := toNat_of_isContinuation hbcd.1.1.1.1
        -- The smallest lead byte asks for more from the byte behind it.
        have hmore : a.toNat ≠ 240 ∨ 144 ≤ b.toNat := by
          refine hbcd.1.2.imp (fun hne heq => hne (UInt8.toNat_inj.1 heq)) fun hle => ?_
          exact UInt8.le_iff_toNat_le.1 (of_decide_eq_true hle)
        omega
      · cases h
    · cases h
  · cases h

theorem unifyLineEnds_of_notMem {s : List Char} (h : '\r' ∉ s) : unifyLineEnds s = s := by
  induction s with
  | nil => rfl
  | cons c rest ih =>
    have hc : c ≠ '\r' := fun hc => h (hc ▸ List.mem_cons_self)
    have hrest := ih fun hrest => h (List.mem_cons_of_mem _ hrest)
    rw [unifyLineEnds]
    · rw [hrest]
    · exact fun _ hc' => absurd hc' hc
    · exact hc

/-- The bytes of a script file hold a text: they are UTF-8, of which a mark at the start is left out, or
they are a beginning of the mark that is cut short, and the text is empty. -/
def IsScriptText (bytes : List UInt8) (s : List Char) : Prop :=
  (∃ chars, decodeUtf8 bytes = some chars ∧ s = unifyLineEnds (withoutMark chars)) ∨
    (bytes = [0xEF] ∨ bytes = [0xEF, 0xBB]) ∧ s = []

/-- A text without a mark in its bytes has none as a character. -/
theorem withoutMark_of_not_mark {bytes : List UInt8} {chars : List Char}
    (hchars : decodeUtf8 bytes = some chars) (h : ∀ more, bytes ≠ byteOrderMark ++ more) :
    withoutMark chars = chars := by
  cases chars with
  | nil => rfl
  | cons c rest =>
    refine if_neg ?_
    rintro rfl
    obtain ⟨more, hmore⟩ := exists_of_decodeUtf8_mark hchars
    exact h more hmore

theorem decodeScript_mark (more : List UInt8) :
    decodeScript (byteOrderMark ++ more) = (decodeUtf8 more).map unifyLineEnds := by
  have hprefix : byteOrderMark.isPrefixOf (byteOrderMark ++ more) = true :=
    List.isPrefixOf_iff_prefix.2 (List.prefix_append byteOrderMark more)
  rw [decodeScript, afterMark, hprefix]
  rfl

/-- Bytes that are neither behind a mark nor a beginning of one are decoded as they are. -/
theorem decodeScript_of_not_mark {bytes : List UInt8} (h : ∀ more, bytes ≠ byteOrderMark ++ more)
    (hcut : ¬ bytes <+: byteOrderMark) : decodeScript bytes = (decodeUtf8 bytes).map unifyLineEnds := by
  have hmark : byteOrderMark.isPrefixOf bytes = false := by
    rw [← Bool.not_eq_true, List.isPrefixOf_iff_prefix]
    rintro ⟨more, rfl⟩
    exact h more rfl
  have hbytes : bytes.isPrefixOf byteOrderMark = false := by
    rwa [← Bool.not_eq_true, List.isPrefixOf_iff_prefix]
  rw [decodeScript, afterMark, hmark, hbytes]
  rfl

/-- A beginning of the mark, the whole mark included, holds the empty text. -/
theorem isScriptText_cut_mark (n : Nat) {s : List Char} :
    IsScriptText (byteOrderMark.take n) s ↔ s = [] := by
  have hwhole : IsScriptText (byteOrderMark ++ []) s ↔ s = [] := by
    rw [IsScriptText, decodeUtf8_mark]
    constructor
    · rintro (⟨chars, hchars, rfl⟩ | ⟨-, h⟩)
      · obtain rfl : [markChar] = chars := Option.some.inj hchars
        rfl
      · exact h
    · rintro rfl
      exact .inl ⟨[markChar], rfl, rfl⟩
  -- One or two bytes of the mark are no UTF-8, so that nothing but the second case is left.
  have hcut : ∀ bytes : List UInt8, decodeUtf8 bytes = none →
      (bytes = [0xEF] ∨ bytes = [0xEF, 0xBB]) → (IsScriptText bytes s ↔ s = []) := by
    intro bytes hbytes hpart
    simp [IsScriptText, hbytes, hpart]
  rcases n with _ | _ | _ | n
  · simp [IsScriptText, decodeUtf8, withoutMark, unifyLineEnds]
  · exact hcut _ rfl (.inl rfl)
  · exact hcut _ rfl (.inr rfl)
  · rw [show byteOrderMark.take (n + 3) = byteOrderMark ++ [] from
      List.take_of_length_le (by simp [byteOrderMark])]
    exact hwhole

/-- A script file holds UTF-8 or a beginning of the mark, and nothing else can be read from one. -/
theorem decodeScript_eq_some_iff {bytes : List UInt8} {s : List Char} :
    decodeScript bytes = some s ↔ IsScriptText bytes s := by
  by_cases hcut : bytes <+: byteOrderMark
  · rw [List.prefix_iff_eq_take.1 hcut, decodeScript_cut_mark, isScriptText_cut_mark,
      Option.some_inj, eq_comm]
  have hbytes : ¬ (bytes = [0xEF] ∨ bytes = [0xEF, 0xBB]) := by
    rintro (rfl | rfl) <;> exact hcut (by decide)
  by_cases hmark : ∃ more, bytes = byteOrderMark ++ more
  · obtain ⟨more, rfl⟩ := hmark
    simp only [IsScriptText, hbytes, false_and, or_false]
    rw [decodeScript_mark, decodeUtf8_mark]
    cases decodeUtf8 more with
    | none => simp only [Option.map_none, reduceCtorEq, false_and, exists_false]
    | some chars => simp [withoutMark, eq_comm]
  · rw [not_exists] at hmark
    simp only [IsScriptText, hbytes, false_and, or_false]
    rw [decodeScript_of_not_mark hmark hcut]
    cases hchars : decodeUtf8 bytes with
    | none => simp only [Option.map_none, reduceCtorEq, false_and, exists_false]
    | some chars => simp [withoutMark_of_not_mark hchars hmark, eq_comm]

end Parley.Text
