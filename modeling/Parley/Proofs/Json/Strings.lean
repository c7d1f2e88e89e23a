import Parley.Json.Reader
import Parley.Json.Writer
import Parley.Proofs.Text.Integer

/-!
# JSON Strings Read Back

A string is written with escapes for everything that is not printable ASCII, and characters beyond
the first plane take two escapes. We prove that reading takes both steps back:

* `stringUnits_escapeChar`: the escapes of a character give its UTF-16 units (`charUnits`);
* `joinPairs?_charUnits`: the units of a text join to the text;
* `scalar?_writeString`: a written string is read as that string, whatever comes after it.
-/

namespace Parley.Json

open Token

/-- The UTF-16 units of a character. -/
def charUnits (c : Char) : List Nat :=
  if c.toNat < 0x10000 then [c.toNat]
  else [0xD800 + (c.toNat - 0x10000) / 0x400, 0xDC00 + (c.toNat - 0x10000) % 0x400]

theorem hexDigit?_digitChar : ∀ d < 16, hexDigit? (Nat.digitChar d) = some d := by
  decide

/-- The escape of a unit is read as that unit. -/
theorem stringUnits_escapeUnit {n : Nat} (h : n < 65536) (rest : List Char) :
    stringUnits (escapeUnit n ++ rest) = (stringUnits rest).map fun r => (n :: r.1, r.2) := by
  -- The four digits are those of a number in base 16 and give it back.
  have hunit : hexUnit? (Nat.digitChar (n / 4096)) (Nat.digitChar (n / 256 % 16))
      (Nat.digitChar (n / 16 % 16)) (Nat.digitChar (n % 16)) = some n := by
    rw [hexUnit?, hexDigit?_digitChar _ (by omega), hexDigit?_digitChar _ (by omega),
      hexDigit?_digitChar _ (by omega), hexDigit?_digitChar _ (by omega)]
    simp only [Option.some.injEq]
    omega
  rw [escapeUnit, Text.hex_four h]
  simp only [List.cons_append, List.nil_append, stringUnits, hunit]

/-- A character that stands for itself is read as itself. -/
theorem stringUnits_plain {c : Char} (hquote : c ≠ '"') (hslash : c ≠ '\\') (hlow : 0x20 ≤ c.toNat)
    (rest : List Char) :
    stringUnits (c :: rest) = (stringUnits rest).map fun r => (c.toNat :: r.1, r.2) := by
  have hplain : ¬ (c = '\\' ∨ c.toNat < 0x20) := by
    rintro (h | h)
    · exact hslash h
    · omega
  rw [stringUnits, if_neg hplain]
  · -- The cases of the reader that come first: a closing quote and the two kinds of escapes.
    exact hquote
  · exact fun _ _ _ _ _ h _ => hslash h
  · exact fun _ _ h _ => hslash h

/-- A one-letter escape is read as the character that it stands for. -/
theorem stringUnits_short {letter c : Char} (hletter : letter ≠ 'u')
    (h : shortEscape? letter = some c) (rest : List Char) :
    stringUnits ('\\' :: letter :: rest) = (stringUnits rest).map fun r => (c.toNat :: r.1, r.2) := by
  rw [stringUnits]
  · rw [h]
  · exact fun _ _ _ _ _ h _ => hletter h

/-- The code point of a character is no surrogate and lies in one of 17 planes. -/
theorem isValid_toNat (c : Char) :
    c.toNat < 0xD800 ∨ 0xDFFF < c.toNat ∧ c.toNat < 0x110000 :=
  c.valid

/-- The escapes of a character are read as its units. -/
theorem stringUnits_escapeChar (c : Char) (rest : List Char) :
    stringUnits (escapeChar c ++ rest) =
      (stringUnits rest).map fun r => (charUnits c ++ r.1, r.2) := by
  have hvalid := isValid_toNat c
  -- The cases below follow the writer's: quote and backslash, the other short escapes, printable
  -- characters, one unit, two units.
  have hsmall : c.toNat < 0x10000 → charUnits c = [c.toNat] := fun h => by
    rw [charUnits, if_pos h]
  rw [escapeChar]
  split
  · next h =>
    rcases h with rfl | rfl
    · exact stringUnits_short (by decide) rfl rest
    · exact stringUnits_short (by decide) rfl rest
  iterate 5
    split
    · next h =>
      subst h
      exact stringUnits_short (by decide) rfl rest
  split
  · next hmark _ _ _ _ _ hprintable =>
    rw [hsmall (by omega)]
    exact stringUnits_plain (fun h => hmark (.inl h)) (fun h => hmark (.inr h)) hprintable.1 rest
  split
  · next hplane =>
    rw [hsmall hplane]
    exact stringUnits_escapeUnit (by omega) rest
  · next hplane =>
    -- Two escapes in a row: the second one is part of what follows the first.
    rw [List.append_assoc, stringUnits_escapeUnit (by omega), stringUnits_escapeUnit (by omega),
      Option.map_map, charUnits, if_neg hplane]
    rfl

/-- A written text is read as its units, up to the closing quote. -/
theorem stringUnits_text (chars rest : List Char) :
    stringUnits (chars.flatMap escapeChar ++ '"' :: rest) = some (chars.flatMap charUnits, rest) := by
  induction chars with
  | nil => simp [stringUnits]
  | cons c more ih =>
    rw [List.flatMap_cons, List.append_assoc, stringUnits_escapeChar, ih]
    rfl

/-- The units of a character are joined to the character, whatever comes after them. -/
theorem joinPairs?_charUnits (c : Char) (rest : List Nat) :
    joinPairs? (charUnits c ++ rest) = (joinPairs? rest).map (c :: ·) := by
  have hvalid := isValid_toNat c
  rw [charUnits]
  split
  · next hplane =>
    -- A character of the first plane is no surrogate, so its unit is not taken for half of a pair.
    have hhigh : isHighUnit c.toNat = false := by
      rw [isHighUnit, Bool.and_eq_false_iff, decide_eq_false_iff_not, decide_eq_false_iff_not]
      omega
    have hlow : isLowUnit c.toNat = false := by
      rw [isLowUnit, Bool.and_eq_false_iff, decide_eq_false_iff_not, decide_eq_false_iff_not]
      omega
    cases rest with
    | nil => simp [joinPairs?, hhigh, hlow]
    | cons unit more => simp [joinPairs?, hhigh, hlow]
  · next hplane =>
    -- Any other character is a high unit followed by a low one, and these are taken together.
    have hhigh : isHighUnit (0xD800 + (c.toNat - 0x10000) / 0x400) = true := by
      rw [isHighUnit, Bool.and_eq_true, decide_eq_true_eq, decide_eq_true_eq]
      omega
    have hlow : isLowUnit (0xDC00 + (c.toNat - 0x10000) % 0x400) = true := by
      rw [isLowUnit, Bool.and_eq_true, decide_eq_true_eq, decide_eq_true_eq]
      omega
    have hcode : 0x10000 + (0xD800 + (c.toNat - 0x10000) / 0x400 - 0xD800) * 0x400 +
        (0xDC00 + (c.toNat - 0x10000) % 0x400 - 0xDC00) = c.toNat := by omega
    have hjoin : joinUnits (0xD800 + (c.toNat - 0x10000) / 0x400)
        (0xDC00 + (c.toNat - 0x10000) % 0x400) = c := by
      rw [joinUnits, hcode, Char.ofNat_toNat]
    simp only [List.cons_append, List.nil_append, joinPairs?, hhigh, hlow, hjoin, Bool.and_self,
      if_true]

/-- The units of a text are joined to the text. -/
theorem joinPairs?_text (chars : List Char) :
    joinPairs? (chars.flatMap charUnits) = some chars := by
  induction chars with
  | nil => rfl
  | cons c more ih => rw [List.flatMap_cons, joinPairs?_charUnits, ih, Option.map_some]

/-- A written string is read as that string, whatever comes after it. -/
theorem scalar?_writeString (s : String) (rest : List Char) :
    scalar? (writeString s ++ rest) = some (.str s, rest) := by
  have hunits := stringUnits_text s.toList rest
  simp only [writeString, List.cons_append, List.append_assoc, List.nil_append, scalar?, hunits,
    Option.bind_some, joinPairs?_text, Option.map_some, String.ofList_toList]

end Parley.Json
