import Parley.Json.Basic
import Parley.Text.Integer

/-!
# JSON Tokens

The words of a JSON text: brackets, separators and scalars. Blanks between tokens are the space,
the tab and the two line end characters. Beside the standard the words `NaN`, `Infinity` and
`-Infinity` are accepted. Control characters inside strings are refused, and so are strings that no
text stands for, since half of a pair of UTF-16 units stands in them without its other half.

Where a word cannot be read the tokens end, and what is before it still counts: a text can be refused
for something that comes earlier.
-/

namespace Parley.Json

/-- A word of a JSON text. -/
inductive Token
  | openList
  | closeList
  | openObject
  | closeObject
  | comma
  | colon
  | scalar (value : Json)
  /-- An integer with more digits than a conversion takes. Nothing is read after it. -/
  | overlong
  /-- Something that is no word. Nothing is read after it. -/
  | unknown
  deriving Inhabited

namespace Token

/-- Whether a character separates tokens without being one. -/
def isGap (c : Char) : Bool :=
  c == ' ' || c == '\t' || c == '\n' || c == '\r'

/-- The number denoted by a hexadecimal digit. -/
def hexDigit? (c : Char) : Option Nat :=
  if '0' ≤ c ∧ c ≤ '9' then some (c.toNat - '0'.toNat)
  else if 'a' ≤ c ∧ c ≤ 'f' then some (c.toNat - 'a'.toNat + 10)
  else if 'A' ≤ c ∧ c ≤ 'F' then some (c.toNat - 'A'.toNat + 10)
  else none

/-- The number denoted by four hexadecimal digits. -/
def hexUnit? (a b c d : Char) : Option Nat :=
  match hexDigit? a, hexDigit? b, hexDigit? c, hexDigit? d with
  | some a, some b, some c, some d => some (a * 4096 + b * 256 + c * 16 + d)
  | _, _, _, _ => none

/-- The character that a one-letter escape stands for. -/
def shortEscape? : Char → Option Char
  | '"' => some '"'
  | '\\' => some '\\'
  | '/' => some '/'
  | 'b' => some '\x08'
  | 'f' => some '\x0C'
  | 'n' => some '\n'
  | 'r' => some '\r'
  | 't' => some '\t'
  | _ => none

/-- A UTF-16 unit in the first half of a pair. -/
def isHighUnit (n : Nat) : Bool :=
  0xD800 ≤ n && n ≤ 0xDBFF

/-- A UTF-16 unit in the second half of a pair. -/
def isLowUnit (n : Nat) : Bool :=
  0xDC00 ≤ n && n ≤ 0xDFFF

/-- The character of a pair of UTF-16 units. -/
def joinUnits (high low : Nat) : Char :=
  Char.ofNat (0x10000 + (high - 0xD800) * 0x400 + (low - 0xDC00))

/-- The code units of a string up to its closing quote, and the text after that quote. A character
that is written as itself gives its code point, an escape gives the UTF-16 unit it names. -/
def stringUnits : List Char → Option (List Nat × List Char)
  | [] => none
  | '"' :: rest => some ([], rest)
  -- Six characters of the text give one unit, which may be half of a pair.
  | '\\' :: 'u' :: a :: b :: c :: d :: rest =>
    match hexUnit? a b c d with
    | some unit => (stringUnits rest).map fun r => (unit :: r.1, r.2)
    | none => none
  | '\\' :: c :: rest =>
    match shortEscape? c with
    | some c => (stringUnits rest).map fun r => (c.toNat :: r.1, r.2)
    | none => none
  | c :: rest =>
    -- A backslash gets here only as the last character.
    if c = '\\' ∨ c.toNat < 0x20 then none
    else (stringUnits rest).map fun r => (c.toNat :: r.1, r.2)

/-- The characters of a sequence of code units. Two halves of a pair make one character. There is no
text with a half that lacks its other half, so a string with one is refused. -/
def joinPairs? : List Nat → Option (List Char)
  | [] => some []
  | [unit] => if isHighUnit unit || isLowUnit unit then none else some [Char.ofNat unit]
  | high :: low :: rest =>
    if isHighUnit high && isLowUnit low then (joinPairs? rest).map (joinUnits high low :: ·)
    else if isHighUnit high || isLowUnit high then none
    -- The second unit may begin a pair of its own.
    else (joinPairs? (low :: rest)).map (Char.ofNat high :: ·)

/-- The whole part at the start of a text. After a leading zero nothing more is taken. -/
def wholePart : List Char → List Char × List Char
  | '0' :: rest => (['0'], rest)
  | s => (s.takeWhile Char.isDigit, s.dropWhile Char.isDigit)

/-- The digits of a fraction, if a point with at least one digit comes next. -/
def fraction? : List Char → Option (List Char × List Char)
  | '.' :: s =>
    let digits := s.takeWhile Char.isDigit
    if digits.isEmpty then none else some (digits, s.dropWhile Char.isDigit)
  | _ => none

/-- The exponent, if a mark with an optional sign and at least one digit comes next. -/
def exponent? : List Char → Option (Int × List Char)
  | c :: s =>
    if c = 'e' ∨ c = 'E' then
      let (negative, s) :=
        match s with
        | '-' :: s => (true, s)
        | '+' :: s => (false, s)
        | s => (false, s)
      let digits := s.takeWhile Char.isDigit
      if digits.isEmpty then none
      else
        let n : Int := Text.digitsValue digits
        some (if negative then -n else n, s.dropWhile Char.isDigit)
    else none
  | [] => none

/-- The number at the start of a text whose sign has been taken off. -/
def unsignedNumber? (negative : Bool) (s : List Char) : Option (Json × List Char) :=
  let (whole, rest) := wholePart s
  if whole.isEmpty then none
  else
    match fraction? rest, exponent? ((fraction? rest).elim rest Prod.snd) with
    -- Without fraction and exponent the number is an integer of any size.
    | none, none =>
      let n : Int := Text.digitsValue whole
      some (.int (if negative then -n else n), rest)
    | part, power =>
      let digits := (part.elim [] Prod.fst)
      let afterPart := part.elim rest Prod.snd
      some (.float (Binary64.ofDecimal negative (Text.digitsValue (whole ++ digits))
        (power.elim 0 Prod.fst - digits.length)), power.elim afterPart Prod.snd)

/-- The words that stand for scalars. -/
def words : List (List Char × Json) :=
  [("null".toList, .null), ("true".toList, .bool true), ("false".toList, .bool false),
    ("NaN".toList, .float .nan), ("Infinity".toList, .float (.infinite false)),
    ("-Infinity".toList, .float (.infinite true))]

/-- The word at the start of a text that stands for a scalar. -/
def word? (s : List Char) : Option (Json × List Char) :=
  words.findSome? fun (word, value) =>
    if word.isPrefixOf s then some (value, s.drop word.length) else none

/-- The scalar at the start of a text. -/
def scalar? : List Char → Option (Json × List Char)
  | '"' :: s =>
    (stringUnits s).bind fun r => (joinPairs? r.1).map fun chars => (.str (String.ofList chars), r.2)
  | s =>
    -- Words come first, since one of them starts with a sign.
    match word? s with
    | some r => some r
    | none =>
      match s with
      | '-' :: s => unsignedNumber? true s
      | s => unsignedNumber? false s

/-- The token that starts with a bracket or separator character. -/
def punctuation? : Char → Option Token
  | '[' => some .openList
  | ']' => some .closeList
  | '{' => some .openObject
  | '}' => some .closeObject
  | ',' => some .comma
  | ':' => some .colon
  | _ => none

/-- A string takes at least its closing quote. -/
theorem stringUnits_shorter {s : List Char} {r : List Nat × List Char}
    (h : stringUnits s = some r) : r.2.length < s.length := by
  fun_induction stringUnits s generalizing r <;> simp_all
  all_goals grind

/-- A word takes at least one character. -/
theorem word?_shorter {s : List Char} {r : Json × List Char} (h : word? s = some r) :
    r.2.length < s.length := by
  obtain ⟨⟨word, value⟩, hmem, h⟩ := List.exists_of_findSome?_eq_some h
  have hword : 0 < word.length := by revert hmem; simp [words]; grind
  simp only [Option.ite_none_right_eq_some, List.isPrefixOf_iff_prefix, Option.some.injEq] at h
  obtain ⟨hstart, rfl⟩ := h
  have := hstart.length_le
  simp only [List.length_drop]
  omega

/-- What follows a whole part is shorter, unless the whole part is empty. -/
theorem wholePart_shorter {s : List Char} (h : (wholePart s).1 ≠ []) :
    (wholePart s).2.length < s.length := by
  revert h
  fun_cases wholePart s with
  | case1 rest => simp
  | case2 =>
    intro h
    have := congrArg List.length (List.takeWhile_append_dropWhile (p := Char.isDigit) (l := s))
    have := List.length_pos_iff.2 h
    simp only [List.length_append] at *
    omega

/-- What follows a fraction is no longer. -/
theorem fraction?_shorter {s : List Char} {r : List Char × List Char} (h : fraction? s = some r) :
    r.2.length ≤ s.length := by
  revert h
  fun_cases fraction? s with
  | case1 => simp
  | case2 s digits =>
    rintro ⟨⟩
    have := (List.dropWhile_sublist Char.isDigit (l := s)).length_le
    simp only [List.length_cons]
    omega
  | case3 => simp

/-- What follows an exponent is no longer. -/
theorem exponent?_shorter {s : List Char} {r : Int × List Char} (h : exponent? s = some r) :
    r.2.length ≤ s.length := by
  have shorter (s : List Char) : (s.dropWhile Char.isDigit).length ≤ s.length :=
    (List.dropWhile_sublist Char.isDigit).length_le
  revert h
  unfold exponent?
  grind

/-- A number takes at least its whole part. -/
theorem unsignedNumber?_shorter {negative : Bool} {s : List Char} {r : Json × List Char}
    (h : unsignedNumber? negative s = some r) : r.2.length < s.length := by
  have whole := @wholePart_shorter s
  revert h
  unfold unsignedNumber?
  generalize wholePart s = w at whole
  cases hpart : fraction? w.2 with
  | none =>
    cases hpower : exponent? w.2 with
    | none => simp [hpart, hpower]; grind
    | some power => simp [hpart, hpower]; grind [exponent?_shorter hpower]
  | some part =>
    have := fraction?_shorter hpart
    cases hpower : exponent? part.2 with
    | none => simp [hpart, hpower]; grind
    | some power => simp [hpart, hpower]; grind [exponent?_shorter hpower]

/-- A scalar takes at least one character. -/
theorem scalar?_shorter {s : List Char} {r : Json × List Char} (h : scalar? s = some r) :
    r.2.length < s.length := by
  unfold scalar? at h
  split at h
  · obtain ⟨u, hu, hchars⟩ := Option.bind_eq_some_iff.1 h
    obtain ⟨chars, -, rfl⟩ := Option.map_eq_some_iff.1 hchars
    exact Nat.lt_succ_of_lt (stringUnits_shorter hu)
  · split at h
    case h_1 w hw => exact word?_shorter (hw.trans h)
    case h_2 =>
      split at h
      · exact Nat.lt_succ_of_lt (unsignedNumber?_shorter h)
      · exact unsignedNumber?_shorter h

/-- The tokens of a text behind the tokens seen so far, last first. -/
def ofTextAfter (seen : List Token) (s : List Char) : List Token :=
  match s with
  | [] => seen.reverse
  | c :: rest =>
    if isGap c then ofTextAfter seen rest
    else
      match punctuation? c with
      | some t => ofTextAfter (t :: seen) rest
      | none =>
        match h : scalar? (c :: rest) with
        | some (value, rest') =>
          have := scalar?_shorter h
          if value.isShort then ofTextAfter (.scalar value :: seen) rest'
          else (.overlong :: seen).reverse
        | none => (.unknown :: seen).reverse
termination_by s.length
decreasing_by
  all_goals first
    | assumption
    | exact Nat.lt_succ_self rest.length

/-- The tokens of a text, up to the first word that cannot be read. -/
def ofText (s : List Char) : List Token :=
  ofTextAfter [] s

end Token

end Parley.Json
