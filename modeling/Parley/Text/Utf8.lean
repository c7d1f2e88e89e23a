/-!
# UTF-8

Strict decoding of bytes to text: overlong forms, surrogates, code points beyond U+10FFFF and
truncated sequences are refused. A script file may start with a byte order mark, which is no part of
its text, and both kinds of carriage return line ends become line feeds.
-/

namespace Parley.Text

/-- Whether a byte continues a sequence. -/
def isContinuation (b : UInt8) : Bool :=
  0x80 ≤ b && b ≤ 0xBF

/-- The low six bits that a continuation byte contributes. -/
def continuationBits (b : UInt8) : Nat :=
  b.toNat - 0x80

/-- The characters encoded by a list of bytes, if it is well-formed UTF-8. -/
def decodeUtf8 : List UInt8 → Option (List Char)
  | [] => some []
  | a :: rest =>
    if a < 0x80 then
      (decodeUtf8 rest).map (Char.ofNat a.toNat :: ·)
    else if 0xC2 ≤ a && a ≤ 0xDF then
      match rest with
      | b :: rest =>
        if isContinuation b then
          (decodeUtf8 rest).map (Char.ofNat ((a.toNat - 0xC0) * 64 + continuationBits b) :: ·)
        else none
      | _ => none
    else if 0xE0 ≤ a && a ≤ 0xEF then
      match rest with
      | b :: c :: rest =>
        if isContinuation b && isContinuation c && (a != 0xE0 || 0xA0 ≤ b) &&
            (a != 0xED || b ≤ 0x9F) then
          (decodeUtf8 rest).map (Char.ofNat ((a.toNat - 0xE0) * 4096 + continuationBits b * 64 +
            continuationBits c) :: ·)
        else none
      | _ => none
    else if 0xF0 ≤ a && a ≤ 0xF4 then
      match rest with
      | b :: c :: d :: rest =>
        if isContinuation b && isContinuation c && isContinuation d && (a != 0xF0 || 0x90 ≤ b) &&
            (a != 0xF4 || b ≤ 0x8F) then
          (decodeUtf8 rest).map (Char.ofNat ((a.toNat - 0xF0) * 262144 +
            continuationBits b * 4096 + continuationBits c * 64 + continuationBits d) :: ·)
        else none
      | _ => none
    else none

/-- A text with every carriage return, also one followed by a line feed, made a line feed. -/
def unifyLineEnds : List Char → List Char
  | [] => []
  | '\r' :: '\n' :: rest => '\n' :: unifyLineEnds rest
  | '\r' :: rest => '\n' :: unifyLineEnds rest
  | c :: rest => c :: unifyLineEnds rest

/-- The bytes of a byte order mark. -/
def byteOrderMark : List UInt8 :=
  [0xEF, 0xBB, 0xBF]

/-- The bytes of a text behind its byte order mark. A mark that the end of the bytes cuts short counts
as one, so that nothing is left of it. -/
def afterMark (bytes : List UInt8) : List UInt8 :=
  if byteOrderMark.isPrefixOf bytes || bytes.isPrefixOf byteOrderMark then bytes.drop 3 else bytes

/-- The characters of a script file, if its bytes are well-formed UTF-8. -/
def decodeScript (bytes : List UInt8) : Option (List Char) :=
  (decodeUtf8 (afterMark bytes)).map unifyLineEnds

theorem decodeScript_cut_mark (n : Nat) : decodeScript (byteOrderMark.take n) = some [] := by
  match n with
  | 0 => rfl
  | 1 => rfl
  | 2 => rfl
  | n + 3 =>
    rw [List.take_of_length_le (by simp [byteOrderMark])]
    rfl

end Parley.Text
