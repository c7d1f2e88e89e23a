import Parley.Text.Printable

/-!
# Quoted Texts

The form in which a text value is shown inside a message: between single quotes, or between
double quotes when it holds a single quote and no double quote. Backslash, line feed, carriage
return, tab and the chosen quote are escaped, and an unprintable character is shown by its code
point in hexadecimal.
-/

namespace Parley.Text

/-- The hexadecimal writing of a number, padded with zeros to at least `width` digits. -/
def hex (width : Nat) (n : Nat) : List Char :=
  let digits := Nat.toDigits 16 n
  List.replicate (width - digits.length) '0' ++ digits

/-- The quotation mark a text is shown in. -/
def quoteFor (s : List Char) : Char :=
  if '\'' ∈ s ∧ '"' ∉ s then '"' else '\''

/-- A character as it is shown between quotation marks. -/
def quotedChar (quote c : Char) : List Char :=
  if c = quote ∨ c = '\\' then ['\\', c]
  else if c = '\n' then ['\\', 'n']
  else if c = '\r' then ['\\', 'r']
  else if c = '\t' then ['\\', 't']
  else if c.toNat < 0x7F ∧ 0x20 ≤ c.toNat then [c]
  else if isPrintable c then [c]
  else if c.toNat < 0x100 then '\\' :: 'x' :: hex 2 c.toNat
  else if c.toNat < 0x10000 then '\\' :: 'u' :: hex 4 c.toNat
  else '\\' :: 'U' :: hex 8 c.toNat

/-- A text as it is shown inside a message. -/
def quoted (s : String) : String :=
  let quote := quoteFor s.toList
  String.ofList (quote :: s.toList.flatMap (quotedChar quote) ++ [quote])

end Parley.Text
