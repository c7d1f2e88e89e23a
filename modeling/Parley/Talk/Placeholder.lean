/-!
# Placeholders

Authored texts mark what depends on the conversation by `#` and a token: an upper-case ASCII letter
followed by upper-case letters, digits and underscores, as many as there are. Tokens are resolved
when a text is shown. What a token stands for is put in as it is and not searched again, and a token
that stands for nothing stays as written.
-/

namespace Parley.Placeholder

/-- Whether a character can start a token. -/
def isTokenStart (c : Char) : Bool :=
  'A' ≤ c && c ≤ 'Z'

/-- Whether a character can go on a token. -/
def isTokenChar (c : Char) : Bool :=
  isTokenStart c || c.isDigit || c == '_'

/-- A piece of an authored text. -/
inductive Piece
  /-- A character outside tokens. -/
  | char (c : Char)
  | token (name : List Char)
  deriving DecidableEq, Inhabited

/-- The pieces of a text, from left to right. -/
def pieces (s : List Char) : List Piece :=
  match s with
  | [] => []
  | c :: rest =>
    match rest with
    | t :: more =>
      if c = '#' ∧ isTokenStart t then
        .token (t :: more.takeWhile isTokenChar) :: pieces (more.dropWhile isTokenChar)
      else .char c :: pieces (t :: more)
    | [] => [.char c]
termination_by s.length
decreasing_by
  · have := (List.dropWhile_suffix isTokenChar (l := more)).length_le
    simp only [List.length_cons]
    omega
  · simp

/-- The tokens of a text, in the order of their occurrence. -/
def find (text : String) : List String :=
  (pieces text.toList).filterMap fun
    | .char _ => none
    | .token name => some (String.ofList name)

/-- What a piece becomes. -/
def Piece.shown (resolve : String → Option String) : Piece → List Char
  | .char c => [c]
  | .token name =>
    match resolve (String.ofList name) with
    | some value => value.toList
    | none => '#' :: name

/-- The token of a piece that stands for nothing. -/
def Piece.unresolved (resolve : String → Option String) : Piece → Option String
  | .char _ => none
  | .token name => if (resolve (String.ofList name)).isNone then some (String.ofList name) else none

/-- A text with its tokens replaced, and the tokens that stand for nothing, one for each of their
occurrences. A text without marks is left alone. -/
def substitute (resolve : String → Option String) (text : String) : String × List String :=
  if '#' ∈ text.toList then
    (String.ofList ((pieces text.toList).flatMap (Piece.shown resolve)),
      (pieces text.toList).filterMap (Piece.unresolved resolve))
  else (text, [])

end Parley.Placeholder
