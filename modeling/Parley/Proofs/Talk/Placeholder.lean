import Mathlib.Data.List.TakeWhile
import Parley.Talk.Placeholder

/-!
# Placeholders in Texts Put Together

Tokens are as long as they can be, so the placeholders of a text that is put together from parts
need not be those of its parts: a token at the end of one part goes on in the next, and a lone mark
can find its token there. We say exactly when this happens (`Joins`):

* `pieces_append_iff`: the pieces of two texts put together are the pieces of both exactly if they
  do not join;
* `pieces_flatten` and `mem_find_of_separate`: separate texts put together have no other pieces and
  placeholders than their own;
* `substitute_of_resolves`: if all placeholders of a text stand for something, none is left over.
-/

namespace Parley.Placeholder

/-- A character goes on a piece at the end of a text: it belongs to the token, or makes one. -/
def Piece.goesOn : Piece → Char → Bool
  | .char x, c => x = '#' && isTokenStart c
  | .token _, c => isTokenChar c

/-- A token goes across the seam of two texts. -/
def Joins (a b : List Char) : Prop :=
  ((pieces a).getLast?.any fun piece => b.head?.any piece.goesOn) = true

instance (a b : List Char) : Decidable (Joins a b) :=
  inferInstanceAs (Decidable (_ = true))

/-- No token goes across the seams of texts that are put together. -/
def Separate : List (List Char) → Prop
  | [] => True
  | a :: rest => ¬ Joins a rest.flatten ∧ Separate rest

instance : (parts : List (List Char)) → Decidable (Separate parts)
  | [] => inferInstanceAs (Decidable True)
  | _ :: rest =>
    have : Decidable (Separate rest) := instDecidableSeparate rest
    inferInstanceAs (Decidable (_ ∧ _))

/-! ## Pieces -/

@[simp]
theorem pieces_nil : pieces [] = [] := by
  rw [pieces]

/-- A mark with a token behind it is a piece, as long as it can be. -/
theorem pieces_token {t : Char} (ht : isTokenStart t = true) (more : List Char) :
    pieces ('#' :: t :: more) =
      .token (t :: more.takeWhile isTokenChar) :: pieces (more.dropWhile isTokenChar) := by
  rw [pieces]
  simp [ht]

/-- Any other character is a piece of its own. -/
theorem pieces_char {c : Char} {rest : List Char}
    (h : ∀ t ∈ rest.head?, ¬ (c = '#' ∧ isTokenStart t = true)) :
    pieces (c :: rest) = .char c :: pieces rest := by
  cases rest with
  | nil => rw [pieces_nil, pieces]
  | cons t more => rw [pieces, if_neg (h t rfl)]

theorem pieces_ne_nil {a : List Char} (h : a ≠ []) : pieces a ≠ [] := by
  cases a with
  | nil => exact absurd rfl h
  | cons c rest =>
    cases rest with
    | nil => rw [pieces]; exact List.cons_ne_nil _ _
    | cons t more =>
      rw [pieces]
      split <;> exact List.cons_ne_nil _ _

/-- Whether a text joins the next depends on its last piece. -/
theorem joins_congr {a a' : List Char} (h : (pieces a').getLast? = (pieces a).getLast?)
    (b : List Char) : Joins a' b ↔ Joins a b := by
  rw [Joins, Joins, h]

theorem getLast?_cons_pieces {a : List Char} (h : a ≠ []) (piece : Piece) :
    (piece :: pieces a).getLast? = (pieces a).getLast? := by
  obtain ⟨first, rest, hpieces⟩ := List.exists_cons_of_ne_nil (pieces_ne_nil h)
  rw [hpieces, List.getLast?_cons_cons]

/-- The pieces of two texts put together are the pieces of both exactly if no token goes across the
seam. -/
theorem pieces_append_iff (a b : List Char) :
    pieces (a ++ b) = pieces a ++ pieces b ↔ ¬ Joins a b := by
  induction a using pieces.induct with
  | case1 => simp [Joins]
  | case2 c t more h ih =>
    obtain ⟨rfl, ht⟩ := h
    have happend : '#' :: t :: more ++ b = '#' :: t :: (more ++ b) := rfl
    by_cases hall : more.dropWhile isTokenChar = []
    · -- The first text ends with the token, which goes on in the second text if it can.
      have hmore : ∀ x ∈ more, isTokenChar x = true := List.dropWhile_eq_nil_iff.1 hall
      have hjoins : Joins ('#' :: t :: more) b ↔ b.head?.any isTokenChar = true := by
        rw [Joins, pieces_token ht, hall, pieces_nil]
        rfl
      rw [happend, pieces_token ht, pieces_token ht, hall, pieces_nil, hjoins,
        List.takeWhile_append_of_pos hmore, List.dropWhile_append_of_pos hmore,
        List.takeWhile_eq_self_iff.2 hmore]
      cases b with
      | nil => simp
      | cons x rest =>
        by_cases hx : isTokenChar x = true
        · simp [hx]
        · simp [hx]
    · -- The token ends within the first text, whose rest decides.
      have hlast := getLast?_cons_pieces hall (.token (t :: more.takeWhile isTokenChar))
      rw [← pieces_token ht] at hlast
      have hshort : (more.takeWhile isTokenChar).length ≠ more.length := by
        intro hlength
        have hparts : (more.takeWhile isTokenChar ++ more.dropWhile isTokenChar).length =
            more.length := congrArg List.length List.takeWhile_append_dropWhile
        rw [List.length_append, hlength] at hparts
        exact hall (List.length_eq_zero_iff.1 (by omega))
      rw [joins_congr hlast, ← ih, happend, pieces_token ht, pieces_token ht,
        List.takeWhile_append, if_neg hshort, List.dropWhile_append,
        if_neg (by rwa [List.isEmpty_iff]), List.cons_append, List.cons.injEq, and_iff_right rfl]
  | case3 c t more h ih =>
    have hchar : ∀ x ∈ (t :: more).head?, ¬ (c = '#' ∧ isTokenStart x = true) := by
      rintro x ⟨⟩
      exact h
    have hchar' : ∀ x ∈ (t :: more ++ b).head?, ¬ (c = '#' ∧ isTokenStart x = true) := hchar
    have hlast := getLast?_cons_pieces (List.cons_ne_nil t more) (.char c)
    rw [← pieces_char hchar] at hlast
    have happend : c :: t :: more ++ b = c :: (t :: more ++ b) := rfl
    rw [joins_congr hlast, ← ih, happend, pieces_char hchar', pieces_char hchar]
    exact List.cons_eq_cons.trans (and_iff_right rfl)
  | case4 c =>
    have hsingle : pieces [c] = [.char c] := by
      rw [pieces]
    have hjoins : Joins [c] b ↔ ∃ t ∈ b.head?, c = '#' ∧ isTokenStart t = true := by
      rw [Joins, hsingle]
      cases b <;> simp [Piece.goesOn]
    rw [hjoins, hsingle]
    by_cases hnone : ∃ t ∈ b.head?, c = '#' ∧ isTokenStart t = true
    · -- A lone mark at the end of the first text finds its token in the second.
      obtain ⟨t, ht, rfl, hstart⟩ := hnone
      obtain ⟨more, rfl⟩ : ∃ more, b = t :: more := by
        cases b with
        | nil => cases ht
        | cons x more => exact ⟨more, by rw [Option.some.inj ht]⟩
      rw [List.singleton_append, pieces_token hstart]
      simp [hstart]
    · have hchar : ∀ t ∈ b.head?, ¬ (c = '#' ∧ isTokenStart t = true) :=
        fun t ht hc => hnone ⟨t, ht, hc⟩
      rw [List.singleton_append, pieces_char hchar]
      exact iff_of_true rfl hnone

/-- Separate texts put together have the pieces of all of them. -/
theorem pieces_flatten {parts : List (List Char)} (h : Separate parts) :
    pieces parts.flatten = parts.flatMap pieces := by
  induction parts with
  | nil => exact pieces_nil
  | cons a rest ih =>
    rw [List.flatten_cons, List.flatMap_cons, (pieces_append_iff a _).2 h.1, ih h.2]

/-! ## Placeholders -/

/-- A token is found in a text exactly if it is one of its pieces. -/
theorem mem_find_iff {text token : String} :
    token ∈ find text ↔ .token token.toList ∈ pieces text.toList := by
  rw [find, List.mem_filterMap]
  constructor
  · rintro ⟨piece, hpiece, htoken⟩
    cases piece with
    | char c => cases htoken
    | token name =>
      rw [← Option.some.inj htoken, String.toList_ofList]
      exact hpiece
  · intro h
    exact ⟨_, h, congrArg some String.ofList_toList⟩

/-- Separate texts put together have the placeholders of all of them. -/
theorem mem_find_of_separate {text token : String} {parts : List String}
    (htext : text.toList = (parts.map String.toList).flatten)
    (h : Separate (parts.map String.toList)) (htoken : token ∈ find text) :
    ∃ part ∈ parts, token ∈ find part := by
  rw [mem_find_iff, htext, pieces_flatten h, List.mem_flatMap] at htoken
  obtain ⟨chars, hchars, htoken⟩ := htoken
  obtain ⟨part, hpart, rfl⟩ := List.mem_map.1 hchars
  exact ⟨part, hpart, mem_find_iff.2 htoken⟩

/-- If all placeholders of a text stand for something, none of them is left over. -/
theorem substitute_of_resolves {resolve : String → Option String} {text : String}
    (h : ∀ token ∈ find text, (resolve token).isSome = true) :
    (substitute resolve text).2 = [] := by
  rw [substitute]
  split
  · refine List.filterMap_eq_nil_iff.2 fun piece hpiece => ?_
    cases piece with
    | char c => rfl
    | token name =>
      have hfound : String.ofList name ∈ find text :=
        List.mem_filterMap.2 ⟨.token name, hpiece, rfl⟩
      rw [Piece.unresolved, if_neg]
      rw [Option.isNone_iff_eq_none]
      exact Option.isSome_iff_ne_none.1 (h _ hfound)
  · rfl

end Parley.Placeholder
