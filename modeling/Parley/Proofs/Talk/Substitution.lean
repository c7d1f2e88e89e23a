import Parley.Proofs.Talk.Commit
import Parley.Proofs.Talk.Placeholder

/-!
# A Single Pass over the Tokens

Lint looks for the tokens of a text, and a conversation puts something in their place. Both take the
text apart in the same way, and there is only one: the tokens are as long as they can be, and there is
none in what stands between them.

* `Cut`: a text taken apart at tokens, where `Cut.text` puts it together again and `Cut.filled` puts
  in what the tokens stand for;
* `Cut.IsProper`: a cut at tokens that are as long as they can be, with no token left between them;
* `exists_proper_cut` and `pieces_text`: every text has a proper cut, and its pieces are those of any
  of them, so that there is no other (`eq_of_text_eq`);
* `substitute_single_pass`: what is found and what is put in, for every text and every lore.
-/

namespace Parley

namespace Placeholder

/-- A name that a mark makes a token: a letter and what can go on it. -/
def IsToken (name : List Char) : Prop :=
  ∃ first more, name = first :: more ∧ isTokenStart first = true ∧
    ∀ c ∈ more, isTokenChar c = true

/-- There is a token somewhere in a text: a mark with a letter behind it. -/
def HasToken (s : List Char) : Prop :=
  ∃ before first after, s = before ++ '#' :: first :: after ∧ isTokenStart first = true

/-- A text taken apart at tokens: what comes before the first of them, and each of them with what
comes behind it. -/
structure Cut where
  front : List Char
  /-- The names of the tokens, without their marks, and what comes behind each of them. -/
  parts : List (List Char × List Char)

namespace Cut

/-- The text that was taken apart. -/
def text (cut : Cut) : List Char :=
  cut.front ++ cut.parts.flatMap fun part => '#' :: part.1 ++ part.2

/-- The tokens in order. -/
def tokens (cut : Cut) : List String :=
  cut.parts.map fun part => String.ofList part.1

/-- The text with the meaning of each token in its place. One without a meaning is left as it is. -/
def filled (resolve : String → Option String) (cut : Cut) : List Char :=
  cut.front ++ cut.parts.flatMap fun part =>
    ((resolve (String.ofList part.1)).map String.toList).getD ('#' :: part.1) ++ part.2

/-- A cut is proper if it is at tokens that are as long as they can be, and leaves none between them. -/
structure IsProper (cut : Cut) : Prop where
  front : ¬ HasToken cut.front
  tokens : ∀ part ∈ cut.parts, IsToken part.1
  behind : ∀ part ∈ cut.parts, ¬ HasToken part.2
  /-- No token goes on in the text behind it. If there is none, it is followed by the end or by the mark
  of the next, which cannot go on it either. -/
  longest : ∀ part ∈ cut.parts, ∀ c ∈ part.2.head?, isTokenChar c = false

/-- The pieces of a cut. -/
def pieces (cut : Cut) : List Piece :=
  cut.front.map .char ++ cut.parts.flatMap fun part => .token part.1 :: part.2.map .char

/-- The cut that has given pieces. -/
def ofPieces : List Piece → Cut
  | [] => ⟨[], []⟩
  | .char c :: rest => ⟨c :: (ofPieces rest).front, (ofPieces rest).parts⟩
  | .token name :: rest => ⟨[], (name, (ofPieces rest).front) :: (ofPieces rest).parts⟩

end Cut

variable {s tail front name : List Char} {parts : List (List Char × List Char)} {cut cut' : Cut}

/-! ## Tokens in a text -/

theorem isTokenStart_mark : isTokenStart '#' = false := by decide

theorem isTokenChar_mark : isTokenChar '#' = false := by decide

theorem not_hasToken_nil : ¬ HasToken [] := by
  rintro ⟨before, first, after, heq, -⟩
  exact List.append_ne_nil_of_right_ne_nil before (List.cons_ne_nil '#' _) heq.symm

/-- A text has a token if it starts with a mark and a letter, or has one further on. -/
theorem hasToken_cons {c : Char} : HasToken (c :: s) ↔
    (c = '#' ∧ ∃ t ∈ s.head?, isTokenStart t = true) ∨ HasToken s := by
  constructor
  · rintro ⟨before, first, after, heq, hfirst⟩
    -- The mark of the token is the character, or comes later.
    cases before with
    | nil =>
      obtain ⟨rfl, rfl⟩ := List.cons.inj heq
      exact .inl ⟨rfl, first, rfl, hfirst⟩
    | cons b before =>
      obtain ⟨-, rfl⟩ := List.cons.inj heq
      exact .inr ⟨before, first, after, rfl, hfirst⟩
  · rintro (⟨rfl, t, ht, hstart⟩ | ⟨before, first, after, rfl, hfirst⟩)
    · obtain ⟨after, rfl⟩ := List.head?_eq_some_iff.1 ht
      exact ⟨[], t, after, rfl, hstart⟩
    · exact ⟨c :: before, first, after, rfl, hfirst⟩

/-- The pieces of a text without a token are its characters. -/
theorem pieces_of_not_hasToken (h : ¬ HasToken s) : pieces s = s.map .char := by
  induction s with
  | nil => exact pieces_nil
  | cons c rest ih =>
    rw [hasToken_cons, not_or] at h
    obtain ⟨hfirst, hrest⟩ := h
    rw [pieces_char, ih hrest, List.map_cons]
    rintro t ht ⟨hc, hstart⟩
    exact hfirst ⟨hc, t, ht, hstart⟩

theorem pieces_of_isToken (h : IsToken name) : pieces ('#' :: name) = [.token name] := by
  obtain ⟨first, more, rfl, hfirst, hmore⟩ := h
  rw [pieces_token hfirst, List.takeWhile_eq_self_iff.2 hmore, List.dropWhile_eq_nil_iff.2 hmore,
    pieces_nil]

theorem joins_iff {a b : List Char} : Joins a b ↔
    ∃ piece t, (pieces a).getLast? = some piece ∧ b.head? = some t ∧ piece.goesOn t = true := by
  rw [Joins]
  cases (pieces a).getLast? <;> cases b.head? <;> simp

/-- No token goes across the end of a text without one if what comes next cannot start a name. -/
theorem not_joins_of_not_hasToken (h : ¬ HasToken s)
    (htail : ∀ t ∈ tail.head?, isTokenStart t = false) : ¬ Joins s tail := by
  rw [joins_iff]
  rintro ⟨piece, t, hlast, ht, hgoes⟩
  rw [pieces_of_not_hasToken h, List.getLast?_map] at hlast
  obtain ⟨c, -, rfl⟩ := Option.map_eq_some_iff.1 hlast
  rw [Piece.goesOn, htail t ht, Bool.and_false] at hgoes
  cases hgoes

/-- A token ends where what comes next cannot go on it. -/
theorem not_joins_of_isToken (h : IsToken name)
    (htail : ∀ c ∈ tail.head?, isTokenChar c = false) : ¬ Joins ('#' :: name) tail := by
  rw [joins_iff]
  rintro ⟨piece, t, hlast, ht, hgoes⟩
  rw [pieces_of_isToken h] at hlast
  obtain rfl : .token name = piece := Option.some.inj hlast
  cases hgoes.symm.trans (htail t ht)

/-! ## Proper cuts -/

namespace Cut

theorem text_cons (part : List Char × List Char) :
    (⟨front, part :: parts⟩ : Cut).text =
      front ++ ('#' :: part.1 ++ (⟨part.2, parts⟩ : Cut).text) := by
  simp [text]

theorem pieces_cons (part : List Char × List Char) :
    (⟨front, part :: parts⟩ : Cut).pieces =
      front.map .char ++ .token part.1 :: (⟨part.2, parts⟩ : Cut).pieces := by
  simp [pieces]

/-- A text can be left in one piece if there is no token in it. -/
theorem isProper_nil_iff : (⟨front, []⟩ : Cut).IsProper ↔ ¬ HasToken front :=
  ⟨IsProper.front, fun h => ⟨h, List.forall_mem_nil _, List.forall_mem_nil _,
    List.forall_mem_nil _⟩⟩

/-- What comes behind the first token of a proper cut is properly cut. -/
theorem isProper_cons_iff {part : List Char × List Char} :
    (⟨front, part :: parts⟩ : Cut).IsProper ↔ ¬ HasToken front ∧ IsToken part.1 ∧
      (∀ c ∈ part.2.head?, isTokenChar c = false) ∧ (⟨part.2, parts⟩ : Cut).IsProper := by
  constructor
  · rintro ⟨hfront, htokens, hbehind, hlongest⟩
    obtain ⟨htoken, htokens⟩ := List.forall_mem_cons.1 htokens
    obtain ⟨hnone, hbehind⟩ := List.forall_mem_cons.1 hbehind
    obtain ⟨hlong, hlongest⟩ := List.forall_mem_cons.1 hlongest
    exact ⟨hfront, htoken, hlong, hnone, htokens, hbehind, hlongest⟩
  · rintro ⟨hfront, htoken, hlong, hnone, htokens, hbehind, hlongest⟩
    exact ⟨hfront, List.forall_mem_cons.2 ⟨htoken, htokens⟩,
      List.forall_mem_cons.2 ⟨hnone, hbehind⟩, List.forall_mem_cons.2 ⟨hlong, hlongest⟩⟩

/-- Behind the text in front of a cut comes its end or a mark. -/
theorem head?_text {p : Char → Prop} (hfront : ∀ c ∈ cut.front.head?, p c) (hmark : p '#') :
    ∀ c ∈ cut.text.head?, p c := by
  intro c hc
  obtain ⟨front, parts⟩ := cut
  cases front with
  | cons x rest => exact hfront c hc
  | nil =>
    cases parts with
    | nil => cases hc
    | cons part rest =>
      obtain rfl : '#' = c := Option.some.inj hc
      exact hmark

/-- The pieces of a text are those of any proper cut of it. -/
theorem pieces_text (h : cut.IsProper) : Placeholder.pieces cut.text = cut.pieces := by
  obtain ⟨front, parts⟩ := cut
  induction parts generalizing front with
  | nil =>
    rw [text, pieces, List.flatMap_nil, List.flatMap_nil, List.append_nil, List.append_nil]
    exact pieces_of_not_hasToken h.front
  | cons part rest ih =>
    obtain ⟨hfront, htoken, hlong, hrest⟩ := isProper_cons_iff.1 h
    -- The texts on both sides of the token are taken apart on their own.
    have hbefore : ¬ Joins front ('#' :: part.1 ++ (⟨part.2, rest⟩ : Cut).text) := by
      refine not_joins_of_not_hasToken hfront ?_
      rintro t ⟨⟩
      exact isTokenStart_mark
    have hbehind : ¬ Joins ('#' :: part.1) (⟨part.2, rest⟩ : Cut).text :=
      not_joins_of_isToken htoken (head?_text hlong isTokenChar_mark)
    rw [text_cons, pieces_cons, (pieces_append_iff _ _).2 hbefore, (pieces_append_iff _ _).2 hbehind,
      pieces_of_not_hasToken hfront, pieces_of_isToken htoken, ih _ hrest]
    rfl

/-- A cut is known by its pieces. -/
theorem ofPieces_pieces (cut : Cut) : ofPieces cut.pieces = cut := by
  obtain ⟨front, parts⟩ := cut
  have hchars : ∀ (front : List Char) (rest : List Piece),
      ofPieces (front.map .char ++ rest) = ⟨front ++ (ofPieces rest).front, (ofPieces rest).parts⟩ := by
    intro front rest
    induction front with
    | nil => rfl
    | cons c more ih => rw [List.map_cons, List.cons_append, ofPieces, ih]; rfl
  induction parts generalizing front with
  | nil => rw [pieces, List.flatMap_nil, hchars, ofPieces, List.append_nil]
  | cons part rest ih => rw [pieces_cons, hchars, ofPieces, ih, List.append_nil]

/-- No text has two proper cuts. -/
theorem eq_of_text_eq (h : cut.IsProper) (h' : cut'.IsProper) (htext : cut.text = cut'.text) :
    cut = cut' := by
  have hpieces : cut.pieces = cut'.pieces := by
    rw [← pieces_text h, ← pieces_text h', htext]
  rw [← ofPieces_pieces cut, ← ofPieces_pieces cut', hpieces]

/-- Every text has a proper cut. -/
theorem exists_proper_cut (s : List Char) : ∃ cut : Cut, cut.text = s ∧ cut.IsProper := by
  induction s using Placeholder.pieces.induct with
  | case1 => exact ⟨⟨[], []⟩, rfl, isProper_nil_iff.2 not_hasToken_nil⟩
  | case2 c t more h ih =>
    -- The mark comes with a token, which goes as far as it can.
    obtain ⟨rfl, ht⟩ := h
    obtain ⟨cut, htext, hproper⟩ := ih
    have hlong : ∀ c ∈ cut.front.head?, isTokenChar c = false := by
      intro c hc
      have hhead : (more.dropWhile isTokenChar).head? = some c := by
        obtain ⟨rest, hrest⟩ := List.head?_eq_some_iff.1 hc
        rw [← htext, text, hrest]
        rfl
      have hnot := List.head?_dropWhile_not isTokenChar more
      rw [hhead] at hnot
      simpa using hnot
    refine ⟨⟨[], (t :: more.takeWhile isTokenChar, cut.front) :: cut.parts⟩, ?_, ?_⟩
    · rw [text_cons, htext, List.nil_append, List.cons_append, List.cons_append,
        List.takeWhile_append_dropWhile]
    · have htoken : IsToken (t :: more.takeWhile isTokenChar) :=
        ⟨t, _, rfl, ht, fun _ hc => List.mem_takeWhile_imp hc⟩
      exact isProper_cons_iff.2 ⟨not_hasToken_nil, htoken, hlong, hproper⟩
  | case3 c t more h ih =>
    obtain ⟨cut, htext, hproper⟩ := ih
    refine ⟨⟨c :: cut.front, cut.parts⟩, congrArg (c :: ·) htext, ?_, hproper.tokens,
      hproper.behind, hproper.longest⟩
    intro hhas
    rcases hasToken_cons.1 hhas with ⟨rfl, first, hfirst, hstart⟩ | hhas
    · -- What is first in the rest of the text is first behind the character.
      obtain ⟨rest, hrest⟩ := List.head?_eq_some_iff.1 hfirst
      rw [text, hrest] at htext
      obtain ⟨rfl, -⟩ := List.cons.inj htext
      exact h ⟨rfl, hstart⟩
    · exact hproper.front hhas
  | case4 c =>
    refine ⟨⟨[c], []⟩, rfl, isProper_nil_iff.2 ?_⟩
    rw [hasToken_cons, not_or]
    refine ⟨?_, not_hasToken_nil⟩
    rintro ⟨-, t, ⟨⟩, -⟩

/-- What is found among the pieces of a cut is found among its tokens. -/
theorem filterMap_pieces {α : Type} {f : Piece → Option α} (hchar : ∀ c, f (.char c) = none)
    (cut : Cut) : cut.pieces.filterMap f = cut.parts.filterMap fun part => f (.token part.1) := by
  have hnone : ∀ s : List Char, (s.map Piece.char).filterMap f = [] := by
    intro s
    rw [List.filterMap_map, List.filterMap_eq_nil_iff]
    exact fun c _ => hchar c
  rw [pieces, List.filterMap_append, hnone, List.nil_append]
  induction cut.parts with
  | nil => rfl
  | cons part rest ih =>
    rw [List.flatMap_cons, List.cons_append, List.filterMap_cons, List.filterMap_cons,
      List.filterMap_append, hnone, List.nil_append, ih]

/-- The pieces of a cut, each as it is shown, make the text with the meanings put in. -/
theorem flatMap_shown_pieces (resolve : String → Option String) (cut : Cut) :
    cut.pieces.flatMap (Piece.shown resolve) = cut.filled resolve := by
  have hchars : ∀ s : List Char, (s.map Piece.char).flatMap (Piece.shown resolve) = s := by
    intro s
    rw [List.flatMap_map]
    exact List.flatMap_singleton' s
  have htoken : ∀ name, Piece.shown resolve (.token name) =
      ((resolve (String.ofList name)).map String.toList).getD ('#' :: name) := by
    intro name
    rw [Piece.shown]
    cases resolve (String.ofList name) <;> rfl
  rw [pieces, filled, List.flatMap_append, hchars]
  congr 1
  induction cut.parts with
  | nil => rfl
  | cons part rest ih =>
    rw [List.flatMap_cons, List.cons_append, List.flatMap_cons, List.flatMap_append, hchars, htoken,
      ih, List.flatMap_cons, List.append_assoc]

/-- Without a mark there is no token to cut at. -/
theorem parts_eq_nil (h : '#' ∉ cut.text) : cut.parts = [] := by
  obtain ⟨front, parts⟩ := cut
  cases parts with
  | nil => rfl
  | cons part rest =>
    refine absurd ?_ h
    rw [text_cons]
    exact List.mem_append.2 (.inr List.mem_cons_self)

end Cut

/-! ## Finding and replacing -/

section Text

variable {text : String}

/-- What is found in a text are the tokens of its proper cut. -/
theorem find_eq_tokens (h : cut.IsProper) (htext : cut.text = text.toList) :
    find text = cut.tokens := by
  rw [find, ← htext, Cut.pieces_text h, Cut.filterMap_pieces fun _ => rfl]
  exact congrFun List.filterMap_eq_map cut.parts

/-- What is left over are the tokens of the proper cut that stand for nothing. -/
theorem filterMap_unresolved (h : cut.IsProper) (resolve : String → Option String) :
    (pieces cut.text).filterMap (Piece.unresolved resolve) =
      cut.tokens.filter fun token => (resolve token).isNone := by
  rw [Cut.pieces_text h, Cut.filterMap_pieces fun _ => rfl, Cut.tokens]
  induction cut.parts with
  | nil => rfl
  | cons part rest ih =>
    rw [List.filterMap_cons, List.map_cons, List.filter_cons, Piece.unresolved, ih]
    by_cases hnone : (resolve (String.ofList part.1)).isNone = true
    · rw [if_pos hnone, if_pos hnone]
    · rw [if_neg hnone, if_neg hnone]

/-- A text comes to its proper cut with the meanings put in, also where it is left alone because there
is no mark in it. -/
theorem substitute_eq_filled (h : cut.IsProper) (htext : cut.text = text.toList)
    (resolve : String → Option String) :
    substitute resolve text = (String.ofList (cut.filled resolve),
      cut.tokens.filter fun token => (resolve token).isNone) := by
  rw [substitute]
  split
  · rw [← htext, filterMap_unresolved h, Cut.pieces_text h, Cut.flatMap_shown_pieces]
  · next hmark =>
    have hparts : cut.parts = [] := Cut.parts_eq_nil (by rwa [htext])
    have hfilled : cut.filled resolve = text.toList := by
      rw [← htext, Cut.filled, Cut.text, hparts]
      rfl
    rw [hfilled, String.ofList_toList, Cut.tokens, hparts]
    rfl

end Text

end Placeholder

/-- The text that a token stands for. -/
def Lore.meaning (lore : Option Lore) (token : String) : Option String :=
  (lore.bind fun l => l.resolve token).bind Json.str?

/-- Where the lore answers with texts, a conversation puts them in as they are, and notes each token
that stands for nothing. -/
theorem Scene.substitute_eq (scene : Scene) {lore : Option Lore} (text : String)
    (h : ∀ l ∈ lore, l.IsTextual) :
    scene.substitute lore text =
      (.ok (Placeholder.substitute (Lore.meaning lore) text).1,
        scene.noteAll ((Placeholder.substitute (Lore.meaning lore) text).2.map
          Notice.unresolvedPlaceholder)) := by
  have hmeaning : (fun token => (lore.bind fun l => l.resolve token).map Json.shown) =
      Lore.meaning lore := by
    funext token
    rw [Lore.meaning]
    cases hresolve : lore.bind fun l => l.resolve token with
    | none => rfl
    | some document =>
      obtain ⟨l, hl, hdocument⟩ := Option.bind_eq_some_iff.1 hresolve
      have htext := h l hl token document hdocument
      cases document with
      | str s => rfl
      | _ => cases htext
  obtain ⟨after, hworded, -⟩ := scene.substitute_of_isTextual text h
  have hnotes : (scene.substitute lore text).2 = scene.noteAll ((Placeholder.substitute (fun token =>
      (lore.bind fun l => l.resolve token).map Json.shown) text).2.map
        Notice.unresolvedPlaceholder) := rfl
  rw [hmeaning] at hnotes
  refine Prod.ext ?_ hnotes
  rw [hworded, Lore.wording, hmeaning]

namespace Placeholder

/-- Substitution is a single pass over the tokens. Every text has exactly one proper cut: the tokens
are as long as they can be, and there is none between them. What is found in the text are the tokens
of the cut, and what is made of it is the cut with each token replaced by what it stands for, which is
put in as it is and not searched again; a token that stands for nothing is left with its mark, and
there is one note for each of its occurrences, in order. So it is for every meaning of tokens, also if
none has any, and for every lore that answers with texts. -/
theorem substitute_single_pass (text : String) :
    (∃! cut : Cut, cut.text = text.toList ∧ cut.IsProper) ∧
    ∀ cut : Cut, cut.text = text.toList → cut.IsProper →
      find text = cut.tokens ∧
      (∀ resolve, substitute resolve text = (String.ofList (cut.filled resolve),
        cut.tokens.filter fun token => (resolve token).isNone)) ∧
      ∀ (scene : Scene) (lore : Option Lore), (∀ l ∈ lore, l.IsTextual) →
        scene.substitute lore text = (.ok (String.ofList (cut.filled (Lore.meaning lore))),
          scene.noteAll ((cut.tokens.filter fun token => (Lore.meaning lore token).isNone).map
            Notice.unresolvedPlaceholder)) := by
  constructor
  · obtain ⟨cut, htext, hproper⟩ := Cut.exists_proper_cut text.toList
    refine ⟨cut, ⟨htext, hproper⟩, ?_⟩
    rintro cut' ⟨htext', hproper'⟩
    exact Cut.eq_of_text_eq hproper' hproper (htext'.trans htext.symm)
  · intro cut htext hproper
    refine ⟨find_eq_tokens hproper htext, substitute_eq_filled hproper htext,
      fun scene lore hlore => ?_⟩
    rw [scene.substitute_eq text hlore, substitute_eq_filled hproper htext]

-- A mark before a mark is text, a token ends where it has to, and a meaning is not searched again.
example : substitute (fun token => if token = "A1_" then some "#B" else none) "##A1_b#B#c #Zé" =
    ("##Bb#B#c #Zé", ["B", "Z"]) := by
  decide +kernel

end Placeholder

end Parley
