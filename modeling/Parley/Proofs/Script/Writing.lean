import Parley.Proofs.Script.Layout

/-!
# Written Data

Lexical data can be written: symbols as they are, integers in decimal, strings in quotes with quotes
and backslashes escaped, lists in parentheses, with a space between two data. This is one of the layouts
of the data, so reading the text gives the data back, with the positions of that text, unless there is an
integer in them that has too many digits or a list that is nested too deep.

* `Datum.layout_write`, `Datum.layout_writeAll`: what is written of a datum, or of data, is a layout;
* `Datum.read_writeAll`: reading gives back what was written.
-/

namespace Parley

namespace Datum

/-- A character of a string, behind a backslash if it is a quote or a backslash itself. -/
def escape (x : Char) : List Char :=
  if x = '"' ∨ x = '\\' then ['\\', x] else [x]

/-- A string in quotes. -/
def quoted (s : List Char) : List Char :=
  '"' :: (s.flatMap escape ++ ['"'])

mutual

/-- The text of a datum. -/
def write : Datum → List Char
  | .symbol name _ => name.toList
  | .int n _ => Text.ofInt n
  | .str s _ => quoted s.toList
  | .list items _ => '(' :: (writeAll items ++ [')'])

/-- The texts of data, with a space between two of them. -/
def writeAll : List Datum → List Char
  | [] => []
  | [d] => write d
  | d :: rest => write d ++ ' ' :: writeAll rest

end

mutual

/-- No integer in a datum has too many digits to be read back. -/
def IsShort : Datum → Prop
  | .int n _ => Text.isOverlong (Text.ofInt n) = false
  | .list items _ => AreShort items
  | _ => True

/-- No integer in data has too many digits to be read back. -/
def AreShort : List Datum → Prop
  | [] => True
  | d :: rest => IsShort d ∧ AreShort rest

end

mutual

/-- Whether a datum is short can be decided. -/
def decideShort : (d : Datum) → Decidable d.IsShort
  | .int n _ => inferInstanceAs (Decidable (Text.isOverlong (Text.ofInt n) = false))
  | .list items _ => decideAllShort items
  | .symbol _ _ => .isTrue trivial
  | .str _ _ => .isTrue trivial

/-- Whether data are short can be decided. -/
def decideAllShort : (ds : List Datum) → Decidable (AreShort ds)
  | [] => .isTrue trivial
  | d :: rest => @instDecidableAnd _ _ (decideShort d) (decideAllShort rest)

end

instance : DecidablePred AreShort :=
  decideAllShort

theorem spells_escape (x : Char) : SpellsChar x (escape x) := by
  unfold escape
  split
  · next hx =>
    obtain rfl | rfl := hx
    · exact .quote
    · exact .slash
  · next hx =>
    rw [not_or] at hx
    exact .raw x hx.1 hx.2

theorem spells_escaped (s : List Char) : SpellsChars s (s.flatMap escape) := by
  induction s with
  | nil => exact .nil
  | cons x xs ih => exact .cons (spells_escape x) ih

end Datum

namespace Layout

variable {ts : List Token} {text : List Char}

/-- What can follow a bare word can follow anything. -/
theorem weaken (h : Layout true ts text) : Layout false ts text := by
  cases h with
  | done hgap => exact .done hgap
  | token hgap _ hword h => exact .token hgap nofun hword h

/-- Behind a space anything can follow a bare word. -/
theorem space (h : Layout false ts text) : Layout true ts (' ' :: text) := by
  cases h with
  | done hgap => exact .done (.blank (by decide) hgap)
  | token hgap _ hword h =>
    exact .token (.blank (by decide) hgap) (fun _ _ => List.cons_ne_nil _ _) hword h

end Layout

namespace Datum

mutual

/-- A datum can be written in front of what can follow a bare word. -/
theorem layout_write : ∀ (d : Datum) {ts : List Token} {text : List Char}, d.IsShort →
    Layout true ts text → Layout false (d.tokens ++ ts) (d.write ++ text)
  | .symbol name _, _, _, _, h => .adjacent (.inl rfl) (.symbol name) h
  | .int n _, _, _, hshort, h => .adjacent (.inl rfl) (.int (Text.spells_ofInt n) hshort) h
  | .str s _, _, _, _, h => .adjacent (.inl rfl) (.str (spells_escaped s.toList)) h.weaken
  | .list items _, ts, text, hshort, h => by
    have hclosing : Layout true (.closing :: ts) ([')'] ++ text) :=
      .adjacent (.inr rfl) .closing h.weaken
    have hlist : Layout false (.opening :: (tokensAll items ++ .closing :: ts))
        (['('] ++ (writeAll items ++ ([')'] ++ text))) :=
      .adjacent (.inl rfl) .opening (layout_writeAll items hshort hclosing)
    simpa only [tokens, write, List.cons_append, List.nil_append, List.append_assoc] using hlist

/-- So can data. -/
theorem layout_writeAll : ∀ (ds : List Datum) {ts : List Token} {text : List Char}, AreShort ds →
    Layout true ts text → Layout false (tokensAll ds ++ ts) (writeAll ds ++ text)
  | [], _, _, _, h => h.weaken
  | [d], _, _, hshort, h => by
    rw [tokensAll, tokensAll, List.append_nil]
    exact layout_write d hshort.1 h
  | d :: e :: rest, _, _, hshort, h => by
    rw [tokensAll, writeAll, List.append_assoc, List.append_assoc]
    · exact layout_write d hshort.1 (layout_writeAll (e :: rest) hshort.2 h).space
    · exact nofun

end

/-- Data read from what was written of them are the same, but for their positions. -/
theorem read_writeAll {ds : List Datum} {limits : Limits} (h : AreLexical ds) (hshort : AreShort ds)
    (hdepth : depthAll ds ≤ limits.lists) :
    ∃ data, read (String.ofList (writeAll ds)) limits = .ok data ∧
      data.map unplaced = ds.map unplaced := by
  have hend : Layout true [] [] := .done .nil
  have hlayout := layout_writeAll ds hshort hend
  rw [List.append_nil, List.append_nil] at hlayout
  refine read_of_layout h hdepth ?_
  rw [String.toList_ofList]
  exact hlayout

end Datum

end Parley
