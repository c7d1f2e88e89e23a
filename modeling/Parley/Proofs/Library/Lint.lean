import Parley.Library.Lint
import Parley.Proofs.Script.Shape
import Parley.Proofs.Talk.Placeholder
import Parley.Talk.Dice
import Parley.Talk.Lore

/-!
# What Lint Says about Placeholders

Lint looks at the literals of a script one by one, while a conversation shows them put together, with
one alternative of each pick. We prove that lint is sound for whatever is spoken as long as no token
goes across a seam, which only the text of a saying has, and show that it is not sound beyond.

* `Dice.speak_eq`: what is spoken are literals put together;
* `Lint.known_of_clean`: if lint reports no unknown placeholder, every literal of the script has known
  ones only;
* `Lint.find_speak_of_clean`: so has everything that is spoken without a token across a seam, and
  replacing its placeholders leaves none over;
* `Lint.unknown_of_joined`: a token across a seam can be unknown without a report.
-/

namespace Parley

namespace Dice

/-- The texts of the parts of a phrase as they are spoken. -/
def spoken (dice : Dice) : Phrase → List String
  | [] => []
  | part :: rest => (dice.speakPart part).1 :: spoken (dice.speakPart part).2 rest

/-- A phrase is spoken as its parts put together. -/
theorem speak_eq (dice : Dice) (phrase : Phrase) :
    (dice.speak phrase).1.toList = ((dice.spoken phrase).map String.toList).flatten := by
  induction phrase generalizing dice with
  | nil => rfl
  | cons part rest ih =>
    rw [spoken, List.map_cons, List.flatten_cons, ← ih, ← String.toList_append]
    rfl

/-- A phrase with a single part has no seam. -/
theorem separate_single (dice : Dice) (part : PhrasePart) :
    Placeholder.Separate ((dice.spoken [part]).map String.toList) := by
  refine ⟨?_, trivial⟩
  simp [Placeholder.Joins, spoken]

/-- Each part of a phrase is spoken as one of its literals. -/
theorem mem_literals_of_spoken {phrase : Phrase} (h : phrase.IsShaped) {dice : Dice}
    {text : String} (htext : text ∈ dice.spoken phrase) : text ∈ phrase.literals := by
  induction phrase generalizing dice with
  | nil => cases htext
  | cons part rest ih =>
    rw [Phrase.literals, List.flatMap_cons, List.mem_append]
    rw [spoken, List.mem_cons] at htext
    rcases htext with rfl | htext
    · refine .inl ?_
      cases part with
      | run text => exact List.mem_singleton.2 rfl
      | pick alternatives =>
        -- The roll is one of the places of the alternatives, of which there is one at least.
        have hsome : alternatives ≠ [] := by
          rintro rfl
          exact h List.mem_cons_self
        have hroll : dice.source dice.rolled alternatives.length % alternatives.length <
            alternatives.length := Nat.mod_lt _ (List.length_pos_iff.2 hsome)
        rw [speakPart, choose, List.getD_eq_getElem?_getD, List.getElem?_eq_getElem hroll]
        exact List.getElem_mem hroll
    · exact .inr (ih (fun hmem => h (List.mem_cons_of_mem _ hmem)) htext)

end Dice

namespace Lint

variable {m : Manifest} {known : List String} {script : Script} {s : Statement} {phrase : Phrase}

/-- The unknown placeholders of every text of a statement are reported with the statement. -/
theorem phrase_subset_statement (hphrase : phrase ∈ s.phrases) :
    Lint.phrase known phrase ⊆ statement m known s := by
  cases s with
  | say text => exact List.mem_singleton.1 hphrase ▸ List.Subset.refl _
  | option label guard body =>
    exact List.mem_singleton.1 hphrase ▸ List.subset_append_left _ _
  | give item message => exact List.mem_singleton.1 hphrase ▸ List.Subset.refl _
  | finish message =>
    obtain rfl := Option.mem_toList.1 hphrase
    exact List.Subset.refl _
  | cond clauses => cases hphrase
  | assign name value => cases hphrase
  | offer item => cases hphrase
  | spend amount => cases hphrase

/-- No unknown placeholder is reported for a script. -/
def IsClean (m : Manifest) (known : List String) (script : Script) : Prop :=
  ∀ issue ∈ Lint.script m known script, ∀ token, issue.cause ≠ .unknownPlaceholder token

theorem isClean_of_eq_nil (h : Lint.script m known script = []) : IsClean m known script := by
  intro issue hissue
  rw [h] at hissue
  cases hissue

/-- What is wrong with a statement of a script is reported for the script. -/
theorem issue_of_mem_statement {cause : IssueCause} (hs : s ∈ script.walk)
    (hcause : cause ∈ statement m known s) :
    ⟨script.archetype, cause⟩ ∈ Lint.script m known script := by
  have hfinding : cause ∈ findings m known script := List.mem_flatMap.2 ⟨s, hs, hcause⟩
  exact List.mem_map.2 ⟨cause, List.mem_eraseDups.2 hfinding, rfl⟩

/-- If no unknown placeholder is reported, every literal of the script has known ones only. -/
theorem known_of_clean (h : IsClean m known script) (hs : s ∈ script.walk)
    (hphrase : phrase ∈ s.phrases) {text token : String} (htext : text ∈ phrase.literals)
    (htoken : token ∈ Placeholder.find text) : token ∈ known := by
  by_contra hunknown
  have hfound : .unknownPlaceholder token ∈ Lint.phrase known phrase := by
    refine List.mem_flatMap.2 ⟨text, htext, List.mem_map.2 ⟨token, ?_, rfl⟩⟩
    exact List.mem_filter.2 ⟨htoken, by simpa using hunknown⟩
  exact h _ (issue_of_mem_statement hs (phrase_subset_statement hphrase hfound)) token rfl

/-- Placeholder lint is sound for what is spoken without a token across a seam. If it reports no
unknown placeholder for a parsed script, then every text of the script, wherever it stands and however
its picks are rolled, has known placeholders only, and none is left over where all known ones stand for
something. Only a saying has seams at all, and there the parts have to be separate as spoken. -/
theorem find_speak_of_clean {text archetype source : String} {limits : Limits}
    (hparse : Script.parse text archetype source limits = .ok script)
    (hclean : IsClean m known script) (hs : s ∈ script.walk) (hphrase : phrase ∈ s.phrases) (dice : Dice)
    (hseams : s = .say phrase →
      Placeholder.Separate ((dice.spoken phrase).map String.toList)) :
    (∀ token ∈ Placeholder.find (dice.speak phrase).1, token ∈ known) ∧
      ∀ resolve, (∀ token ∈ known, (resolve token).isSome = true) →
        (Placeholder.substitute resolve (dice.speak phrase).1).2 = [] := by
  have hformed : s.IsFormed := Script.isFormed_of_parse hparse s hs
  have hseparate : Placeholder.Separate ((dice.spoken phrase).map String.toList) := by
    rcases hformed.single phrase hphrase with hsay | ⟨part, rfl⟩
    · exact hseams hsay
    · exact dice.separate_single part
  have hknown : ∀ token ∈ Placeholder.find (dice.speak phrase).1, token ∈ known := by
    intro token htoken
    obtain ⟨part, hpart, hfound⟩ :=
      Placeholder.mem_find_of_separate (dice.speak_eq phrase) hseparate htoken
    have hliteral := Dice.mem_literals_of_spoken (hformed.phrases phrase hphrase) hpart
    exact known_of_clean hclean hs hphrase hliteral hfound
  exact ⟨hknown, fun resolve hresolve =>
    Placeholder.substitute_of_resolves fun token htoken => hresolve token (hknown token htoken)⟩

/-- A smith greets by name. -/
def greeting : Phrase :=
  [.pick ["Well met, ", "Hello, "], .run "#PLAYER_NAME", .run ", I am #NPC_NAME."]

/-- No token goes across a seam of the greeting, whichever alternative is spoken. -/
theorem separate_greeting (dice : Dice) :
    Placeholder.Separate ((dice.spoken greeting).map String.toList) := by
  rcases Nat.mod_two_eq_zero_or_one (dice.source dice.rolled 2) with hroll | hroll
  · have hspoken : dice.spoken greeting = ["Well met, ", "#PLAYER_NAME", ", I am #NPC_NAME."] := by
      simp [greeting, Dice.spoken, Dice.speakPart, Dice.choose, hroll]
    rw [hspoken]
    decide +kernel
  · have hspoken : dice.spoken greeting = ["Hello, ", "#PLAYER_NAME", ", I am #NPC_NAME."] := by
      simp [greeting, Dice.spoken, Dice.speakPart, Dice.choose, hroll]
    rw [hspoken]
    decide +kernel

/-- Lint has nothing to report of the greeting, and its placeholders are known and replaced however
its pick is rolled. -/
theorem find_speak_of_clean_of_greeting :
    ∃ script s, Script.parse
        "(say (pick \"Well met, \" \"Hello, \") \"#PLAYER_NAME\" \", I am #NPC_NAME.\")" "smith" =
          .ok script ∧
      IsClean .empty ["PLAYER_NAME", "NPC_NAME"] script ∧ s ∈ script.walk ∧ greeting ∈ s.phrases ∧
      ∀ dice : Dice,
        (∀ token ∈ Placeholder.find (dice.speak greeting).1, token ∈ ["PLAYER_NAME", "NPC_NAME"]) ∧
          ∀ resolve, (∀ token ∈ ["PLAYER_NAME", "NPC_NAME"], (resolve token).isSome = true) →
            (Placeholder.substitute resolve (dice.speak greeting).1).2 = [] := by
  have hread : ((Script.parse
      "(say (pick \"Well met, \" \"Hello, \") \"#PLAYER_NAME\" \", I am #NPC_NAME.\")"
      "smith").toOption.map fun script => (script.walk.flatMap Statement.phrases,
        Lint.script .empty ["PLAYER_NAME", "NPC_NAME"] script)) = some ([greeting], []) := by
    decide +kernel
  obtain ⟨script, hparse, hscript⟩ := exists_of_toOption_map hread
  obtain ⟨hphrases, hissues⟩ := Prod.mk.inj hscript
  obtain ⟨s, hs, hphrase⟩ := List.mem_flatMap.1 (hphrases ▸ List.mem_singleton_self greeting)
  have hclean := isClean_of_eq_nil hissues
  exact ⟨script, s, hparse, hclean, hs, hphrase, fun dice =>
    find_speak_of_clean hparse hclean hs hphrase dice fun _ => separate_greeting dice⟩

/-- Lint reports nothing of a token that goes on in the next part of a saying, though it is unknown
then, and left over where all known tokens stand for something. -/
theorem unknown_of_joined :
    ∃ script s, Script.parse "(say \"#NPC_NAME\" \"S\")" "npc" = .ok script ∧
      IsClean .empty LoreContext.standardTokens script ∧ s ∈ script.walk ∧
      [.run "#NPC_NAME", .run "S"] ∈ s.phrases ∧
      (({ source := .scripted [] } : Dice).speak [.run "#NPC_NAME", .run "S"]).1 = "#NPC_NAMES" ∧
      Placeholder.find "#NPC_NAMES" = ["NPC_NAMES"] ∧
      "NPC_NAMES" ∉ LoreContext.standardTokens ∧
      (Placeholder.substitute
        (fun token => if token ∈ LoreContext.standardTokens then some "" else none)
        "#NPC_NAMES").2 = ["NPC_NAMES"] := by
  have hread : ((Script.parse "(say \"#NPC_NAME\" \"S\")" "npc").toOption.map fun script =>
      (script.walk.flatMap Statement.phrases,
        Lint.script .empty LoreContext.standardTokens script)) =
      some ([[.run "#NPC_NAME", .run "S"]], []) := by decide +kernel
  obtain ⟨script, hparse, hscript⟩ := exists_of_toOption_map hread
  obtain ⟨hphrases, hissues⟩ := Prod.mk.inj hscript
  obtain ⟨s, hs, hphrase⟩ := List.mem_flatMap.1 (hphrases ▸ List.mem_singleton_self _)
  exact ⟨script, s, hparse, isClean_of_eq_nil hissues, hs, hphrase, by decide, by decide +kernel,
    by decide, by decide +kernel⟩

end Lint

end Parley
