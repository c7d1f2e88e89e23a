import Parley.Proofs.Talk.Substitution
import Parley.Proofs.Talk.Utterance

/-!
# The Name of the Speaker

A session fills in the name of its speaker where its lore has none, and leaves all other bindings as
they are. The name may be given in three places: as a further binding of the lore, as its own name for
speakers, and by the speaker. An empty name counts as none, but an empty further binding still hides
the two below it.

* `LoreContext.resolve_eq`: what a token stands for, out of the two layers of bindings;
* `LoreContext.nameFor`: the first name that is not empty;
* `LoreContext.resolve_withNpcName`: what becomes of the tokens as the speaker's name is filled in;
* `Session.resolves_npcName_iff`: the token for the speaker stands for that name in all that a session
  shows, unless its further binding is empty, and then it is left as it is.
-/

namespace Parley

namespace LoreContext

variable {lore : LoreContext} {name token : String}

/-! ## Two layers of bindings -/

/-- A further binding of a token hides the standard one, also if it is empty. The binding that is left
counts if it is not empty. -/
theorem resolve_eq (lore : LoreContext) (token : String) : lore.resolve token =
    ((lore.extra.get? token).or (lore.standard.get? token)).filter (· != "") := by
  rw [resolve, bindings, OrderedMap.lookup_filter_values _ (· != ""), OrderedMap.get?_foldl_insert,
    OrderedMap.lookup_reverse_entries]

theorem get?_standard (lore : LoreContext) (token : String) : lore.standard.get? token =
    if token = "NPC_NAME" then some lore.npcName
    else [("QUEST_TARGET", lore.questTarget), ("PARTNER_NAME", lore.partnerName),
      ("TOWN_NAME", lore.townName), ("PLAYER_NAME", lore.playerName)].lookup token := by
  have hentries : lore.standard.get? token =
      ([("QUEST_TARGET", lore.questTarget), ("PARTNER_NAME", lore.partnerName),
        ("TOWN_NAME", lore.townName), ("PLAYER_NAME", lore.playerName)] ++
          [("NPC_NAME", lore.npcName)]).lookup token := OrderedMap.get?_ofList _ token
  rw [hentries, List.lookup_append, OrderedMap.lookup_entry token "NPC_NAME", List.lookup_nil]
  by_cases htoken : token = "NPC_NAME"
  · subst htoken
    rfl
  · rw [if_neg htoken, if_neg htoken, Option.or_none]

/-- Of the standard bindings, the speaker's name is the only one that may be filled in. -/
theorem standard_withNpcName (lore : LoreContext) (name token : String) :
    (lore.withNpcName name).standard.get? token =
      if token = "NPC_NAME" then some (if lore.npcName = "" then name else lore.npcName)
      else lore.standard.get? token := by
  rw [get?_standard, get?_standard, withNpcName]
  by_cases htoken : token = "NPC_NAME"
  · rw [if_pos htoken, if_pos htoken]
    split <;> rfl
  · rw [if_neg htoken, if_neg htoken, if_neg htoken]
    split <;> rfl

@[simp]
theorem extra_withNpcName (lore : LoreContext) (name : String) :
    (lore.withNpcName name).extra = lore.extra := by
  rw [withNpcName]
  split <;> rfl

/-! ## The name -/

/-- The name for a speaker: its further binding, else the context's own name for speakers, else the
name of the speaker, where an empty one counts as none. -/
def nameFor (lore : LoreContext) (name : String) : String :=
  let bound := (lore.extra.get? "NPC_NAME").getD ""
  if bound ≠ "" then bound else if lore.npcName ≠ "" then lore.npcName else name

/-- The token for the speaker stands for that name, unless it has an empty further binding and stands
for nothing. All other tokens stand for what they did. -/
theorem resolve_withNpcName (lore : LoreContext) (hname : name ≠ "") (token : String) :
    (lore.withNpcName name).resolve token =
      if token ≠ "NPC_NAME" then lore.resolve token
      else if lore.extra.get? "NPC_NAME" = some "" then none
      else some (lore.nameFor name) := by
  rw [resolve_eq, extra_withNpcName, standard_withNpcName]
  by_cases htoken : token = "NPC_NAME"
  · subst htoken
    rw [if_pos rfl, if_neg (not_not_intro rfl), nameFor]
    cases lore.extra.get? "NPC_NAME" with
    | none =>
      by_cases hown : lore.npcName = ""
      · simp [hown, hname, Option.filter]
      · simp [hown, Option.filter]
    | some bound =>
      -- An empty binding hides the name that was filled in, and is then left out itself.
      by_cases hbound : bound = ""
      · simp [hbound, Option.filter]
      · simp [hbound, Option.filter]
  · rw [if_neg htoken, if_pos htoken, resolve_eq]

end LoreContext

namespace Lore

/-- The bindings of a context are texts as they are. -/
@[simp]
theorem meaning_context (c : LoreContext) (token : String) :
    meaning (some (.context c)) token = c.resolve token := by
  show ((c.resolve token).map Json.str).bind Json.str? = c.resolve token
  cases c.resolve token <;> rfl

end Lore

namespace Session

open Placeholder

/-- The lore of a session that was given a context, or none. -/
theorem start_lore (script : Script) (speaker : Speaker) (given : Option LoreContext)
    (config : Config) (presenter : Presenter) (dice : Dice) (scene : Scene) :
    (start script speaker (given.map .context) config presenter dice scene).lore =
      .context ((given.getD {}).withNpcName speaker.name) := by
  cases given <;> rfl

/-- What is made of a text where the lore is a context: its proper cut with the meanings put in, and a
note for each token without one. -/
theorem substitute_context (c : LoreContext) (scene : Scene) {cut : Cut} (h : cut.IsProper) :
    scene.substitute (some (.context c)) (String.ofList cut.text) =
      (.ok (String.ofList (cut.filled (Lore.meaning (some (.context c))))),
        scene.noteAll ((cut.tokens.filter fun token =>
          (Lore.meaning (some (.context c)) token).isNone).map Notice.unresolvedPlaceholder)) := by
  have htextual : ∀ l ∈ some (Lore.context c), l.IsTextual := by
    rintro l ⟨⟩
    exact Lore.isTextual_context c
  rw [scene.substitute_eq _ htextual, substitute_eq_filled h String.toList_ofList.symm]

/-- Let a session have a loaded script, a speaker with a name, and a lore context or none. The token
for the speaker then stands for the further binding of the context, else for its own name for speakers,
else for the name of the speaker, whichever is first not empty, exactly if the further binding is not
an empty text; if it is, the token stands for nothing. All other tokens stand for what the context
binds them to. This is what is put in for the tokens of every text and label, and of every message
that comes with a gift, with a note for each token that stands for nothing. All that the session shows
are texts and labels of its script, and lines of its settings, worded in this way. -/
theorem resolves_npcName_iff {script : Script} {speaker : Speaker} (henabled : script.disabled = false)
    (hname : speaker.name ≠ "") (given : Option LoreContext) (config : Config)
    (presenter : Presenter) (dice : Dice) (scene : Scene) :
    let s := start script speaker (given.map .context) config presenter dice scene
    let lore := given.getD {}
    (Lore.meaning (some s.lore) "NPC_NAME" = some (lore.nameFor speaker.name) ↔
        lore.extra.get? "NPC_NAME" ≠ some "") ∧
      (lore.extra.get? "NPC_NAME" = some "" → Lore.meaning (some s.lore) "NPC_NAME" = none) ∧
      (∀ token, token ≠ "NPC_NAME" → Lore.meaning (some s.lore) token = lore.resolve token) ∧
      (∀ cut : Cut, cut.IsProper →
        s.lore.word (String.ofList cut.text) =
          .ok (String.ofList (cut.filled (Lore.meaning (some s.lore)))) ∧
        ∀ now : Scene, now.substitute s.parties.lore (String.ofList cut.text) =
          (s.lore.word (String.ofList cut.text),
            now.noteAll ((cut.tokens.filter fun token =>
              (Lore.meaning (some s.lore) token).isNone).map Notice.unresolvedPlaceholder))) ∧
      ∀ p, s.Shows p → s.source.IsWorded p := by
  intro s lore
  have hlore : s.lore = .context (lore.withNpcName speaker.name) :=
    start_lore script speaker given config presenter dice scene
  have hmeaning : ∀ token, Lore.meaning (some s.lore) token =
      if token ≠ "NPC_NAME" then lore.resolve token
      else if lore.extra.get? "NPC_NAME" = some "" then none
      else some (lore.nameFor speaker.name) := by
    intro token
    rw [hlore, Lore.meaning_context, LoreContext.resolve_withNpcName lore hname]
  have hnpc := hmeaning "NPC_NAME"
  rw [if_neg (not_not_intro rfl)] at hnpc
  refine ⟨?_, fun hempty => ?_, fun token htoken => ?_, fun cut hcut => ?_,
    fun p => isWorded_of_shows henabled⟩
  · rw [hnpc]
    by_cases hempty : lore.extra.get? "NPC_NAME" = some ""
    · simp [hempty]
    · simp [hempty]
  · rw [hnpc, if_pos hempty]
  · rw [hmeaning, if_pos htoken]
  · have hsubstitute := fun now : Scene =>
      substitute_context (lore.withNpcName speaker.name) now hcut
    rw [← hlore] at hsubstitute
    -- The words are the same at every scene.
    have hword := congrArg Prod.fst (hsubstitute scene)
    exact ⟨hword, fun now => (hsubstitute now).trans (Prod.ext hword.symm rfl)⟩

/-- A script that says who is speaking, and where. -/
def nameplate : Script where
  archetype := "npc"
  body := [.say [.run "I am #NPC_NAME of #TOWN_NAME."]]

/-- Holt, who is asked for his name. -/
def holt : Speaker where
  id := "npc_1"
  archetype := "npc"
  name := "Holt"

/-- A session with Holt where something is known of his town. -/
def asked (lore : LoreContext) : Session :=
  start nameplate holt (some (.context lore)) {} {} { source := .scripted [] }
    { env := { manifest := .empty }, economy := none }

theorem resolves_npcName_iff_of_asked :
    nameplate.disabled = false ∧ holt.name ≠ "" ∧
      Lore.meaning (some (asked { townName := "Millbrook" }).lore) "NPC_NAME" = some "Holt" ∧
      Lore.meaning (some (asked { townName := "Millbrook" }).lore) "TOWN_NAME" = some "Millbrook" ∧
      (asked { townName := "Millbrook" }).Shows
        (.text .presenting (.str "I am Holt of Millbrook.")) ∧
      (asked { townName := "Millbrook" }).source.IsWorded
        (.text .presenting (.str "I am Holt of Millbrook.")) := by
  have henabled : nameplate.disabled = false := rfl
  have hname : holt.name ≠ "" := by decide
  obtain ⟨hnpc, -, hother, -, hworded⟩ := resolves_npcName_iff henabled hname
    (some { townName := "Millbrook" }) {} {} { source := .scripted [] }
    { env := { manifest := .empty }, economy := none }
  have hshown : (asked { townName := "Millbrook" }).Shows
      (.text .presenting (.str "I am Holt of Millbrook.")) := by
    decide +kernel
  exact ⟨henabled, hname, hnpc.2 nofun, (hother "TOWN_NAME" (by decide)).trans rfl, hshown,
    hworded _ hshown⟩

/-- With an empty further binding Holt's name is not put in, though he has one. -/
theorem unresolved_of_empty_binding :
    holt.name = "Holt" ∧ nameplate.disabled = false ∧
      (asked { townName := "Millbrook", extra := OrderedMap.empty.insert "NPC_NAME" "" }).Shows
        (.text .presenting (.str "I am #NPC_NAME of Millbrook.")) ∧
      ¬ (asked { townName := "Millbrook", extra := OrderedMap.empty.insert "NPC_NAME" "" }).Shows
        (.text .presenting (.str "I am Holt of Millbrook.")) := by
  refine ⟨rfl, rfl, ?_, ?_⟩ <;> decide +kernel

end Session

end Parley
