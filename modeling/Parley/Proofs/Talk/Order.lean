import Mathlib.Algebra.Order.BigOperators.Group.List
import Mathlib.Algebra.Order.Ring.Nat
import Parley.Proofs.Script.Shape
import Parley.Proofs.Talk.Visits

/-!
# Turns in Written Order

A turn is what some statements of the body produce, one after the other: each of them stands in the
body outside the bodies of options, they come in the order in which they are written, and none of
them comes twice. We prove:

* `Walk.exec_follows`: a visited statement adds to each part of the turn what it says, records or
  offers;
* `Walk.run_in_order`: hence the turn of a run follows statements of the body in written order, and
  cannot charge more than is written there;
* `Script.mem_walk_of_run` and `Script.body_mem_of_mem_walk`: what a run of a script gathers are
  options of that script, whose bodies can be run in turn;
* `Script.pending_of_run`: a variable that the script does not assign is not staged.
-/

namespace Parley

namespace Statement

/-! ## What a statement produces -/

/-- The statement says a line, with its picks rolled in some way. -/
inductive Speaks : Statement → String → Prop
  | say (dice : Dice) (text : Phrase) : Speaks (.say text) (dice.speak text).1
  | finish (dice : Dice) (message : Phrase) : Speaks (.finish (some message)) (dice.speak message).1

/-- The statement records a side effect. -/
inductive Records : Statement → Effect → Prop
  | give (dice : Dice) (item : String) (message : Phrase) :
      Records (.give item message) (.give item (dice.speak message).1)
  | spend (amount : Nat) : Records (.spend amount) (.spend amount)
  | offer (item : String) : Records (.offer item) (.offer item)

/-- Whether a statement says something when it is visited. -/
def isSpoken : Statement → Bool
  | .say _ => true
  | .finish message => message.isSome
  | _ => false

/-- Whether a statement records a side effect when it is visited. -/
def isRecorded : Statement → Bool
  | .give _ _ => true
  | .spend _ => true
  | .offer _ => true
  | _ => false

/-- The amount that is written in a statement. -/
def charge : Statement → Nat
  | .spend amount => amount
  | _ => 0

variable {s : Statement}

theorem Speaks.flags {line : String} (h : s.Speaks line) :
    s.isSpoken = true ∧ s.isRecorded = false := by
  cases h <;> exact ⟨rfl, rfl⟩

theorem Records.flags {effect : Effect} (h : s.Records effect) :
    s.isSpoken = false ∧ s.isRecorded = true := by
  cases h <;> exact ⟨rfl, rfl⟩

/-- What is charged is what is written. -/
theorem map_charge_of_records {statements : List Statement} {effects : List Effect}
    (h : List.Forall₂ Records statements effects) :
    effects.map Effect.charge = statements.map charge := by
  induction h with
  | nil => rfl
  | @cons s effect statements effects hs _ ih =>
    have hcharge : effect.charge = s.charge := by
      cases hs <;> rfl
    rw [List.map_cons, List.map_cons, hcharge, ih]

end Statement

/-! ## Turns -/

namespace Turn

/-- A turn is what statements produce one after the other: what each of them says, what it records,
and for some of the options among them that they are offered. Only variables that they assign are
staged. One list of statements serves for all parts of the turn. -/
structure Follows (turn : Turn) (visited : List Statement) : Prop where
  lines : List.Forall₂ Statement.Speaks (visited.filter Statement.isSpoken) turn.lines
  effects : List.Forall₂ Statement.Records (visited.filter Statement.isRecorded) turn.effects
  options : (turn.options.map Choice.statement).Sublist visited
  staged : ∀ name ∈ turn.stage.pending.keys, ∃ value, .assign name value ∈ visited

theorem spendTotal_eq (turn : Turn) : turn.spendTotal = (turn.effects.map Effect.charge).sum := by
  rw [spendTotal, List.sum_eq_foldr, List.foldr_map]

variable {turn : Turn} {visited : List Statement} {s : Statement}

namespace Follows

/-- What is assigned by some statements is assigned by more of them. -/
theorem staged_append (h : turn.Follows visited) (s : Statement) :
    ∀ name ∈ turn.stage.pending.keys, ∃ value, .assign name value ∈ visited ++ [s] := by
  intro name hname
  obtain ⟨value, hvalue⟩ := h.staged name hname
  exact ⟨value, List.mem_append_left _ hvalue⟩

/-- A statement that says and records nothing can be passed. -/
theorem pass (h : turn.Follows visited) (hs : s.isSpoken = false ∧ s.isRecorded = false) :
    turn.Follows (visited ++ [s]) where
  lines := by simpa [hs] using h.lines
  effects := by simpa [hs] using h.effects
  options := h.options.trans (List.sublist_append_left _ _)
  staged := h.staged_append s

theorem say {line : String} (h : turn.Follows visited) (hs : s.Speaks line) :
    Follows { turn with lines := turn.lines ++ [line] } (visited ++ [s]) where
  lines := by
    have hlast : List.Forall₂ Statement.Speaks [s] [line] := .cons hs .nil
    simpa [hs.flags] using List.rel_append h.lines hlast
  effects := by simpa [hs.flags] using h.effects
  options := h.options.trans (List.sublist_append_left _ _)
  staged := h.staged_append s

theorem record {effect : Effect} (h : turn.Follows visited) (hs : s.Records effect) :
    Follows { turn with effects := turn.effects ++ [effect] } (visited ++ [s]) where
  lines := by simpa [hs.flags] using h.lines
  effects := by
    have hlast : List.Forall₂ Statement.Records [s] [effect] := .cons hs .nil
    simpa [hs.flags] using List.rel_append h.effects hlast
  options := h.options.trans (List.sublist_append_left _ _)
  staged := h.staged_append s

theorem offerChoice (h : turn.Follows visited) (choice : Choice) :
    Follows { turn with options := turn.options ++ [choice] } (visited ++ [choice.statement]) where
  lines := by simpa [Choice.statement, Statement.isSpoken] using h.lines
  effects := by simpa [Choice.statement, Statement.isRecorded] using h.effects
  options := by
    rw [List.map_append]
    exact h.options.append (.refl _)
  staged := h.staged_append _

/-- An assignment stages its own variable. -/
theorem assign (h : turn.Follows visited) (name : String) (value : Expr) (v : Value) :
    Follows { turn with stage := { turn.stage with pending := turn.stage.pending.insert name v } }
      (visited ++ [.assign name value]) where
  lines := by simpa [Statement.isSpoken] using h.lines
  effects := by simpa [Statement.isRecorded] using h.effects
  options := h.options.trans (List.sublist_append_left _ _)
  staged := by
    intro k hk
    rcases mem_keys_insertEntry hk with rfl | hk
    · exact ⟨value, List.mem_append_right _ (List.mem_singleton_self _)⟩
    · exact h.staged_append _ k hk

/-- A turn charges at most what is written in statements among which are those that it follows. -/
theorem spendTotal_le (h : turn.Follows visited) {written : List Statement}
    (hvisited : visited.Sublist written) :
    turn.spendTotal ≤ (written.map Statement.charge).sum := by
  have hrecorded : (visited.filter Statement.isRecorded).Sublist written :=
    List.filter_sublist.trans hvisited
  calc turn.spendTotal
      = (turn.effects.map Effect.charge).sum := spendTotal_eq turn
    _ = ((visited.filter Statement.isRecorded).map Statement.charge).sum := by
        rw [Statement.map_charge_of_records h.effects]
    _ ≤ (written.map Statement.charge).sum :=
        (hrecorded.map Statement.charge).sum_le_sum fun _ _ => Nat.zero_le _

/-- Statements without options offer none. -/
theorem options_eq_nil (h : turn.Follows visited)
    (hnone : ∀ label guard body, .option label guard body ∉ visited) : turn.options = [] := by
  refine List.eq_nil_iff_forall_not_mem.2 fun choice hchoice => ?_
  exact hnone choice.label choice.guard choice.body
    (h.options.subset (List.mem_map_of_mem hchoice))

end Follows

end Turn

namespace Walk

variable {env : Environment} {visited : List Statement} {w : Walk}

/-- A statement that is visited adds to the turn what it produces, and nothing else. -/
theorem exec_follows {s : Statement} (hs : s.isCond = false) (h : w.turn.Follows visited) :
    (exec env s w).2.turn.Follows (visited ++ [s]) := by
  cases s with
  | cond clauses => cases hs
  | say text => exact h.say (.say w.dice text)
  | give item message => exact h.record (.give w.dice item message)
  | offer item => exact h.record (.offer item)
  | spend amount => exact h.record (.spend amount)
  | finish message =>
    cases message with
    | none => exact h.pass ⟨rfl, rfl⟩
    | some text => exact h.say (.finish w.dice text)
  | option label guard body =>
    -- whatever the guard comes to, the turn is as it was before
    have hguard : (w.allows env guard).2.turn = w.turn := (allows_noted guard w).turn
    rw [exec]
    rcases hallows : w.allows env guard with ⟨_ | allowed, w'⟩
    · rw [hallows] at hguard
      exact (hguard ▸ h).pass ⟨rfl, rfl⟩
    · rw [hallows] at hguard
      replace h : w'.turn.Follows visited := hguard ▸ h
      cases allowed with
      | true => exact h.offerChoice ⟨label, guard, body⟩
      | false => exact h.pass ⟨rfl, rfl⟩
  | assign name value =>
    rw [exec]
    split
    · next stage hassign =>
      -- what is staged is what the check has let through
      rw [Walk.assign] at hassign
      split at hassign
      · cases hassign
      · obtain ⟨d, v, -, rfl⟩ := Stage.write_eq_ok_iff.1 hassign
        exact h.assign name value v
    · exact h.pass ⟨rfl, rfl⟩
    · exact h.pass ⟨rfl, rfl⟩
    · exact h.pass ⟨rfl, rfl⟩

/-- The turn of a run follows statements that the run can visit. -/
theorem run_follows {viewer : Option String} {dice : Dice} {body : List Statement} {turn : Turn}
    (h : run env viewer dice body = (.ok turn, w)) :
    ∃ visited, visited.Sublist (Statement.surfaceBody body) ∧ turn.Follows visited := by
  have hkept : IsKept env fun visits u => u.turn.Follows (visits.map Prod.fst) := by
    refine ⟨fun _ _ _ hu => hu, fun s visits u hs hu => ?_⟩
    rw [List.map_append]
    exact exec_follows hs hu
  have hwalk := run_visited hkept ⟨.nil, .nil, .refl _, List.forall_mem_nil _⟩ h
  obtain ⟨-, hturn⟩ := run_ok h
  refine ⟨(visitsBody env body (start viewer dice)).map Prod.fst, visitsBody_sublist body _, ?_⟩
  -- that a turn is marked as ended is no part of what it follows
  rw [hturn]
  exact ⟨hwalk.lines, hwalk.effects, hwalk.options, hwalk.staged⟩

/-- The contents of a turn come from the body that was run. -/
theorem run_comesFrom {viewer : Option String} {dice : Dice} {body : List Statement} {turn : Turn}
    (h : run env viewer dice body = (.ok turn, w)) :
    (∀ name ∈ turn.stage.pending.keys, ∃ value, .assign name value ∈ Statement.walkBody body) ∧
    ∀ choice ∈ turn.options, choice.statement ∈ Statement.walkBody body := by
  obtain ⟨visited, hsurface, hfollows⟩ := run_follows h
  have hvisited : visited ⊆ Statement.walkBody body :=
    (hsurface.trans (Statement.surfaceBody_sublist_walk body)).subset
  refine ⟨fun name hname => ?_, fun choice hchoice => ?_⟩
  · obtain ⟨value, hvalue⟩ := hfollows.staged name hname
    exact ⟨value, hvisited hvalue⟩
  · exact hvisited (hfollows.options.subset (List.mem_map_of_mem hchoice))

/-- Execution goes by what is written. Some statements that stand outside the bodies of options,
each at most once and in the order in which they are written, produce the turn: its lines, its
effects, its options and its staged writes. So a turn charges no more than all that is written
outside the bodies of options, and the body of an option of a parsed script offers nothing. -/
theorem run_in_order {viewer : Option String} {dice : Dice} {body : List Statement} {turn : Turn}
    (h : run env viewer dice body = (.ok turn, w)) :
    (∃ visited, visited.Sublist (Statement.outside body) ∧ turn.Follows visited) ∧
    turn.spendTotal ≤ ((Statement.outside body).map Statement.charge).sum ∧
    ∀ (text archetype source : String) (limits : Limits) (script : Script) (label : Phrase)
      (guard : Option Expr), Script.parse text archetype source limits = .ok script →
      .option label guard body ∈ script.walk → turn.options = [] := by
  obtain ⟨visited, hsurface, hfollows⟩ := run_follows h
  have hvisited : visited.Sublist (Statement.outside body) :=
    hsurface.trans (Statement.surfaceBody_sublist body)
  refine ⟨⟨visited, hvisited, hfollows⟩, hfollows.spendTotal_le hvisited, ?_⟩
  intro text archetype source limits script label guard hparse hoption
  obtain ⟨inOption, hwellFormed⟩ := Script.isWellFormed_of_parse hparse hoption
  -- an offered option would lie in the body, and with it in an option
  refine hfollows.options_eq_nil fun label' guard' body' hmem => ?_
  exact Statement.option_notMem_walkBody hwellFormed
    ((hvisited.trans (Statement.outside_sublist body)).subset hmem)

/-- The body of the ferryman's option charges once what is written there, and offers nothing. -/
theorem run_in_order_of_ferry :
    ∃ script label guard body turn w,
      Script.parse Script.ferryText "ferryman" = .ok script ∧
      .option label guard body ∈ script.walk ∧
      run default (some "charon") { source := .scripted [] } body = (.ok turn, w) ∧
      turn.spendTotal = 2 ∧
      (∃ visited, visited.Sublist (Statement.outside body) ∧ turn.Follows visited) ∧
      turn.spendTotal ≤ ((Statement.outside body).map Statement.charge).sum ∧
      turn.options = [] := by
  have hread : ((Script.parse Script.ferryText "ferryman").toOption.map fun script =>
      (script.walk.filterMap Statement.body?).map fun body =>
        (run default (some "charon") { source := .scripted [] } body).1.toOption.map
          Turn.spendTotal) = some [some 2] := by
    decide +kernel
  obtain ⟨script, hparse, hbodies⟩ := exists_of_toOption_map hread
  obtain ⟨body, hbody, hspends⟩ := List.map_eq_singleton_iff.1 hbodies
  obtain ⟨o, ho, hobody⟩ := List.mem_filterMap.1 (hbody ▸ List.mem_singleton_self body)
  obtain ⟨label, guard, rfl⟩ := Statement.eq_option_of_body? hobody
  obtain ⟨turn, hturn, htotal⟩ := exists_of_toOption_map hspends
  have hrun : run default (some "charon") { source := .scripted [] } body =
      (.ok turn, (run default (some "charon") { source := .scripted [] } body).2) :=
    Prod.ext hturn rfl
  -- the option is one of the script, so its body falls under the last part as well
  obtain ⟨hfollows, hcharge, hoptions⟩ := run_in_order hrun
  exact ⟨script, label, guard, body, turn, _, hparse, ho, hrun, htotal, hfollows, hcharge,
    hoptions _ _ _ _ script label guard hparse ho⟩

end Walk

/-! ## Scripts -/

namespace Script

variable {script : Script} {env : Environment} {viewer : Option String} {dice : Dice}
  {body : List Statement} {turn : Turn} {w : Walk}

/-- What a run of a script's body gathers are options of the script. -/
theorem mem_walk_of_run (hbody : body ∈ script.bodies)
    (hrun : Walk.run env viewer dice body = (.ok turn, w)) {choice : Choice}
    (hchoice : choice ∈ turn.options) : choice.statement ∈ script.walk :=
  mem_walk_of_mem_bodies hbody ((Walk.run_comesFrom hrun).2 choice hchoice)

/-- The bodies of the options of a script can be run in turn. -/
theorem body_mem_of_mem_walk {choice : Choice} (h : choice.statement ∈ script.walk) :
    choice.body ∈ script.bodies :=
  List.mem_cons_of_mem _ (List.mem_filterMap.2 ⟨_, h, rfl⟩)

/-- A variable that the script does not assign is not staged. -/
theorem pending_of_run (hbody : body ∈ script.bodies)
    (hrun : Walk.run env viewer dice body = (.ok turn, w)) {name : String}
    (hname : ∀ value, .assign name value ∉ script.walk) :
    turn.stage.pending.get? name = none := by
  refine OrderedMap.lookup_eq_none_of_notMem fun hmem => ?_
  obtain ⟨value, hvalue⟩ := (Walk.run_comesFrom hrun).1 name hmem
  exact hname value (mem_walk_of_mem_bodies hbody hvalue)

end Script

end Parley
