import Parley.Proofs.Talk.Run
import Parley.Proofs.Talk.World

/-!
# Commits Happen as a Whole or Not at All

A commit goes through three components that know nothing of each other: the economy takes the money,
the stage writes quest state, and the economy moves the items. We prove that nothing is left
half-done whichever of them stops the commit:

* `Parties.charge_cases`: a charge is either taken in full, or leaves the world as it was;
* `Parties.apply_of_admitted`: once the charge is taken nothing can fail any more, since the stage
  holds only what the declarations admit;
* `commit_performed_or_kept`: a commit of a turn that a run produced either performs the whole turn
  (`Parties.Performed`) or keeps all variables and items (`World.Kept`).

Lore that answers a token with something that is no text breaks its contract and is left out
(`Lore.IsTextual`); the bindings of a lore context are texts.
-/

namespace Parley

namespace Lore

/-- Every answer is a text. -/
def IsTextual (lore : Lore) : Prop :=
  ∀ token document, lore.resolve token = some document → document.isText = true

/-- The bindings of a context are texts. -/
theorem isTextual_context (context : LoreContext) : (Lore.context context).IsTextual := by
  intro token document h
  obtain ⟨s, -, rfl⟩ := Option.map_eq_some_iff.1 h
  rfl

/-- A text with its placeholders replaced. -/
def wording (lore : Option Lore) (text : String) : String :=
  (Placeholder.substitute (fun token => (lore.bind fun l => l.resolve token).map Json.shown) text).1

end Lore

namespace Scene

@[simp]
theorem publish_world (scene : Scene) (npc : Option String) (what : Happening) :
    (scene.publish npc what).world = scene.world := rfl

@[simp]
theorem noteAll_world (scene : Scene) (notices : List Notice) :
    (scene.noteAll notices).world = scene.world := rfl

/-- Replacing placeholders takes at most notes. -/
@[simp]
theorem substitute_world (scene : Scene) (lore : Option Lore) (text : String) :
    (scene.substitute lore text).2.world = scene.world := rfl

/-- Placeholders can be replaced in every text if the lore answers with texts. -/
theorem substitute_of_isTextual (scene : Scene) {lore : Option Lore} (text : String)
    (h : ∀ l ∈ lore, l.IsTextual) :
    ∃ after, scene.substitute lore text = (.ok (Lore.wording lore text), after) ∧
      after.world = scene.world := by
  -- No token of the text has an answer that is no text, so that replacing cannot fail.
  have hnone : ∀ token, ((lore.bind fun l => l.resolve token).any fun m => !m.isText) = false := by
    intro token
    rw [Option.any_eq_false_iff_get]
    intro hsome
    obtain ⟨l, hl, hresolve⟩ := Option.bind_eq_some_iff.1 (Option.some_get hsome).symm
    simpa using h l hl token _ hresolve
  simp only [substitute, hnone, List.any_eq_true, Bool.false_eq_true, and_false, exists_false,
    if_false]
  exact ⟨_, rfl, rfl⟩

end Scene

namespace Parties

variable (p : Parties)

@[simp]
theorem tell_world (what : Happening) (scene : Scene) :
    (p.tell what scene).world = scene.world := by
  unfold tell
  split <;> rfl

/-- Making writes known changes nothing that lasts. -/
theorem tellWrites_world (written : List (String × Value)) (scene : Scene) :
    (written.foldl (fun scene w => p.tell (.variableSet w.1 w.2) scene) scene).world =
      scene.world := by
  induction written generalizing scene with
  | nil => rfl
  | cons w rest ih => exact (ih _).trans (p.tell_world _ scene)

/-- The requests by which a turn is paid for. Nothing is asked for a turn that costs nothing. -/
def payment (total : Nat) : List Request :=
  if total = 0 then [] else [.balance p.player, .spend p.player total]

/-- The request that performs a side effect. Charges are performed together, by the payment. -/
def request? : Effect → Option Request
  | .give item message => some (.give p.npc p.player item (Lore.wording p.lore message))
  | .offer item => some (.offer item)
  | .spend _ => none

/-- A payment moves no item. -/
theorem payment_moves_nothing (total : Nat) :
    (p.payment total).filterMap Request.gift? = [] ∧
      (p.payment total).filterMap Request.offer? = [] := by
  unfold payment
  split <;> exact ⟨rfl, rfl⟩

/-- A payment was asked for as often as there is something to pay, and answered with yes: `charged`
is quest state after it. -/
def Pays (p : Parties) (total : Nat) (before : World) (charged : Environment) : Prop :=
  if total = 0 then charged = before.env
  else ∃ economy, before.economy = some economy ∧
    (economy.spend before.env p.player total).1 = .ok true ∧
    (economy.spend before.env p.player total).2.1 = charged

/-- A side effect is performed by its request, whatever the economy says to it. -/
theorem perform_world (hlore : ∀ l ∈ p.lore, l.IsTextual) (effect : Effect) (scene : Scene) :
    ∃ after, p.perform effect scene = (.ok (), after) ∧
      after.world =
        ⟨scene.env, scene.economy.map fun e => e.after (p.request? effect).toList⟩ := by
  unfold perform
  cases effect with
  | spend amount =>
    refine ⟨scene, rfl, ?_⟩
    simp [Scene.world, request?]
  | give item message =>
    cases hecon : scene.economy with
    -- With nobody to hand anything over the effect is only noted.
    | none => exact ⟨_, rfl, by rw [Scene.noteAll_world, Scene.world, hecon]; rfl⟩
    | some economy =>
      obtain ⟨shown, hshown, hworld⟩ := scene.substitute_of_isTextual message hlore
      simp only [hshown]
      refine ⟨_, rfl, ?_⟩
      rw [tell_world, Economy.give_eq]
      exact congrArg (fun w : World => (⟨w.env, _⟩ : World)) hworld
  | offer item =>
    cases hecon : scene.economy with
    | none => exact ⟨_, rfl, by rw [Scene.noteAll_world, Scene.world, hecon]; rfl⟩
    | some economy =>
      refine ⟨_, rfl, ?_⟩
      rw [tell_world]
      exact congrArg (fun e => (⟨scene.env, some e⟩ : World)) (economy.offer_snd item)

/-- Side effects are performed by their requests, each once and in order. -/
theorem performAll_world (hlore : ∀ l ∈ p.lore, l.IsTextual) (effects : List Effect)
    (scene : Scene) :
    ∃ after, p.performAll effects scene = (.ok (), after) ∧
      after.world =
        ⟨scene.env, scene.economy.map fun e => e.after (effects.filterMap p.request?)⟩ := by
  induction effects generalizing scene with
  | nil => exact ⟨scene, rfl, by simp [Scene.world]⟩
  | cons effect rest ih =>
    obtain ⟨next, hnext, hworld⟩ := p.perform_world hlore effect scene
    obtain ⟨after, hafter, hrest⟩ := ih next
    refine ⟨after, by rw [performAll, hnext]; exact hafter, ?_⟩
    have henv : next.env = scene.env := congrArg World.env hworld
    have hecon : next.economy = scene.economy.map fun e => e.after (p.request? effect).toList :=
      congrArg World.economy hworld
    -- The requests of the first effect come before those of the rest.
    rw [hrest, henv, hecon, Option.map_map]
    congr 2
    funext e
    cases hrequest : p.request? effect <;> simp [hrequest]

/-- Nothing can fail once a turn is paid for: its writes are admitted and its items move. -/
theorem apply_of_admitted (hlore : ∀ l ∈ p.lore, l.IsTextual) {turn : Turn} {scene : Scene}
    (hadmitted : turn.stage.Admitted scene.env.manifest) :
    ∃ env after,
      turn.stage.commit scene.env = (.ok turn.stage.pending.entries, env, turn.stage.discard) ∧
      p.apply turn scene = (.ok (.committed turn.stage.pending.entries),
        { turn with stage := turn.stage.discard }, after) ∧
      after.world =
        ⟨env, scene.economy.map fun e => e.after (turn.effects.filterMap p.request?)⟩ := by
  -- The writes are made first, then made known, and only then the items move; none of the three can
  -- fail.
  obtain ⟨env, hcommit, -, -⟩ := Stage.commit_of_admitted hadmitted
  obtain ⟨after, hperformed, hworld⟩ := p.performAll_world hlore turn.effects
    (turn.stage.pending.entries.foldl (fun scene w => p.tell (.variableSet w.1 w.2) scene)
      { scene with env })
  have hstart := p.tellWrites_world turn.stage.pending.entries { scene with env }
  refine ⟨env, after, hcommit, ?_, ?_⟩
  · rw [apply, hcommit]
    simp only [hperformed]
  · rw [hworld]
    exact congrArg (fun w : World => (⟨w.env, w.economy.map _⟩ : World)) hstart

/-- A charge is taken in full, or it leaves all variables and items as they were. -/
theorem charge_cases {total : Nat} (htotal : total ≠ 0) (scene : Scene) :
    (∃ charged after, p.charge total scene = (.ok true, after) ∧
      p.Pays total scene.world charged ∧ charged.manifest = scene.env.manifest ∧
      after.world = ⟨charged, scene.economy.map fun e => e.after (p.payment total)⟩) ∨
    ∃ answer after, p.charge total scene = (answer, after) ∧ answer ≠ .ok true ∧
      scene.world.Kept after.world := by
  have hpayment : p.payment total = [.balance p.player] ++ [.spend p.player total] := by
    rw [payment, if_neg htotal]
    rfl
  -- A charge may stop in four places: there is no economy, the balance cannot be compared, it is
  -- too low, or the payment is not answered with yes. Up to each of them only requests were made.
  unfold charge
  cases hecon : scene.economy with
  | none => exact .inr ⟨_, _, rfl, by simp, .refl _⟩
  | some economy =>
    have hworld : scene.world = ⟨scene.env, some economy⟩ := by rw [Scene.world, hecon]
    have hasked : scene.world.Kept ⟨scene.env, some (economy.after [.balance p.player])⟩ := by
      rw [hworld]
      exact World.kept_after (w := ⟨scene.env, some economy⟩) rfl rfl
    simp only [Economy.balance_snd]
    cases (economy.balance scene.env p.player).1.isBelow? total with
    | none => exact .inr ⟨_, _, rfl, by simp, hasked⟩
    | some isBelow =>
      cases isBelow with
      | true => exact .inr ⟨_, _, rfl, by simp, hasked⟩
      | false =>
        obtain ⟨hanswer, hcharged⟩ :=
          economy.spend_after scene.env p.player [.balance p.player] total
        have hleft := (economy.after [.balance p.player]).spend_snd scene.env p.player total
        -- The balance was asked for before the payment, which does not change what the payment does.
        rw [Economy.after_after, ← hpayment] at hleft
        generalize (economy.after [.balance p.player]).spend scene.env p.player total = result
          at hanswer hcharged hleft ⊢
        obtain ⟨answer, charged, left⟩ := result
        simp only at hanswer hcharged hleft ⊢
        subst hanswer hcharged hleft
        by_cases htaken : (economy.spend scene.env p.player total).1 = .ok true
        · refine .inl ⟨_, _, by rw [htaken], ?_,
            economy.spend_manifest scene.env p.player total, rfl⟩
          rw [Pays, if_neg htotal]
          exact ⟨economy, hecon, htaken, rfl⟩
        · refine .inr ⟨_, _, rfl, htaken, ?_⟩
          rw [economy.spend_env_of_ne scene.env p.player htaken, hworld]
          exact World.kept_after (w := ⟨scene.env, some economy⟩)
            (p.payment_moves_nothing total).1 (p.payment_moves_nothing total).2

/-- A turn is performed as a whole. -/
structure Performed (p : Parties) (turn : Turn) (before after : World) : Prop where
  /-- The price is paid once, if there is one, and then the staged writes are made. -/
  money : ∃ charged, p.Pays turn.spendTotal before charged ∧
    turn.stage.commit charged = (.ok turn.stage.pending.entries, after.env, turn.stage.discard)
  /-- Every staged write is in quest state. -/
  writes : ∀ name v, turn.stage.pending.get? name = some v →
    after.env.lookup turn.stage.viewer name = some (.value v)
  /-- The economy, if there is one, is asked for the payment, and then for each gift and each offer,
  once and in the order in which they were recorded. -/
  requests : after.economy = before.economy.map fun e =>
    e.after (p.payment turn.spendTotal ++ turn.effects.filterMap p.request?)

/-- Once a turn is paid for it is performed as a whole. -/
theorem apply_performed (hlore : ∀ l ∈ p.lore, l.IsTextual) {turn : Turn} {scene paid : Scene}
    {charged : Environment} (hadmitted : turn.stage.Admitted scene.env.manifest)
    (hpays : p.Pays turn.spendTotal scene.world charged)
    (hmanifest : charged.manifest = scene.env.manifest)
    (hpaid : paid.world =
      ⟨charged, scene.economy.map fun e => e.after (p.payment turn.spendTotal)⟩) :
    ∃ after, p.apply turn paid = (.ok (.committed turn.stage.pending.entries),
        { turn with stage := turn.stage.discard }, after) ∧
      p.Performed turn scene.world after.world := by
  have henv : paid.env = charged := congrArg World.env hpaid
  have hecon : paid.economy = scene.economy.map fun e => e.after (p.payment turn.spendTotal) :=
    congrArg World.economy hpaid
  -- The payment kept the declarations, so that what was admitted before is admitted after it.
  rw [← hmanifest, ← henv] at hadmitted
  obtain ⟨env, after, hcommit, happlied, hworld⟩ := p.apply_of_admitted hlore hadmitted
  refine ⟨after, happlied, ⟨charged, hpays, ?_⟩, ?_, ?_⟩
  · rw [hworld, ← henv]
    exact hcommit
  · -- The stage reads its own writes, and a commit makes quest state read as the stage did.
    intro name v hpending
    obtain ⟨env', hcommit', -, hlookup⟩ := Stage.commit_of_admitted hadmitted
    have henv' : env' = env := by
      rw [hcommit', Prod.mk.injEq, Prod.mk.injEq] at hcommit
      exact hcommit.2.1
    rw [hworld, ← henv', hlookup, Stage.lookup, hpending]
  · rw [hworld, hecon, Option.map_map]
    simp only [Function.comp_def, Economy.after_after]
    rfl

/-- A turn whose writes are admitted is performed as a whole, or all variables and items are kept; and
if an answer is given nothing is left on the stage. -/
theorem commit_of_admitted (hlore : ∀ l ∈ p.lore, l.IsTextual) {turn : Turn} {scene : Scene}
    (hadmitted : turn.stage.Admitted scene.env.manifest) :
    (∃ after, p.commit turn scene = (.ok (.committed turn.stage.pending.entries),
        { turn with stage := turn.stage.discard }, after) ∧
      p.Performed turn scene.world after.world) ∨
    ∃ answer left after, p.commit turn scene = (answer, left, after) ∧
      (answer = .ok .refused ∧ left = { turn with stage := turn.stage.discard } ∨
        ∃ fault, answer = .error fault) ∧
      scene.world.Kept after.world := by
  rw [commit]
  by_cases htotal : turn.spendTotal = 0
  · rw [if_pos htotal]
    have hpays : p.Pays turn.spendTotal scene.world scene.env := by
      rw [Pays, if_pos htotal]
      rfl
    exact .inl (p.apply_performed hlore hadmitted hpays rfl
      (by simp [Scene.world, payment, htotal]))
  · rw [if_neg htotal]
    -- The charge decides: once it is taken nothing can fail, and until then nothing was changed.
    rcases p.charge_cases htotal scene with
      ⟨charged, paid, hcharge, hpays, hmanifest, hworld⟩ |
      ⟨answer, paid, hcharge, hrefused, hkept⟩
    · simp only [hcharge]
      exact .inl (p.apply_performed hlore hadmitted hpays hmanifest
        ((p.tell_world _ paid).trans hworld))
    · refine .inr ?_
      simp only [hcharge]
      cases answer with
      | error fault => exact ⟨_, _, _, rfl, .inr ⟨fault, rfl⟩, hkept⟩
      | ok taken =>
        cases taken with
        | true => exact absurd rfl hrefused
        | false =>
          refine ⟨_, _, _, rfl, .inl ⟨rfl, rfl⟩, ?_⟩
          rw [tell_world]
          exact hkept

/-- A commit is all or nothing. The turn of any body either is performed as a whole, or it is refused
or fails and all variables and items are kept. If there is an answer the stage is empty. -/
theorem commit_performed_or_kept {env : Environment} {viewer : Option String} {dice : Dice}
    {body : List Statement} {turn : Turn} {w : Walk} (scene : Scene)
    (hrun : Walk.run env viewer dice body = (.ok turn, w))
    (hmanifest : scene.env.manifest = env.manifest) (hlore : ∀ l ∈ p.lore, l.IsTextual) :
    match p.commit turn scene with
    | (.ok (.committed written), left, after) =>
      written = turn.stage.pending.entries ∧ left.stage.pending = .empty ∧
        p.Performed turn scene.world after.world
    | (.ok .refused, left, after) =>
      left.stage.pending = .empty ∧ scene.world.Kept after.world
    | (.error _, _, after) => scene.world.Kept after.world := by
  have hadmitted : turn.stage.Admitted scene.env.manifest := by
    rw [hmanifest]
    exact (Walk.run_admitted hrun).2
  rcases p.commit_of_admitted hlore hadmitted with
    ⟨after, hcommit, hperformed⟩ | ⟨answer, left, after, hcommit, hanswer, hkept⟩
  · rw [hcommit]
    exact ⟨rfl, rfl, hperformed⟩
  · rw [hcommit]
    rcases hanswer with ⟨rfl, rfl⟩ | ⟨fault, rfl⟩
    · exact ⟨rfl, hkept⟩
    · exact hkept

/-- The purchase of a charm for four of ten coins is performed as a whole. -/
theorem commit_performed_or_kept_of_purchase :
    ∃ turn w left after,
      Walk.run (.purse 10) (some "holt") { source := .scripted [] } [.spend 4, .offer "charm"] =
        (.ok turn, w) ∧
      Parties.commit { npc := some "holt", player := .str "player" } turn
          { env := .purse 10, economy := some (.wallet {}) } = (.ok (.committed []), left, after) ∧
      Parties.Performed { npc := some "holt", player := .str "player" } turn
        ⟨.purse 10, some (.wallet {})⟩ after.world := by
  have hrun : Walk.run (.purse 10) (some "holt") { source := .scripted [] }
      [.spend 4, .offer "charm"] = (.ok _, _) := rfl
  have hlore : ∀ l ∈ (none : Option Lore), l.IsTextual := fun l hl => nomatch hl
  have h := commit_performed_or_kept { npc := some "holt", player := .str "player" }
    { env := .purse 10, economy := some (.wallet {}) } hrun rfl hlore
  exact ⟨_, _, _, _, hrun, rfl, h.2.2⟩

end Parties

end Parley
