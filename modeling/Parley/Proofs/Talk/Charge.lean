import Parley.Proofs.Talk.Commit

/-!
# Charges and the Wallet

The money of a wallet economy is a variable, so a commit reaches it in two ways: the charge takes the
price out of it, and a staged write sets it. The charge comes first, hence a staged write replaces
what the charge has left. We prove:

* `Parties.commit_money`: a committed turn paid its price, and quest state is what the staged writes
  make of what the payment left;
* `Parties.Pays.lookup_wallet`: the payment takes exactly the price out of the wallet;
* `Parties.charge_survives_iff`: the wallet ends at what the staged writes alone make of it less the
  price exactly if nothing is charged or the body does not set the variable of the wallet.
-/

namespace Parley

/-- The money in a wallet is the integer that its variable holds. -/
theorem Wallet.balance_of_lookup {w : Wallet} {name : String} {env : Environment} {n : Int}
    (hname : w.variableName = some name)
    (h : env.lookup none name = some (.value (.int n))) : w.balance env = n := by
  rw [balance, hname, Option.bind_some, h]

namespace Parties

variable {p : Parties} {turn left : Turn} {scene after : Scene} {written : List (String × Value)}

/-- Gifts and offers leave quest state alone, whatever becomes of them. -/
theorem perform_env (p : Parties) (effect : Effect) (scene : Scene) :
    (p.perform effect scene).2.env = scene.env := by
  have htell : ∀ what (scene : Scene), (p.tell what scene).env = scene.env :=
    fun what scene => congrArg World.env (p.tell_world what scene)
  have hsubstitute : ∀ text, (scene.substitute p.lore text).2.env = scene.env :=
    fun text => congrArg World.env (scene.substitute_world p.lore text)
  rw [perform.eq_def]
  split
  · rfl
  · rfl
  · rfl
  · -- A gift replaces the placeholders of its message, which may fail, but never writes.
    next message _ _ =>
    have h := hsubstitute message
    split
    · next hmessage =>
      rw [hmessage] at h
      exact h
    · next hmessage =>
      rw [hmessage] at h
      rw [htell]
      exact h
  · rw [htell]

/-- Side effects leave quest state alone, also if one of them fails. -/
theorem performAll_env (p : Parties) (effects : List Effect) (scene : Scene) :
    (p.performAll effects scene).2.env = scene.env := by
  induction effects generalizing scene with
  | nil => rfl
  | cons effect rest ih =>
    have hfirst := p.perform_env effect scene
    rw [performAll]
    split
    · next hperform =>
      rw [hperform] at hfirst
      exact hfirst
    · next hperform =>
      rw [hperform] at hfirst
      exact (ih _).trans hfirst

/-- If a turn is applied, quest state is what the staged writes make of it. -/
theorem apply_env (h : p.apply turn scene = (.ok (.committed written), left, after)) :
    (turn.stage.commit scene.env).2.1 = after.env := by
  rw [apply] at h
  split at h
  · cases h
  · next wrote env stage hcommit =>
    rw [hcommit]
    have henv := (p.performAll_env turn.effects _).trans
      (congrArg World.env (p.tellWrites_world wrote { scene with env }))
    dsimp only at h
    split at h
    · cases h
    · next hperform =>
      rw [hperform] at henv
      cases h
      exact henv.symm

/-- A committed turn paid its price, and quest state is what the staged writes make of what the
payment left. -/
theorem commit_money (h : p.commit turn scene = (.ok (.committed written), left, after)) :
    ∃ charged, p.Pays turn.spendTotal scene.world charged ∧
      charged.manifest = scene.env.manifest ∧ (turn.stage.commit charged).2.1 = after.env := by
  rw [commit] at h
  by_cases htotal : turn.spendTotal = 0
  · rw [if_pos htotal] at h
    refine ⟨scene.env, ?_, rfl, apply_env h⟩
    rw [Pays, if_pos htotal]
    rfl
  · -- The turn was committed, so that the charge was taken.
    rw [if_neg htotal] at h
    rcases p.charge_cases htotal scene with
      ⟨charged, paid, hcharge, hpays, hmanifest, hworld⟩ | ⟨answer, paid, hcharge, hrefused, -⟩
    · simp only [hcharge] at h
      have henv : (p.tell (.currencySpent turn.spendTotal) paid).env = charged :=
        congrArg World.env ((p.tell_world _ paid).trans hworld)
      have happlied := apply_env h
      rw [henv] at happlied
      exact ⟨charged, hpays, hmanifest, happlied⟩
    · rw [hcharge] at h
      -- No other answer to the charge leads to a commit.
      cases answer with
      | error fault => cases h
      | ok done =>
        cases done with
        | false => cases h
        | true => exact absurd rfl hrefused

/-- The payment takes the price out of the wallet. -/
theorem Pays.lookup_wallet {p : Parties} {total : Nat} {before : World} {charged : Environment}
    {w : Wallet} {name : String} {funds : Int}
    (h : p.Pays total before charged) (heconomy : before.economy = some (.wallet w))
    (hname : w.variableName = some name)
    (hfunds : before.env.lookup none name = some (.value (.int funds))) :
    charged.lookup none name = some (.value (.int (funds - total))) := by
  rw [Pays] at h
  split at h
  · -- Nothing is asked for a price of zero.
    next htotal =>
    rw [h, htotal, hfunds]
    simp
  · obtain ⟨economy, hecon, hanswer, rfl⟩ := h
    obtain rfl : Economy.wallet w = economy := by
      rw [heconomy] at hecon
      exact Option.some.inj hecon
    have hbalance : w.balance before.env = funds := Wallet.balance_of_lookup hname hfunds
    simp only [Economy.spend, Wallet.spend, hname, hbalance] at hanswer ⊢
    split at hanswer
    · cases hanswer
    · next hlow =>
      rw [if_neg hlow]
      split at hanswer
      · cases hanswer
      · -- The payment is a write of the difference to the variable of the wallet.
        next paid hwrite =>
        show paid.lookup none name = _
        rw [Environment.lookup_write hwrite, if_pos rfl]

/-- A charge survives its commit exactly if there is nothing to charge or the body does not set the
variable of the wallet; otherwise the wallet ends with what the body set it to. -/
theorem charge_survives_iff {env : Environment} {viewer : Option String} {dice : Dice}
    {body : List Statement} {walk : Walk} {w : Wallet} {name : String} {d : Declaration}
    {funds : Int} (hrun : Walk.run env viewer dice body = (.ok turn, walk))
    (hmanifest : scene.env.manifest = env.manifest)
    (heconomy : scene.economy = some (.wallet w)) (hname : w.variableName = some name)
    (hd : scene.env.manifest.get? name = some d) (hscope : d.scope = .global)
    (htype : d.type = .int) (hfunds : scene.env.lookup none name = some (.value (.int funds)))
    (hcommit : p.commit turn scene = (.ok (.committed written), left, after)) :
    (w.balance after.env = w.balance (turn.stage.commit scene.env).2.1 - turn.spendTotal ↔
      turn.spendTotal = 0 ∨ turn.stage.pending.get? name = none) ∧
    after.env.lookup none name =
      some (.value ((turn.stage.pending.get? name).getD (.int (funds - turn.spendTotal)))) := by
  have hadmitted : turn.stage.Admitted scene.env.manifest := by
    rw [hmanifest]
    exact (Walk.run_admitted hrun).2
  obtain ⟨charged, hpays, hsame, hafter⟩ := commit_money hcommit
  have hpaid : charged.lookup none name = some (.value (.int (funds - turn.spendTotal))) :=
    hpays.lookup_wallet heconomy hname hfunds
  -- The staged writes are made twice, on top of the payment and, to compare, without it.
  have hfinal := Stage.lookup_commit_global (hsame.symm ▸ hadmitted) (hsame.symm ▸ hd) hscope none
  have halone := Stage.lookup_commit_global hadmitted hd hscope none
  rw [hafter, hpaid] at hfinal
  rw [hfunds] at halone
  -- Without a staged write both readings go through to what was there before; with one both give the
  -- staged value, so that the price can only be missing if it is zero.
  cases hpending : turn.stage.pending.get? name with
  | none =>
    rw [hpending] at hfinal halone
    refine ⟨?_, hfinal⟩
    rw [Wallet.balance_of_lookup hname hfinal, Wallet.balance_of_lookup hname halone]
    exact ⟨fun _ => .inr rfl, fun _ => rfl⟩
  | some v =>
    obtain ⟨n, rfl⟩ := hadmitted.exists_int hd htype hpending
    rw [hpending] at hfinal halone
    refine ⟨?_, hfinal⟩
    rw [Wallet.balance_of_lookup hname hfinal, Wallet.balance_of_lookup hname halone]
    constructor
    · intro h
      exact .inl (by omega)
    · rintro (h | h)
      · rw [h]
        omega
      · cases h

/-- A charge of four survives in a wallet of ten that the body does not set. -/
theorem charge_survives_iff_of_purchase :
    ∃ turn walk left after,
      Walk.run (.purse 10) (some "holt") { source := .scripted [] } [.spend 4] = (.ok turn, walk) ∧
      Parties.commit { npc := some "holt", player := .str "player" } turn
          { env := .purse 10, economy := some (.wallet {}) } = (.ok (.committed []), left, after) ∧
      (({} : Wallet).balance after.env =
          ({} : Wallet).balance (turn.stage.commit (.purse 10)).2.1 - turn.spendTotal ↔
        turn.spendTotal = 0 ∨ turn.stage.pending.get? "PLAYER_WALLET" = none) ∧
      after.env.lookup none "PLAYER_WALLET" = some (.value (.int 6)) := by
  obtain ⟨turn, walk, hrun⟩ : ∃ turn walk,
      Walk.run (.purse 10) (some "holt") { source := .scripted [] } [.spend 4] = (.ok turn, walk) :=
    ⟨_, _, rfl⟩
  obtain ⟨left, after, hcommit⟩ : ∃ left after,
      Parties.commit { npc := some "holt", player := .str "player" } turn
        { env := .purse 10, economy := some (.wallet {}) } = (.ok (.committed []), left, after) := by
    cases hrun
    exact ⟨_, _, rfl⟩
  obtain ⟨hiff, hfinal⟩ :=
    charge_survives_iff hrun rfl rfl rfl rfl rfl rfl rfl hcommit
  refine ⟨turn, walk, left, after, hrun, hcommit, hiff, hfinal.trans ?_⟩
  cases hrun
  rfl

/-- A body that sets the wallet to a hundred and spends five leaves a hundred in it. -/
theorem charge_lost_of_set :
    ∃ turn walk left after written,
      Walk.run (.purse 10) (some "npc_1") { source := .scripted [] }
          [.assign "PLAYER_WALLET" (.literal (.int 100)), .spend 5] = (.ok turn, walk) ∧
      Parties.commit { npc := some "npc_1", player := .str "player" } turn
          { env := .purse 10, economy := some (.wallet {}) } =
        (.ok (.committed written), left, after) ∧
      ({} : Wallet).balance after.env ≠
        ({} : Wallet).balance (turn.stage.commit (.purse 10)).2.1 - turn.spendTotal :=
  ⟨_, _, _, _, _, rfl, rfl, by decide⟩

end Parties

end Parley
