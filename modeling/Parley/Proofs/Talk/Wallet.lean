import Parley.Proofs.Talk.Charge
import Parley.Proofs.Talk.Recovery

/-!
# Wallets That Pay Out

A wallet shows whatever integer its variable holds, but it takes money out by a write like any other,
in nobody's name. Restored state may hold money under a name that is not declared, or that is declared
for speakers or for another type; such a wallet shows money and cannot pay it out. A wallet is *sound*
if it shows none or its variable can be written.

## Main results

* `Wallet.IsSound.write`: no write makes a sound wallet unsound, whoever makes it;
* `Parties.commit_contained`: if a commit fails with a fault that scripts recover from, it is the
  refusal of the wallet's variable, and the wallet was not sound;
* `Parties.commit_unsound`: if the wallet is not sound, there is such a commit.
-/

namespace Parley

theorem Manifest.Admits.of_type {m : Manifest} {viewer : Option String} {name : String}
    {u v : Value} (h : m.Admits viewer name u) (htype : v.type = u.type) :
    m.Admits viewer name v := by
  obtain ⟨d, hd, hu, hspeaker⟩ := h
  exact ⟨d, hd, htype.trans hu, hspeaker⟩

/-- A write of a script value that the declarations do not admit is refused for its scope. -/
theorem Environment.write_refused {env : Environment} {viewer : Option String} {name : String}
    {v : Value} (h : ¬ env.manifest.Admits viewer name v) :
    ∃ cause, env.write viewer name (.value v) = .error (.scope ⟨name, cause⟩) := by
  have hcheck := env.checkWrite_answers viewer name (.value v)
  rw [write]
  cases hchecked : env.checkWrite viewer name (.value v) with
  | error fault =>
    rcases hcheck.of_eq_error hchecked with ⟨cause, rfl⟩ | ⟨document, hforeign, -⟩
    · exact ⟨cause, rfl⟩
    · cases hforeign
  | ok checked => exact absurd (exists_write_iff.1 ⟨_, by rw [write, hchecked]⟩) h

/-- What nobody in particular sees changes by a write only if the written value could have been
written in nobody's name. -/
theorem Environment.lookup_nobody_write {env env' : Environment} {viewer : Option String}
    {k : String} {x : Stored} (h : env.write viewer k x = .ok env') (name : String) :
    env'.lookup none name = env.lookup none name ∨
      ∃ v, env'.lookup none name = some (.value v) ∧ env.manifest.Admits none name v := by
  obtain ⟨d, v, hcheck, rfl⟩ := write_eq_ok_iff.1 h
  obtain ⟨hd, -, htype, -⟩ := checkWrite_eq_ok_iff.1 hcheck
  cases hscope : d.scope with
  | global =>
    have hnobody : d.scope = .speaker → (none : Option String) ≠ none := by
      rw [hscope]
      exact fun h => nomatch h
    -- A global value is stored alike in everybody's name.
    have hstore : env.store viewer d k v = env.store none d k v := by
      simp only [store, hscope]
    rw [hstore, lookup_store hd hnobody]
    split
    · next hname => exact .inr ⟨v, rfl, d, hname ▸ hd, htype, hnobody⟩
    · exact .inl rfl
  | speaker =>
    refine .inl ?_
    -- Nobody sees the variables of speakers.
    cases viewer with
    | none => simp only [store, hscope]
    | some npc =>
      rw [lookup, lookup]
      simp only [store, hscope]
      cases env.manifest.get? name with
      | none => rfl
      | some other => cases hother : other.scope <;> simp only [hother]

/-! ## Sound wallets -/

namespace Wallet

/-- Whatever money the wallet shows, its variable can be written. -/
def IsSound (w : Wallet) (env : Environment) : Prop :=
  w.balance env ≤ 0 ∨ ∃ name, w.variableName = some name ∧ env.manifest.Admits none name (.int 0)

variable {w : Wallet} {env env' : Environment}

theorem not_isSound_iff :
    ¬ w.IsSound env ↔ 0 < w.balance env ∧
      ∀ name, w.variableName = some name → ¬ env.manifest.Admits none name (.int 0) := by
  rw [IsSound, not_or, Int.not_le, not_exists]
  simp only [not_and]

/-- The money in a wallet, by the name of its variable. -/
theorem balance_eq {name : String} (hname : w.variableName = some name) (env : Environment) :
    w.balance env =
      match env.lookup none name with
      | some (.value (.int n)) => n
      | _ => 0 := by
  rw [balance, hname]
  rfl

/-- No write makes a sound wallet unsound, whoever makes it. -/
theorem IsSound.write {viewer : Option String} {k : String} {x : Stored} (h : w.IsSound env)
    (hwrite : env.write viewer k x = .ok env') : w.IsSound env' := by
  rcases h with hempty | ⟨name, hname, hadmits⟩
  · cases hname : w.variableName with
    | none =>
      refine .inl ?_
      rw [balance, hname]
      exact Int.le_refl 0
    | some name =>
      rw [balance_eq hname] at hempty
      rcases Environment.lookup_nobody_write hwrite name with hsame | ⟨v, hv, hadmits⟩
      · refine .inl ?_
        rw [balance_eq hname, hsame]
        exact hempty
      · -- If the new value is an integer, others can be written too; if not, it is no money.
        cases v with
        | int n =>
          refine .inr ⟨name, hname, ?_⟩
          rw [Environment.write_manifest hwrite]
          exact hadmits.of_type rfl
        | bool b =>
          refine .inl (Int.le_of_eq ?_)
          rw [balance_eq hname, hv]
        | str s =>
          refine .inl (Int.le_of_eq ?_)
          rw [balance_eq hname, hv]
  · refine .inr ⟨name, hname, ?_⟩
    rwa [Environment.write_manifest hwrite]

theorem IsSound.writeAll {viewer : Option String} {entries : List (String × Value)}
    (h : w.IsSound env) : w.IsSound (Stage.writeAll viewer env entries).2 := by
  induction entries generalizing env with
  | nil => exact h
  | cons e rest ih =>
    rw [Stage.writeAll]
    split
    · exact h
    · next hwrite => exact ih (h.write hwrite)

theorem IsSound.commit (h : w.IsSound env) (stage : Stage) : w.IsSound (stage.commit env).2.1 := by
  have hall : w.IsSound (Stage.writeAll stage.viewer env stage.pending.entries).2 := h.writeAll
  rw [Stage.commit]
  split
  · next hwrites => rwa [hwrites] at hall
  · next hwrites => rwa [hwrites] at hall

/-- Only the variable of a wallet decides. -/
theorem isSound_congr {left : Wallet} (h : left.variableKey = w.variableKey) :
    left.IsSound env ↔ w.IsSound env := by
  rw [IsSound, IsSound, balance, balance, variableName, variableName, h]

end Wallet

/-! ## Commits -/

/-- Scripts do not recover from a fault, unless it is the refusal of the variable of a wallet that was
not sound. -/
def Fault.IsFinal (w : Wallet) (env : Environment) (fault : Fault) : Prop :=
  fault.IsRecoverable →
    ¬ w.IsSound env ∧ ∃ name cause, w.variableName = some name ∧ fault = .scope ⟨name, cause⟩

/-- A world has the declarations and the wallet of an earlier one, and the wallet is sound if it was
sound then. -/
structure World.Carries (w : Wallet) (env : Environment) (world : World) : Prop where
  manifest : world.env.manifest = env.manifest
  wallet : ∃ left : Wallet, world.economy = some (.wallet left) ∧ left.variableKey = w.variableKey
  sound : w.IsSound env → w.IsSound world.env

variable {w : Wallet} {env : Environment}

/-- An operation fails with final faults only, and what it leaves is in order. -/
structure Contained {α σ : Type} (w : Wallet) (env : Environment) (P : σ → Prop)
    (x : Except Fault α × σ) : Prop where
  fault : ∀ fault, x.1 = .error fault → fault.IsFinal w env
  left : P x.2

namespace Contained

variable {α β σ : Type} {P : σ → Prop} {s : σ}

theorem ok {a : α} (h : P s) : Contained w env P ((.ok a : Except Fault α), s) :=
  ⟨fun _ hfault => (nomatch hfault), h⟩

theorem error {fault : Fault} (hfault : fault.IsFinal w env) (h : P s) :
    Contained w env P ((.error fault : Except Fault α), s) :=
  ⟨fun _ hsame => Except.error.inj hsame ▸ hfault, h⟩

/-- An operation ended with a final fault, or it is gone on with. -/
theorem ended {x : Except Fault α × σ} (h : Contained w env P x) :
    (∃ fault s, x = (.error fault, s) ∧ fault.IsFinal w env ∧ P s) ∨
      ∃ a s, x = (.ok a, s) ∧ P s := by
  obtain ⟨answer, left⟩ := x
  cases answer with
  | error fault => exact .inl ⟨fault, left, rfl, h.fault fault rfl, h.left⟩
  | ok a => exact .inr ⟨a, left, rfl, h.left⟩

/-- A fault stays the same whatever is made of values. -/
theorem map {answer : Except Fault α} {f : α → β} (h : Contained w env P (answer, s)) :
    Contained w env P (answer.map f, s) := by
  cases answer with
  | error fault => exact error (h.fault fault rfl) h.left
  | ok a => exact ok h.left

end Contained

/-- A payment fails only as a write of the wallet's variable, and of a sound wallet not at all. -/
theorem Wallet.spend_contained {left : Wallet} {now : Environment}
    (hmanifest : now.manifest = env.manifest) (hkey : left.variableKey = w.variableKey)
    (hsound : w.IsSound env → w.IsSound now) {amount : Nat} (hamount : 0 < amount) :
    Contained w env (fun e => e.manifest = env.manifest ∧ (w.IsSound env → w.IsSound e))
      (left.spend now amount) := by
  rw [Wallet.spend]
  split
  · exact .ok ⟨hmanifest, hsound⟩
  · next name hname =>
    split
    · exact .ok ⟨hmanifest, hsound⟩
    · next henough =>
      split
      · next fault hwrite =>
        refine .error (fun _ => ?_) ⟨hmanifest, hsound⟩
        have hnot : ¬ now.manifest.Admits none name (.int (left.balance now - amount)) := by
          intro hadmits
          obtain ⟨after, hafter⟩ := Environment.exists_write_iff.2 hadmits
          rw [hwrite] at hafter
          cases hafter
        obtain ⟨cause, hcause⟩ := Environment.write_refused hnot
        obtain rfl : fault = .scope ⟨name, cause⟩ :=
          Except.error.inj (hwrite.symm.trans hcause)
        refine ⟨fun hw => ?_, name, cause, ?_, rfl⟩
        · -- There is something in the wallet, so that a sound one could write its variable.
          rcases (isSound_congr hkey).2 (hsound hw) with hempty | ⟨other, hother, hadmits⟩
          · omega
          · obtain rfl : name = other := Option.some.inj (hname.symm.trans hother)
            exact hnot (hadmits.of_type rfl)
        · rw [← hname, variableName, variableName, hkey]
      · next after hwrite =>
        exact .ok ⟨(Environment.write_manifest hwrite).trans hmanifest,
          fun hw => (hsound hw).write hwrite⟩

namespace World

variable {world : World} {economy : Economy}

/-- A wallet stays the same whatever requests it lists. -/
theorem Carries.after (h : world.Carries w env) (heconomy : world.economy = some economy)
    (requests : List Request) : Carries w env ⟨world.env, some (economy.after requests)⟩ := by
  obtain ⟨left, hwallet, hkey⟩ := h.wallet
  obtain rfl : economy = .wallet left := Option.some.inj (heconomy.symm.trans hwallet)
  exact ⟨h.manifest, ⟨_, rfl, hkey⟩, h.sound⟩

end World

/-- Placeholders cannot be replaced only where one stands for something that is no text. -/
theorem Scene.substitute_contained {P : Scene → Prop} (scene : Scene) (lore : Option Lore)
    (text : String) (h : P (scene.substitute lore text).2) :
    Contained w env P (scene.substitute lore text) := by
  refine ⟨fun fault hfault => ?_, h⟩
  simp only [substitute] at hfault
  split at hfault
  · cases hfault
    exact False.elim
  · cases hfault

namespace Parties

variable {scene : Scene} {turn : Turn} (p : Parties)

theorem charge_contained (h : scene.world.Carries w env) {total : Nat} (htotal : total ≠ 0) :
    Contained w env (fun s => s.world.Carries w env) (p.charge total scene) := by
  obtain ⟨left, hwallet, hkey⟩ := h.wallet
  have hscene : scene.economy = some (.wallet left) := hwallet
  rw [charge, hscene]
  dsimp only
  rw [Economy.balance]
  dsimp only
  split
  · exact .error False.elim ⟨h.manifest, ⟨left, rfl, hkey⟩, h.sound⟩
  · exact .ok ⟨h.manifest, ⟨left, rfl, hkey⟩, h.sound⟩
  · have hspend := Wallet.spend_contained h.manifest hkey h.sound (Nat.pos_of_ne_zero htotal)
    exact ⟨hspend.fault, hspend.left.1, ⟨left, rfl, hkey⟩, hspend.left.2⟩

/-- Gifts and offers fail only where a placeholder stands for something that is no text. -/
theorem perform_contained (h : scene.world.Carries w env) (effect : Effect) :
    Contained w env (fun s => s.world.Carries w env) (p.perform effect scene) := by
  obtain ⟨left, hwallet, -⟩ := h.wallet
  have hscene : scene.economy = some (.wallet left) := hwallet
  unfold perform
  cases effect with
  | spend amount => exact .ok h
  | offer item =>
    simp only [hscene]
    refine .ok ?_
    rw [tell_world]
    exact (Economy.offer_snd _ item) ▸ h.after hwallet [.offer item]
  | give item message =>
    simp only [hscene]
    have hshown : Contained w env (fun s => s.world = scene.world)
        (scene.substitute p.lore message) := scene.substitute_contained p.lore message rfl
    rcases hshown.ended with
      ⟨fault, noted, hended, hfinal, hworld⟩ | ⟨message, noted, hended, hworld⟩
    · rw [hended]
      exact .error hfinal (hworld ▸ h)
    · rw [hended]
      refine .ok ?_
      have hgiven := h.after hwallet [.give p.npc p.player item message]
      rw [← Economy.give_eq, ← hworld] at hgiven
      rw [tell_world]
      exact hgiven

theorem performAll_contained (h : scene.world.Carries w env) (effects : List Effect) :
    Contained w env (fun s => s.world.Carries w env) (p.performAll effects scene) := by
  induction effects generalizing scene with
  | nil => exact .ok h
  | cons effect rest ih =>
    rw [performAll]
    rcases (p.perform_contained h effect).ended with
      ⟨fault, next, hended, hfinal, hnext⟩ | ⟨done, next, hended, hnext⟩
    · rw [hended]
      exact .error hfinal hnext
    · rw [hended]
      exact ih hnext

/-- To apply a turn makes admitted writes, which are not refused. -/
theorem apply_contained (h : scene.world.Carries w env)
    (hadmitted : turn.stage.Admitted env.manifest) :
    Contained w env (fun left => left.2.world.Carries w env) (p.apply turn scene) := by
  have hstage : turn.stage.Admitted scene.env.manifest := h.manifest ▸ hadmitted
  obtain ⟨after, hcommit, hsame, -⟩ := Stage.commit_of_admitted hstage
  have hwritten : World.Carries w env ({ scene with env := after } : Scene).world := by
    refine ⟨hsame.trans h.manifest, h.wallet, fun hw => ?_⟩
    have hcommitted := (h.sound hw).commit turn.stage
    rwa [show scene.world.env = scene.env from rfl, hcommit] at hcommitted
  rw [← p.tellWrites_world turn.stage.pending.entries] at hwritten
  rw [apply, hcommit]
  dsimp only
  rcases (p.performAll_contained hwritten turn.effects).ended with
    ⟨fault, left, hended, hfinal, hleft⟩ | ⟨done, left, hended, hleft⟩
  · rw [hended]
    exact .error hfinal hleft
  · rw [hended]
    exact .ok hleft

/-- A commit fails with final faults only. -/
theorem commit_contained (h : scene.world.Carries w env)
    (hadmitted : turn.stage.Admitted env.manifest) :
    Contained w env (fun left => left.2.world.Carries w env) (p.commit turn scene) := by
  rw [commit]
  split
  · exact p.apply_contained h hadmitted
  · next htotal =>
    rcases (p.charge_contained h htotal).ended with
      ⟨fault, left, hended, hfinal, hleft⟩ | ⟨paid, left, hended, hleft⟩
    · rw [hended]
      exact .error hfinal hleft
    · have htold : ∀ what, (p.tell what left).world.Carries w env := fun what => by
        rw [tell_world]
        exact hleft
      rw [hended]
      cases paid with
      | false => exact .ok (htold _)
      | true => exact p.apply_contained (htold _) hadmitted

/-- A wallet that shows enough money, but whose variable cannot be written, fails the payment and with
it the commit: its variable is refused. -/
theorem commit_unsound {w : Wallet} {name : String} (hname : w.variableName = some name)
    (hadmits : ¬ scene.env.manifest.Admits none name (.int 0)) (htotal : turn.spendTotal ≠ 0)
    (henough : (turn.spendTotal : Int) ≤ w.balance scene.env)
    (hscene : scene.economy = some (.wallet w)) :
    ∃ cause, (p.commit turn scene).1 = .error (.scope ⟨name, cause⟩) := by
  have hnot : ¬ scene.env.manifest.Admits none name
      (.int (w.balance scene.env - turn.spendTotal)) := fun h => hadmits (h.of_type rfl)
  obtain ⟨cause, hwrite⟩ := Environment.write_refused hnot
  have hkey : w.variableKey.isKey = true := by
    rw [Wallet.variableName] at hname
    cases hdocument : w.variableKey with
    | str s => rfl
    | _ =>
      rw [hdocument] at hname
      cases hname
  have henough' : ¬ w.balance scene.env < turn.spendTotal := Int.not_lt.2 henough
  refine ⟨cause, ?_⟩
  rw [commit, if_neg htotal, charge, hscene]
  simp only [Economy.balance, hkey, if_true, Json.isBelow?_int, henough', decide_false,
    Economy.spend, Wallet.spend, hname, if_false, hwrite]

end Parties

end Parley
