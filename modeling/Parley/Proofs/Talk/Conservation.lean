import Mathlib.Algebra.GroupWithZero.Nat
import Parley.Proofs.Talk.Receipts
import Parley.Proofs.Talk.Writers

/-!
# Money Is Conserved

The money of a wallet is a variable of quest state like any other, and a conversation could lose or make
some on any of its ways: a root that pays, an option that pays, a refusal, a fault halfway. We follow
the wallet write by write, and prove that what leaves it is exactly what events say was spent:

* `Environment.Spends` is a sequence of writes that pay amounts out of a variable, each covered by what
  is there, and write nothing else to it;
* `Scene.Accounts` says that a scene comes from another one with such writes, for the amounts that the
  events in between tell of;
* `Parties.commit_accounts`: so does a commit of a turn that does not set the variable;
* `Session.run_accounts`: so does a run of a session whose script does not set the variable;
* `Session.playAll_conserves`: so does every sequence of sessions, whence the law of conservation.
-/

namespace Parley

open Relation

/-! ## What events say was spent -/

/-- The amount that a happening says was spent. -/
def Happening.spent? : Happening → Option Nat
  | .currencySpent amount => some amount
  | _ => none

/-- The amounts that events say were spent, in order. -/
def amountsSpent (events : List TalkEvent) : List Nat :=
  events.filterMap fun e => e.what.spent?

@[simp]
theorem amountsSpent_append (first second : List TalkEvent) :
    amountsSpent (first ++ second) = amountsSpent first ++ amountsSpent second :=
  List.filterMap_append

/-- Whatever is not money is not spent. -/
theorem Happening.spent?_of_kind {what : Happening} (h : what.kind ≠ .currencySpent) :
    what.spent? = none := by
  cases what with
  | currencySpent amount => exact absurd rfl h
  | _ => rfl

namespace Parties

variable {p : Parties}

/-- The news of happenings without money say that nothing was spent. -/
theorem amountsSpent_news {whats : List Happening} (h : ∀ what ∈ whats, what.kind ≠ .currencySpent) :
    amountsSpent (p.news whats) = [] := by
  unfold news
  split
  · refine List.filterMap_eq_nil_iff.2 fun e he => ?_
    obtain ⟨what, hwhat, rfl⟩ := List.mem_map.1 he
    exact Happening.spent?_of_kind (h what hwhat)
  · rfl

/-- The news of a price say that it was spent. -/
theorem amountsSpent_toll (hpublishes : p.publishes = true) (turn : Turn) :
    amountsSpent (p.news turn.toll) = if turn.spendTotal = 0 then [] else [turn.spendTotal] := by
  rw [news, if_pos hpublishes, Turn.toll]
  split <;> rfl

end Parties

/-! ## Paying out of a variable -/

namespace Environment

/-- One state comes from another by writes that take amounts out of an integer variable, each covered
by what is there, and otherwise leave the variable alone. -/
inductive Spends (name : String) (env : Environment) : List Nat → Environment → Prop
  | refl : Spends name env [] env
  /-- Another variable is written. -/
  | aside {amounts : List Nat} {now after : Environment} {viewer : Option String} {k : String}
      {x : Stored} (h : Spends name env amounts now) (hk : name ≠ k)
      (hwrite : now.write viewer k x = .ok after) : Spends name env amounts after
  /-- A positive amount is paid. -/
  | pay {amounts : List Nat} {now after : Environment} {amount : Nat} {funds : Int}
      (h : Spends name env amounts now) (hamount : 0 < amount) (henough : (amount : Int) ≤ funds)
      (hfunds : now.lookup none name = some (.value (.int funds)))
      (hwrite : now.write none name (.value (.int (funds - amount))) = .ok after) :
      Spends name env (amounts ++ [amount]) after

variable {env env' env'' : Environment} {name : String} {first second : List Nat}

theorem Spends.trans (h : env.Spends name first env') (h' : env'.Spends name second env'') :
    env.Spends name (first ++ second) env'' := by
  induction h' with
  | refl => rwa [List.append_nil]
  | aside _ hk hwrite ih => exact .aside ih hk hwrite
  | pay _ hamount henough hfunds hwrite ih =>
    rw [← List.append_assoc]
    exact .pay ih hamount henough hfunds hwrite

theorem Spends.pos (h : env.Spends name first env') : ∀ amount ∈ first, 0 < amount := by
  induction h with
  | refl => exact List.forall_mem_nil _
  | aside _ _ _ ih => exact ih
  | pay _ hamount _ _ _ ih =>
    intro amount hmem
    rcases List.mem_append.1 hmem with hearlier | hlast
    · exact ih amount hearlier
    · exact List.mem_singleton.1 hlast ▸ hamount

/-- A write to another variable does not change what nobody in particular sees of this one. -/
theorem lookup_nobody_write_of_ne {viewer : Option String} {k : String} {x : Stored}
    (h : env.write viewer k x = .ok env') (hk : name ≠ k) :
    env'.lookup none name = env.lookup none name := by
  obtain ⟨d, v, -, rfl⟩ := write_eq_ok_iff.1 h
  have hglobals : (env.store viewer d k v).globals.get? name = env.globals.get? name := by
    unfold store
    split
    · rw [OrderedMap.get?_insert, if_neg hk]
    · rfl
    · rfl
  simp only [lookup, store_manifest, hglobals]
  -- nobody in particular sees no entry of a speaker
  cases env.manifest.get? name with
  | none => rfl
  | some declared => cases hscope : declared.scope <;> simp only [hscope]

/-- What was paid is missing from the variable, and nothing else. -/
theorem Spends.lookup {funds : Int} (h : env.Spends name first env')
    (hfunds : env.lookup none name = some (.value (.int funds))) :
    env'.lookup none name = some (.value (.int (funds - first.sum))) := by
  induction h with
  | refl => simpa using hfunds
  | aside _ hk hwrite ih => rw [lookup_nobody_write_of_ne hwrite hk, ih]
  | @pay amounts now after amount held _ _ _ hheld hwrite ih =>
    -- the wallet looked at the very sum that earlier payments left
    have hsame : held = funds - amounts.sum := by
      rw [hheld] at ih
      simpa using ih
    rw [lookup_write hwrite, if_pos rfl, hsame, List.sum_append, List.sum_singleton,
      Int.natCast_add]
    congr 3
    omega

/-- One state comes from another by writes, after each of which a property holds. -/
def WrittenWhile (P : Environment → Prop) : Environment → Environment → Prop :=
  ReflTransGen fun before after => (∃ viewer name x, before.write viewer name x = .ok after) ∧ P after

/-- Money that was not owed at the start is not owed after any write. -/
theorem Spends.solvent {funds : Int} (h : env.Spends name first env')
    (hfunds : env.lookup none name = some (.value (.int funds))) (hstart : 0 ≤ funds) :
    env.WrittenWhile (fun now => ∃ n, 0 ≤ n ∧ now.lookup none name = some (.value (.int n))) env' ∧
      0 ≤ funds - first.sum := by
  induction h with
  | refl => exact ⟨.refl, by simpa using hstart⟩
  | @aside amounts now after viewer k x hspends hk hwrite ih =>
    have hafter := (Spends.aside hspends hk hwrite).lookup hfunds
    exact ⟨ih.1.tail ⟨⟨viewer, k, x, hwrite⟩, _, ih.2, hafter⟩, ih.2⟩
  | @pay amounts now after amount held hspends hamount henough hheld hwrite ih =>
    have hafter := (Spends.pay hspends hamount henough hheld hwrite).lookup hfunds
    have hsame : held = funds - amounts.sum := by
      have hnow := hspends.lookup hfunds
      rw [hheld] at hnow
      simpa using hnow
    have hleft : 0 ≤ funds - ((amounts ++ [amount]).sum : Nat) := by
      rw [List.sum_append, List.sum_singleton, Int.natCast_add]
      omega
    exact ⟨ih.1.tail ⟨⟨none, name, _, hwrite⟩, _, hleft, hafter⟩, hleft⟩

end Environment

/-! ## Payments and staged writes -/

/-- A payment that a wallet answers with yes is covered and taken out of its variable. -/
theorem Wallet.spend_spends {w : Wallet} {env : Environment} {name : String} {amount : Nat}
    {funds : Int} (hname : w.variableName = some name)
    (hfunds : env.lookup none name = some (.value (.int funds))) (hamount : 0 < amount)
    (h : (w.spend env amount).1 = .ok true) : env.Spends name [amount] (w.spend env amount).2 := by
  have hbalance : w.balance env = funds := Wallet.balance_of_lookup hname hfunds
  simp only [spend, hname, hbalance] at h ⊢
  split at h
  · cases h
  · next henough =>
    rw [if_neg henough]
    split at h
    · cases h
    · next after hwrite =>
      exact .pay .refl hamount (Int.not_lt.1 henough) hfunds hwrite

/-- The price of a turn is taken out of the wallet, if it is paid. -/
theorem Parties.Pays.spends {p : Parties} {total : Nat} {before : World} {charged : Environment}
    {w : Wallet} {name : String} {funds : Int} (h : p.Pays total before charged)
    (heconomy : before.economy = some (.wallet w)) (hname : w.variableName = some name)
    (hfunds : before.env.lookup none name = some (.value (.int funds))) :
    before.env.Spends name (if total = 0 then [] else [total]) charged := by
  unfold Parties.Pays at h
  split at h
  · next htotal =>
    rw [if_pos htotal, h]
    exact .refl
  · next htotal =>
    rw [if_neg htotal]
    obtain ⟨economy, hecon, hanswer, rfl⟩ := h
    obtain rfl : Economy.wallet w = economy := Option.some.inj (heconomy.symm.trans hecon)
    exact Wallet.spend_spends hname hfunds (Nat.pos_of_ne_zero htotal) hanswer

namespace Stage

variable {stage : Stage} {name : String}

theorem writeAll_spends (viewer : Option String) (env : Environment)
    {entries : List (String × Value)} (h : name ∉ entries.map Prod.fst) :
    env.Spends name [] (writeAll viewer env entries).2 := by
  induction entries generalizing env with
  | nil => exact .refl
  | cons e rest ih =>
    rw [List.map_cons, List.mem_cons, not_or] at h
    rw [writeAll]
    split
    · exact .refl
    · next next hwrite =>
      have hfirst : env.Spends name [] next := .aside .refl h.1 hwrite
      exact hfirst.trans (ih next h.2)

/-- A stage pays nothing out of a variable that it does not hold. -/
theorem commit_spends (h : stage.pending.get? name = none) (env : Environment) :
    env.Spends name [] (stage.commit env).2.1 := by
  have hname : name ∉ stage.pending.entries.map Prod.fst := by
    intro hmem
    obtain ⟨e, he, rfl⟩ := List.mem_map.1 hmem
    have hheld : stage.pending.get? e.1 = some e.2 := OrderedMap.get?_eq_some_iff.2 he
    rw [h] at hheld
    cases hheld
  have hall := writeAll_spends stage.viewer env hname
  rw [commit]
  split
  · next hwrites => rwa [hwrites] at hall
  · next hwrites => rwa [hwrites] at hall

end Stage

/-! ## Scenes -/

/-- A scene has a wallet, and a sum in the wallet's variable. -/
structure Scene.Purse (scene : Scene) (name : String) (funds : Int) : Prop where
  wallet : ∃ w : Wallet, scene.economy = some (.wallet w) ∧ w.variableName = some name
  funds : scene.env.lookup none name = some (.value (.int funds))

/-- On the way from one scene to another only the amounts that events tell of left the variable. -/
def Scene.Accounts (name : String) (before after : Scene) : Prop :=
  before.Requested after ∧ ∃ events, after.events = before.events ++ events ∧
    before.env.Spends name (amountsSpent events) after.env

namespace Scene

variable {a b c : Scene} {name : String} {funds : Int}

theorem Accounts.refl (scene : Scene) : scene.Accounts name scene :=
  ⟨requested_of_eq rfl, [], by simp, .refl⟩

theorem Accounts.trans (hab : a.Accounts name b) (hbc : b.Accounts name c) : a.Accounts name c := by
  obtain ⟨hfirst, earlier, hearlier, hpaid⟩ := hab
  obtain ⟨hsecond, later, hlater, hrest⟩ := hbc
  refine ⟨hfirst.trans hsecond, earlier ++ later, ?_, ?_⟩
  · rw [hlater, hearlier, List.append_assoc]
  · rw [amountsSpent_append]
    exact hpaid.trans hrest

/-- A purse stays a purse, less what was spent. -/
theorem Accounts.purse (h : a.Accounts name b) (ha : a.Purse name funds) :
    ∃ left, b.Purse name left := by
  obtain ⟨hrequested, events, -, hspends⟩ := h
  obtain ⟨w, hw, hname⟩ := ha.wallet
  obtain ⟨left, hleft, hkey⟩ := hrequested.wallet hw
  refine ⟨_, ⟨left, hleft, ?_⟩, hspends.lookup ha.funds⟩
  rw [← hname, Wallet.variableName, Wallet.variableName, hkey]

end Scene

/-- A commit of a turn that does not set the variable of the wallet pays the amounts that it tells of,
whether the turn is performed, refused or fails. -/
theorem Parties.commit_accounts {p : Parties} {turn : Turn} {scene : Scene} {name : String}
    {funds : Int} (hpublishes : p.publishes = true) (hpurse : scene.Purse name funds)
    (hpending : turn.stage.pending.get? name = none) :
    scene.Accounts name (p.commit turn scene).2.2 := by
  refine ⟨p.commit_requested turn scene, ?_⟩
  have hends := p.commit_ends turn scene
  generalize (p.commit turn scene).1 = answer at hends
  generalize (p.commit turn scene).2.2 = after at hends ⊢
  cases hends with
  | failed fault hprice hkept hevents =>
    have henv : after.env = scene.env := hkept.env
    exact ⟨[], by rw [hevents, List.append_nil], henv ▸ .refl⟩
  | refused hprice hkept hevents =>
    have henv : after.env = scene.env := hkept.env
    refine ⟨_, hevents, ?_⟩
    rw [amountsSpent_news (by simp [Happening.kind]), henv]
    exact .refl
  | applied charged hpays hmanifest happlies =>
    obtain ⟨w, hw, hname⟩ := hpurse.wallet
    obtain ⟨written, items, -, hitems, hevents⟩ := happlies.events
    have hpaid := hpays.spends (w := w) hw hname hpurse.funds
    have hstaged := Stage.commit_spends hpending charged
    -- only the price is money, of all that is told
    have hset : amountsSpent (p.news (told written)) = [] := amountsSpent_news (by
      intro what hwhat
      obtain ⟨e, -, rfl⟩ := List.mem_map.1 hwhat
      simp [Happening.kind])
    have hmoved : amountsSpent (p.news items) = [] := amountsSpent_news (by
      intro what hwhat
      rcases hitems what hwhat with hkind | hkind <;> simp [hkind])
    refine ⟨p.news turn.toll ++ p.news (told written) ++ p.news items, ?_, ?_⟩
    · rw [hevents]
      simp only [List.append_assoc]
    · rw [amountsSpent_append, amountsSpent_append, hset, hmoved, amountsSpent_toll hpublishes,
        happlies.env, List.append_nil]
      exact hpaid.trans hstaged

/-! ## Sessions -/

/-- A cast leaves a variable to the wallet: the script does not set it, the presenter writes nothing,
and commits make their events known. -/
structure Cast.Spares (c : Cast) (name : String) : Prop where
  publishes : c.parties.publishes = true
  quiet : c.writes = []
  script : ∀ value, .assign name value ∉ c.script.walk

theorem Cast.Step.accounts {c : Cast} {a b : Scene} {name : String} {funds : Int} (h : c.Step a b)
    (hspares : c.Spares name) (hpurse : a.Purse name funds) : a.Accounts name b := by
  cases h with
  | note notices => exact ⟨Scene.requested_of_eq rfl, [], by simp [Scene.noteAll], .refl⟩
  | tell what hown =>
    refine ⟨Scene.requested_of_eq rfl, [⟨c.parties.npc, what⟩], rfl, ?_⟩
    have hnone : what.spent? = none := Happening.spent?_of_kind fun hmoney => by
      rw [hmoney] at hown
      cases hown
    simp only [amountsSpent, List.filterMap_cons, hnone, List.filterMap_nil]
    exact .refl
  | commit turn hyields =>
    obtain ⟨body, hbody, dice, w, hrun⟩ := hyields
    exact Parties.commit_accounts hspares.publishes hpurse
      (Script.pending_of_run hbody hrun hspares.script)
  | write =>
    rw [hspares.quiet]
    exact Scene.Accounts.refl a

namespace Session

/-- However a session ends, it pays the amounts that it tells of. -/
theorem run_accounts {s : Session} {name : String} {funds : Int} (hspares : s.cast.Spares name)
    (hpurse : s.scene.Purse name funds) : s.scene.Accounts name s.run.2.scene := by
  have hsteps := s.run_reaches.steps
  generalize s.run.2.scene = scene at hsteps ⊢
  induction hsteps with
  | refl => exact .refl _
  | tail _ hstep ih =>
    -- the purse of the start is still one where the step begins, with another sum in it
    obtain ⟨left, hleft⟩ := ih.purse hpurse
    exact ih.trans (hstep.accounts hspares hleft)

/-- The session on another scene. -/
def withScene (s : Session) (scene : Scene) : Session :=
  { s with scene }

/-- The scene after sessions were run one after the other, each on the scene that the one before it
left, also if it left it with a fault. -/
def playAll (sessions : List Session) (scene : Scene) : Scene :=
  sessions.foldl (fun scene s => (s.withScene scene).run.2.scene) scene

/-- Sessions pay the amounts that they tell of, one after the other. -/
theorem playAll_accounts {sessions : List Session} {scene : Scene} {name : String} {funds : Int}
    (hspares : ∀ s ∈ sessions, s.cast.Spares name) (hpurse : scene.Purse name funds) :
    scene.Accounts name (playAll sessions scene) := by
  induction sessions generalizing scene funds with
  | nil => exact .refl scene
  | cons s rest ih =>
    have hfirst : scene.Accounts name (s.withScene scene).run.2.scene :=
      run_accounts (hspares s List.mem_cons_self) hpurse
    obtain ⟨left, hleft⟩ := hfirst.purse hpurse
    exact hfirst.trans (ih (fun t ht => hspares t (List.mem_cons_of_mem s ht)) hleft)

/-- Money is conserved. Sessions are run one after the other on one scene, whose wallet has its money in
a variable that no script sets and no presenter writes. Then the sum at the end is the sum at the start
less the amounts that events say were spent. All of these are positive. If nothing is owed at the start
then nothing is owed after any single write, nor at the end. -/
theorem playAll_conserves {sessions : List Session} {scene : Scene} {w : Wallet} {name : String}
    {funds : Int} (heconomy : scene.economy = some (.wallet w)) (hname : w.variableName = some name)
    (hfunds : scene.env.lookup none name = some (.value (.int funds)))
    (hspares : ∀ s ∈ sessions, s.cast.Spares name) :
    ∃ events, (playAll sessions scene).events = scene.events ++ events ∧
      (playAll sessions scene).env.lookup none name =
        some (.value (.int (funds - (amountsSpent events).sum))) ∧
      (∀ amount ∈ amountsSpent events, 0 < amount) ∧
      (0 ≤ funds →
        scene.env.WrittenWhile (fun env => ∃ n, 0 ≤ n ∧ env.lookup none name = some (.value (.int n)))
          (playAll sessions scene).env ∧
        0 ≤ funds - (amountsSpent events).sum) := by
  obtain ⟨-, events, hevents, hspends⟩ := playAll_accounts hspares ⟨⟨w, heconomy, hname⟩, hfunds⟩
  exact ⟨events, hevents, hspends.lookup hfunds, hspends.pos, hspends.solvent hfunds⟩

/-- The player buys twice for four coins, and would buy a third time. -/
def purchases : List Session :=
  [purchase, purchase, purchase]

/-- Out of ten coins two purchases can be paid, and two coins are left. -/
theorem playAll_conserves_of_purchases :
    purchase.scene.env.lookup none "PLAYER_WALLET" = some (.value (.int 10)) ∧
    (∀ s ∈ purchases, s.cast.Spares "PLAYER_WALLET") ∧
    ∃ events, (playAll purchases purchase.scene).events = purchase.scene.events ++ events ∧
      amountsSpent events = [4, 4] ∧
      (playAll purchases purchase.scene).env.lookup none "PLAYER_WALLET" =
        some (.value (.int 2)) := by
  have hspares : ∀ s ∈ purchases, s.cast.Spares "PLAYER_WALLET" := by
    intro s hs
    obtain rfl : s = purchase := by simpa [purchases] using hs
    refine ⟨rfl, rfl, ?_⟩
    simp [Session.cast, purchase, start, Script.walk, Statement.walkBody, Statement.walk]
  have hspent : amountsSpent (playAll purchases purchase.scene).events = [4, 4] := by
    decide +kernel
  have heconomy : purchase.scene.economy = some (.wallet {}) := rfl
  have hfunds : purchase.scene.env.lookup none "PLAYER_WALLET" = some (.value (.int 10)) := rfl
  obtain ⟨events, hevents, hleft, -⟩ := playAll_conserves heconomy rfl hfunds hspares
  have hamounts : amountsSpent events = [4, 4] := by
    rw [hevents] at hspent
    exact hspent
  rw [hamounts] at hleft
  exact ⟨hfunds, hspares, events, hevents, hamounts, hleft⟩

end Session

end Parley
