import Parley.Proofs.State.Refinement
import Parley.Proofs.Talk.Course
import Parley.Proofs.Talk.Game

/-!
# What a Conversation Can See

A conversation reads quest state from the view of its speaker, and the player's purse from the view of
nobody. Both show global variables and the speaker's own entry; what other speakers remember plays no
part, and neither does the order in which speakers came to have entries. We prove:

* `Environment.SameFor`: two states look the same to a speaker, and go on looking the same when the
  same is written to both;
* `Scene.Twin.commit`: a commit on two scenes whose quest state looks the same answers, tells and notes
  the same, and leaves states that look the same again.
-/

namespace Parley

/-- Two operations match: they answer the same, and what they leave is related. -/
structure Matches {α σ : Type} (R : σ → σ → Prop) (x y : α × σ) : Prop where
  answer : y.1 = x.1
  left : R x.2 y.2

/-- The answer of two matching operations, with what each of them leaves. -/
theorem Matches.split {α σ : Type} {R : σ → σ → Prop} {x y : α × σ} (h : Matches R x y) :
    ∃ answer left left', x = (answer, left) ∧ y = (answer, left') ∧ R left left' :=
  ⟨x.1, x.2, y.2, rfl, Prod.ext h.answer rfl, h.left⟩

/-! ## Quest state as one speaker sees it -/

namespace Environment

/-- Two states look the same to a speaker. -/
structure SameFor (npc : String) (a b : Environment) : Prop where
  manifest : b.manifest = a.manifest
  globals : b.globals = a.globals
  entry : b.speakers.get? npc = a.speakers.get? npc

namespace SameFor

variable {npc : String} {a b : Environment}

theorem speakerVariables (h : a.SameFor npc b) :
    b.speakerVariables npc = a.speakerVariables npc := by
  rw [Environment.speakerVariables, Environment.speakerVariables, h.entry]

/-- The speaker reads the same in both, and so does nobody. -/
theorem lookup (h : a.SameFor npc b) {viewer : Option String}
    (hviewer : viewer = some npc ∨ viewer = none) (name : String) :
    b.lookup viewer name = a.lookup viewer name := by
  rw [Environment.lookup, Environment.lookup, h.manifest, h.globals]
  split
  · rfl
  · next d _ =>
    cases d.scope with
    | global => rfl
    | speaker =>
      rcases hviewer with rfl | rfl
      · simp only [h.speakerVariables]
      · rfl

/-- Whoever stores something, in whatever scope, both states go on looking the same. -/
theorem store (h : a.SameFor npc b) (viewer : Option String) (d : Declaration) (name : String)
    (v : Value) : (a.store viewer d name v).SameFor npc (b.store viewer d name v) := by
  have hmanifest : (b.store viewer d name v).manifest = (a.store viewer d name v).manifest := by
    rw [store_manifest, store_manifest, h.manifest]
  refine ⟨hmanifest, ?_, ?_⟩
  · unfold Environment.store
    split
    · simp only [h.globals]
    · exact h.globals
    · exact h.globals
  · unfold Environment.store
    split
    · exact h.entry
    · next writer _ =>
      -- the variables of another writer may differ, but then so does the entry that is asked for
      rw [OrderedMap.get?_insert, OrderedMap.get?_insert]
      by_cases hwriter : npc = writer
      · subst hwriter
        rw [if_pos rfl, if_pos rfl, h.speakerVariables]
      · rw [if_neg hwriter, if_neg hwriter]
        exact h.entry
    · exact h.entry

/-- A write is allowed in both states or refused in both for the same reason. -/
theorem write (h : a.SameFor npc b) (viewer : Option String) (name : String) (x : Stored) :
    (∃ fault, a.write viewer name x = .error fault ∧ b.write viewer name x = .error fault) ∨
      ∃ a' b', a.write viewer name x = .ok a' ∧ b.write viewer name x = .ok b' ∧
        a'.SameFor npc b' := by
  have hcheck : b.checkWrite viewer name x = a.checkWrite viewer name x :=
    checkWrite_congr h.manifest x
  unfold Environment.write
  rw [hcheck]
  cases a.checkWrite viewer name x with
  | error fault => exact .inl ⟨fault, rfl, rfl⟩
  | ok checked => exact .inr ⟨_, _, rfl, rfl, h.store viewer checked.1 name checked.2⟩

/-- Writes made in order match. -/
theorem writeAll (h : a.SameFor npc b) (writes : List MenuWrite) :
    Matches (SameFor npc) (Session.writeAll a writes) (Session.writeAll b writes) := by
  induction writes generalizing a b with
  | nil => exact ⟨rfl, h⟩
  | cons w rest ih =>
    rw [Session.writeAll, Session.writeAll]
    rcases h.write w.viewer w.name w.value with ⟨fault, ha, hb⟩ | ⟨a', b', ha, hb, hnext⟩
    · rw [ha, hb]
      exact ⟨rfl, h⟩
    · rw [ha, hb]
      exact ih hnext

end SameFor

end Environment

/-- The staged writes of a viewer are made like those of a presenter. -/
theorem Stage.writeAll_eq (viewer : Option String) (env : Environment)
    (entries : List (String × Value)) :
    Stage.writeAll viewer env entries =
      Session.writeAll env (entries.map fun e => ⟨viewer, e.1, .value e.2⟩) := by
  induction entries generalizing env with
  | nil => rfl
  | cons e rest ih =>
    rw [Stage.writeAll, List.map_cons, Session.writeAll]
    cases env.write viewer e.1 (.value e.2) with
    | error fault => rfl
    | ok next => exact ih next

/-- The same stage is committed alike to states that look the same. -/
theorem Environment.SameFor.commit {npc : String} {a b : Environment} (h : a.SameFor npc b)
    (stage : Stage) :
    Matches (fun x y => SameFor npc x.1 y.1 ∧ y.2 = x.2) (stage.commit a) (stage.commit b) := by
  have hwrites := h.writeAll (stage.pending.entries.map fun e => ⟨stage.viewer, e.1, .value e.2⟩)
  rw [← Stage.writeAll_eq, ← Stage.writeAll_eq] at hwrites
  unfold Stage.commit
  obtain ⟨answer, a', b', ha, hb, hleft⟩ := hwrites.split
  rw [ha, hb]
  cases answer with
  | error fault => exact ⟨rfl, hleft, rfl⟩
  | ok made => exact ⟨rfl, hleft, rfl⟩

/-! ## Commits -/

/-- Two scenes differ in quest state only, and look the same to a speaker. -/
inductive Scene.Twin (npc : String) (a : Scene) : Scene → Prop
  | intro {env : Environment} (h : a.env.SameFor npc env) : Twin npc a { a with env }

namespace Environment.SameFor

variable {npc : String} {a b : Environment}

/-- The purse is a variable that nobody's view shows. -/
theorem walletBalance (h : a.SameFor npc b) (w : Wallet) : w.balance b = w.balance a := by
  have hlookup : b.lookup none = a.lookup none := funext (h.lookup (.inr rfl))
  rw [Wallet.balance, Wallet.balance, hlookup]

theorem balance (h : a.SameFor npc b) (economy : Economy) (player : Json) :
    economy.balance b player = economy.balance a player := by
  cases economy with
  | wallet w => rw [Economy.balance, Economy.balance, h.walletBalance]
  | fixed f => rfl

theorem walletSpend (h : a.SameFor npc b) (w : Wallet) (amount : Nat) :
    Matches (SameFor npc) (w.spend a amount) (w.spend b amount) := by
  unfold Wallet.spend
  split
  · exact ⟨rfl, h⟩
  · next name _ =>
    rw [h.walletBalance]
    split
    · exact ⟨rfl, h⟩
    · rcases h.write none name (.value (.int (w.balance a - amount))) with
        ⟨fault, ha, hb⟩ | ⟨a', b', ha, hb, hpaid⟩
      · rw [ha, hb]
        exact ⟨rfl, h⟩
      · rw [ha, hb]
        exact ⟨rfl, hpaid⟩

/-- A payment is asked for and made alike in states that look the same. -/
theorem spend (h : a.SameFor npc b) (economy : Economy) (player : Json) (amount : Nat) :
    Matches (fun x y => SameFor npc x.1 y.1 ∧ y.2 = x.2) (economy.spend a player amount)
      (economy.spend b player amount) := by
  cases economy with
  | wallet w =>
    obtain ⟨hanswer, hleft⟩ := h.walletSpend w amount
    exact ⟨hanswer, hleft, rfl⟩
  | fixed f => exact ⟨rfl, h, rfl⟩

end Environment.SameFor

namespace Scene.Twin

variable {npc : String} {a b : Scene} (p : Parties)

theorem env (h : a.Twin npc b) : a.env.SameFor npc b.env := by
  cases h with
  | intro h => exact h

theorem tell (h : a.Twin npc b) (what : Happening) : (p.tell what a).Twin npc (p.tell what b) := by
  cases h with
  | intro h =>
    unfold Parties.tell
    split
    · exact .intro h
    · exact .intro h

/-- A price is asked for and paid alike. -/
theorem charge (h : a.Twin npc b) (total : Nat) :
    Matches (Scene.Twin npc) (p.charge total a) (p.charge total b) := by
  cases h with
  | intro h =>
    -- the scene is taken apart, so that its economy can be told apart from the rest
    obtain ⟨env, economy, events, notices⟩ := a
    cases economy with
    | none => exact ⟨rfl, .intro h⟩
    | some economy =>
      unfold Parties.charge
      dsimp only at h ⊢
      rw [h.balance]
      split
      · exact ⟨rfl, .intro h⟩
      · exact ⟨rfl, .intro h⟩
      · obtain ⟨answer, left, left', ha, hb, hsame, heconomy⟩ :=
          (h.spend (economy.balance env p.player).2 p.player total).split
        rw [ha, hb]
        refine ⟨rfl, ?_⟩
        dsimp only
        rw [heconomy]
        exact .intro hsame

/-- To replace the economy does not touch quest state. -/
theorem withEconomy (h : a.Twin npc b) (economy : Option Economy) :
    Scene.Twin npc { a with economy } { b with economy } := by
  cases h with
  | intro h => exact .intro h

theorem substitute (h : a.Twin npc b) (lore : Option Lore) (text : String) :
    Matches (Scene.Twin npc) (a.substitute lore text) (b.substitute lore text) := by
  cases h with
  | intro h => exact ⟨rfl, .intro h⟩

theorem economy (h : a.Twin npc b) : b.economy = a.economy := by
  cases h with
  | intro h => rfl

/-- Gifts and offers do not look at quest state at all. -/
theorem perform (h : a.Twin npc b) (effect : Effect) :
    Matches (Scene.Twin npc) (p.perform effect a) (p.perform effect b) := by
  rw [Parties.perform.eq_def, Parties.perform.eq_def, h.economy]
  split
  · exact ⟨rfl, h⟩
  · cases h with
    | intro h => exact ⟨rfl, .intro h⟩
  · cases h with
    | intro h => exact ⟨rfl, .intro h⟩
  · next message economy _ =>
    obtain ⟨answer, a', b', ha, hb, hworded⟩ := (h.substitute p.lore message).split
    rw [ha, hb]
    cases answer with
    | error fault => exact ⟨rfl, hworded⟩
    | ok message => exact ⟨rfl, (hworded.withEconomy _).tell p _⟩
  · exact ⟨rfl, (h.withEconomy _).tell p _⟩

/-- Side effects are performed alike, up to the first that fails. -/
theorem performAll (h : a.Twin npc b) (effects : List Effect) :
    Matches (Scene.Twin npc) (p.performAll effects a) (p.performAll effects b) := by
  induction effects generalizing a b with
  | nil => exact ⟨rfl, h⟩
  | cons effect rest ih =>
    rw [Parties.performAll, Parties.performAll]
    obtain ⟨answer, a', b', ha, hb, hleft⟩ := (h.perform p effect).split
    rw [ha, hb]
    cases answer with
    | error fault => exact ⟨rfl, hleft⟩
    | ok done => exact ih hleft

/-- Writes are told alike. -/
theorem tellWrites (h : a.Twin npc b) (written : List (String × Value)) :
    Scene.Twin npc (written.foldl (fun scene w => p.tell (.variableSet w.1 w.2) scene) a)
      (written.foldl (fun scene w => p.tell (.variableSet w.1 w.2) scene) b) := by
  induction written generalizing a b with
  | nil => exact h
  | cons w rest ih => exact ih (h.tell p _)

/-- A turn is applied alike. -/
theorem apply (h : a.Twin npc b) (turn : Turn) :
    Matches (Matches (Scene.Twin npc)) (p.apply turn a) (p.apply turn b) := by
  obtain ⟨answer, ⟨env, stage⟩, ⟨env', stage'⟩, ha, hb, hsame, rfl⟩ := (h.env.commit turn.stage).split
  cases h with
  | intro h =>
    unfold Parties.apply
    dsimp only at hb ⊢
    rw [ha, hb]
    cases answer with
    | error fault => exact ⟨rfl, rfl, .intro hsame⟩
    | ok written =>
      have hmade : Scene.Twin npc { a with env } { a with env := env' } := .intro hsame
      obtain ⟨answer, a', b', ha', hb', hleft⟩ :=
        ((hmade.tellWrites p written).performAll p turn.effects).split
      dsimp only at hb' ⊢
      rw [ha', hb']
      cases answer with
      | error fault => exact ⟨rfl, rfl, hleft⟩
      | ok done => exact ⟨rfl, rfl, hleft⟩

/-- A turn is committed alike in scenes that look the same to a speaker. -/
theorem commit (h : a.Twin npc b) (turn : Turn) :
    Matches (Matches (Scene.Twin npc)) (p.commit turn a) (p.commit turn b) := by
  unfold Parties.commit
  split
  · exact h.apply p turn
  · obtain ⟨answer, a', b', ha, hb, hleft⟩ := (h.charge p turn.spendTotal).split
    rw [ha, hb]
    cases answer with
    | error fault => exact ⟨rfl, rfl, hleft⟩
    | ok paid =>
      cases paid with
      | false => exact ⟨rfl, rfl, hleft.tell p _⟩
      | true => exact (hleft.tell p _).apply p turn

end Scene.Twin

end Parley
