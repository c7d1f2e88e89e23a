import Parley.Proofs.Talk.Commit

/-!
# Commits on Worlds

Whether a commit succeeds, and what it does to quest state and to the economy, does not depend on the
events and notices that were collected before it. A commit can therefore be looked at as a step
between worlds:

* `Parties.settle` is the answer of a commit with the world that it leaves;
* `Parties.commit_settle`: every commit answers and leaves what `settle` says of the world that it
  starts from, and the turn that it answers has the same options;
* `Parties.kept_of_refused`: a refused commit keeps all variables and items.
-/

namespace Parley

/-- Two answers with scenes are alike if the answers are equal and the scenes agree in what lasts. -/
def Scene.Alike {α : Type} (x y : Except Fault α × Scene) : Prop :=
  x.1 = y.1 ∧ x.2.world = y.2.world

namespace Parties

variable {a b : Scene}

/-- A charge depends on the world alone. -/
theorem charge_congr (p : Parties) (h : a.world = b.world) (total : Nat) :
    Scene.Alike (p.charge total a) (p.charge total b) := by
  obtain ⟨env, economy, events, notices⟩ := a
  obtain ⟨env', economy', events', notices'⟩ := b
  -- The scenes are taken apart, so that they visibly differ in events and notices alone.
  obtain ⟨rfl, rfl⟩ : env = env' ∧ economy = economy' := World.mk.inj h
  cases economy with
  | none => exact ⟨rfl, rfl⟩
  | some economy =>
    simp only [charge]
    split
    · exact ⟨rfl, rfl⟩
    · exact ⟨rfl, rfl⟩
    · exact ⟨rfl, rfl⟩

/-- Performing a side effect depends on the world alone. -/
theorem perform_congr (p : Parties) (h : a.world = b.world) (effect : Effect) :
    Scene.Alike (p.perform effect a) (p.perform effect b) := by
  obtain ⟨env, economy, events, notices⟩ := a
  obtain ⟨env', economy', events', notices'⟩ := b
  obtain ⟨rfl, rfl⟩ : env = env' ∧ economy = economy' := World.mk.inj h
  cases effect with
  | spend amount => exact ⟨rfl, rfl⟩
  | offer item =>
    cases economy with
    | none => exact ⟨rfl, rfl⟩
    | some economy =>
      refine ⟨rfl, ?_⟩
      simp only [perform, tell_world]
      rfl
  | give item message =>
    cases economy with
    | none => exact ⟨rfl, rfl⟩
    | some economy =>
      -- The text is replaced alike in both scenes; only the notes about it go to different lists.
      simp only [perform, Scene.substitute]
      by_cases hforeign : ((Placeholder.find message).any fun token =>
        (p.lore.bind fun l => l.resolve token).any fun m => !m.isText) = true
      · rw [if_pos hforeign]
        exact ⟨rfl, rfl⟩
      · rw [if_neg hforeign]
        refine ⟨rfl, ?_⟩
        simp only [tell_world]
        rfl

/-- Performing side effects depends on the world alone. -/
theorem performAll_congr (p : Parties) (h : a.world = b.world) (effects : List Effect) :
    Scene.Alike (p.performAll effects a) (p.performAll effects b) := by
  induction effects generalizing a b with
  | nil => exact ⟨rfl, h⟩
  | cons effect rest ih =>
    have hfirst := p.perform_congr h effect
    rw [performAll, performAll]
    -- The two runs are at the same answer and the same world after the first effect.
    generalize p.perform effect a = x at hfirst ⊢
    generalize p.perform effect b = y at hfirst ⊢
    obtain ⟨answer, a'⟩ := x
    obtain ⟨answer', b'⟩ := y
    obtain ⟨rfl, hworld⟩ : answer = answer' ∧ a'.world = b'.world := hfirst
    cases answer with
    | error fault => exact ⟨rfl, hworld⟩
    | ok done => exact ih hworld

/-- Applying a turn depends on the world alone. -/
theorem apply_congr (p : Parties) (h : a.world = b.world) (turn : Turn) :
    (p.apply turn a).1 = (p.apply turn b).1 ∧
      (p.apply turn a).2.2.world = (p.apply turn b).2.2.world := by
  have henv : a.env = b.env := congrArg World.env h
  have hecon : a.economy = b.economy := congrArg World.economy h
  rw [apply, apply, ← henv]
  -- Both scenes commit the stage to the same quest state.
  obtain ⟨answer, env, stage⟩ := turn.stage.commit a.env
  have hwritten : ({ a with env } : Scene).world = ({ b with env } : Scene).world :=
    congrArg (fun e => (⟨env, e⟩ : World)) hecon
  cases answer with
  | error fault => exact ⟨rfl, hwritten⟩
  | ok written =>
    have hperformed := p.performAll_congr
      ((p.tellWrites_world written _).trans (hwritten.trans (p.tellWrites_world written _).symm))
      turn.effects
    dsimp only
    generalize p.performAll turn.effects _ = x at hperformed ⊢
    generalize p.performAll turn.effects _ = y at hperformed ⊢
    obtain ⟨answer, a'⟩ := x
    obtain ⟨answer', b'⟩ := y
    obtain ⟨rfl, hworld⟩ : answer = answer' ∧ a'.world = b'.world := hperformed
    cases answer with
    | error fault => exact ⟨rfl, hworld⟩
    | ok done => exact ⟨rfl, hworld⟩

/-- A commit depends on the world alone. -/
theorem commit_congr (p : Parties) (h : a.world = b.world) (turn : Turn) :
    (p.commit turn a).1 = (p.commit turn b).1 ∧
      (p.commit turn a).2.2.world = (p.commit turn b).2.2.world := by
  have hcharge := p.charge_congr h turn.spendTotal
  rw [commit, commit]
  split
  · exact p.apply_congr h turn
  · generalize p.charge turn.spendTotal a = x at hcharge ⊢
    generalize p.charge turn.spendTotal b = y at hcharge ⊢
    obtain ⟨answer, a'⟩ := x
    obtain ⟨answer', b'⟩ := y
    obtain ⟨rfl, hworld⟩ : answer = answer' ∧ a'.world = b'.world := hcharge
    have htold : ∀ what, (p.tell what a').world = (p.tell what b').world := fun what => by
      rw [tell_world, tell_world, hworld]
    cases answer with
    | error fault => exact ⟨rfl, hworld⟩
    | ok done =>
      cases done with
      | false => exact ⟨rfl, htold _⟩
      | true => exact p.apply_congr (htold _) turn

/-- The answer to the commit of a turn, and what the commit makes of a world. -/
def settle (p : Parties) (turn : Turn) (w : World) : Except Fault CommitResult × World :=
  -- A scene in which nothing has happened yet stands for all scenes of this world.
  let bare : Scene := { env := w.env, economy := w.economy }
  ((p.commit turn bare).1, (p.commit turn bare).2.2.world)

variable {p : Parties} {turn left : Turn} {scene after : Scene}

/-- A commit answers what it answers on the world of the scene, and leaves what it leaves there. -/
theorem commit_settle {answer : Except Fault CommitResult}
    (h : p.commit turn scene = (answer, left, after)) :
    p.settle turn scene.world = (answer, after.world) := by
  have hcongr := p.commit_congr (a := { env := scene.env, economy := scene.economy }) (b := scene)
    rfl turn
  rw [h] at hcongr
  exact Prod.ext hcongr.1 hcongr.2

/-- Applying a turn changes nothing of the turn but its stage. -/
theorem apply_left (p : Parties) (turn : Turn) (scene : Scene) :
    (p.apply turn scene).2.1 = { turn with stage := (p.apply turn scene).2.1.stage } := by
  rw [apply]
  split
  · rfl
  · dsimp only
    split <;> rfl

/-- A commit changes nothing of a turn but its stage. -/
theorem commit_left (p : Parties) (turn : Turn) (scene : Scene) :
    (p.commit turn scene).2.1 = { turn with stage := (p.commit turn scene).2.1.stage } := by
  rw [commit]
  split
  · exact p.apply_left turn scene
  · split
    · rfl
    · rfl
    · exact p.apply_left turn _

/-- A turn that is applied is not refused any more. -/
theorem apply_ne_refused (p : Parties) (turn : Turn) (scene : Scene) :
    (p.apply turn scene).1 ≠ .ok .refused := by
  rw [apply]
  split
  · simp
  · dsimp only
    split <;> simp

/-- A refused commit keeps all variables and items. -/
theorem kept_of_refused {before after : World}
    (h : p.settle turn before = (.ok .refused, after)) : before.Kept after := by
  have hanswer := congrArg Prod.fst h
  have hworld := congrArg Prod.snd h
  simp only [settle] at hanswer hworld
  subst hworld
  rw [commit] at hanswer ⊢
  by_cases htotal : turn.spendTotal = 0
  · rw [if_pos htotal] at hanswer
    exact absurd hanswer (p.apply_ne_refused turn _)
  · rw [if_neg htotal] at hanswer ⊢
    rcases p.charge_cases htotal { env := before.env, economy := before.economy } with
      ⟨charged, paid, hcharge, -⟩ | ⟨answer, paid, hcharge, hrefused, hkept⟩
    · -- A charge that was taken leads to an applied turn, which is not refused.
      rw [hcharge] at hanswer
      exact absurd hanswer (p.apply_ne_refused turn _)
    · rw [hcharge] at hanswer ⊢
      cases answer with
      | error fault => cases hanswer
      | ok done =>
        cases done with
        | false =>
          rw [tell_world]
          exact hkept
        | true => exact absurd rfl hrefused

end Parties

end Parley
