import Parley.Proofs.State.Soundness
import Parley.Proofs.Talk.Charge
import Parley.Proofs.Talk.Course

/-!
# Who Writes in a Session

However a session goes and ends, refused, cancelled or with a fault, quest state changes by single
writes only. They are made in the name of nobody, when a wallet pays, in the name of the speaker, when
a turn is committed, or by the presenter while the menu is open.

* `Parties.commit_writtenBy`: a commit writes in the name of nobody and of the viewer of its stage;
* `Cast.Step.writtenBy`: whatever happens in a session, only the writers of its cast write;
* `Session.run_writtenBy`: a session leaves quest state that its writers have made of what was there.
-/

namespace Parley

/-- A payment out of a wallet is a write in nobody's name, if it is made. -/
theorem Wallet.spend_writtenBy (w : Wallet) (env : Environment) (amount : Nat) :
    env.WrittenBy (· = none) (w.spend env amount).2 := by
  unfold spend
  split
  · exact .refl env
  · split
    · exact .refl env
    · split
      · exact .refl env
      · next next hwrite =>
        have hpaid : env.WrittenBy (· = none) next := Environment.writtenBy_of_write rfl hwrite
        exact hpaid

/-- So is a payment of any economy. -/
theorem Economy.spend_writtenBy (economy : Economy) (env : Environment) (player : Json)
    (amount : Nat) : env.WrittenBy (· = none) (economy.spend env player amount).2.1 := by
  cases economy with
  | wallet w => exact w.spend_writtenBy env amount
  | fixed f => exact .refl env

namespace Parties

variable (p : Parties)

@[simp]
theorem tell_env (what : Happening) (scene : Scene) : (p.tell what scene).env = scene.env :=
  congrArg World.env (p.tell_world what scene)

theorem charge_writtenBy (total : Nat) (scene : Scene) :
    scene.env.WrittenBy (· = none) (p.charge total scene).2.env := by
  unfold charge
  split
  · exact .refl _
  · dsimp only
    split
    · exact .refl _
    · exact .refl _
    · exact Economy.spend_writtenBy _ _ _ _

/-- To apply a turn makes its staged writes; gifts and offers write nothing. -/
theorem apply_writtenBy (turn : Turn) (scene : Scene) :
    scene.env.WrittenBy (· = turn.stage.viewer) (p.apply turn scene).2.2.env := by
  have hcommit := turn.stage.commit_writtenBy scene.env
  unfold apply
  split
  · next hwrites =>
    rw [hwrites] at hcommit
    exact hcommit
  · next written env stage hwrites =>
    rw [hwrites] at hcommit
    have henv := (p.performAll_env turn.effects _).trans
      (congrArg World.env (p.tellWrites_world written { scene with env }))
    dsimp only
    split
    · next hperform =>
      rw [hperform] at henv
      exact henv ▸ hcommit
    · next hperform =>
      rw [hperform] at henv
      exact henv ▸ hcommit

/-- A commit writes in the name of nobody and of the viewer of its stage. -/
theorem commit_writtenBy (turn : Turn) (scene : Scene) :
    scene.env.WrittenBy (fun viewer => viewer = none ∨ viewer = turn.stage.viewer)
      (p.commit turn scene).2.2.env := by
  unfold commit
  split
  · exact (p.apply_writtenBy turn scene).mono fun _ => .inr
  · have hcharge : scene.env.WrittenBy (fun viewer => viewer = none ∨ viewer = turn.stage.viewer)
        (p.charge turn.spendTotal scene).2.env :=
      (p.charge_writtenBy turn.spendTotal scene).mono fun _ => .inl
    split
    · next hpaid =>
      rw [hpaid] at hcharge
      exact hcharge
    · next hpaid =>
      rw [hpaid] at hcharge
      rw [tell_env]
      exact hcharge
    · next paid hpaid =>
      rw [hpaid] at hcharge
      have happly := p.apply_writtenBy turn (p.tell (.currencySpent turn.spendTotal) paid)
      rw [tell_env] at happly
      exact hcharge.trans (happly.mono fun _ => .inr)

end Parties

/-- While a menu is open the writes of the presenter are made, up to the first that is refused. -/
theorem Session.writeAll_writtenBy (env : Environment) (writes : List MenuWrite) :
    env.WrittenBy (fun viewer => ∃ w ∈ writes, w.viewer = viewer)
      (Session.writeAll env writes).2 := by
  induction writes generalizing env with
  | nil => exact .refl env
  | cons w rest ih =>
    rw [Session.writeAll]
    split
    · exact .refl env
    · next next hwrite =>
      have hfirst : env.WrittenBy (fun viewer => ∃ w' ∈ w :: rest, w'.viewer = viewer) next :=
        Environment.writtenBy_of_write ⟨w, List.mem_cons_self, rfl⟩ hwrite
      refine hfirst.trans ((ih next).mono ?_)
      rintro viewer ⟨w', hw', hviewer⟩
      exact ⟨w', List.mem_cons_of_mem w hw', hviewer⟩

namespace Cast

variable {c : Cast} {a b : Scene}

/-- Those in whose name a cast writes: nobody, the speaker, and whoever the presenter writes for. -/
def Writer (c : Cast) (viewer : Option String) : Prop :=
  viewer = none ∨ viewer = c.parties.npc ∨ ∃ w ∈ c.writes, w.viewer = viewer

/-- A turn writes in the name of the speaker. -/
theorem Yields.viewer {env : Environment} {turn : Turn} (h : c.Yields env turn) :
    turn.stage.viewer = c.parties.npc := by
  obtain ⟨body, -, dice, w, hrun⟩ := h
  exact (Walk.run_admitted hrun).1

/-- Whatever happens, only the writers of the cast write. -/
theorem Step.writtenBy (h : c.Step a b) : a.env.WrittenBy c.Writer b.env := by
  cases h with
  | note => exact .refl _
  | tell => exact .refl _
  | commit turn hyields =>
    refine (c.parties.commit_writtenBy turn a).mono fun viewer hviewer => ?_
    rcases hviewer with hnobody | hspeaker
    · exact .inl hnobody
    · exact .inr (.inl (hspeaker.trans hyields.viewer))
  | write => exact (Session.writeAll_writtenBy a.env c.writes).mono fun _ => .inr ∘ .inr

end Cast

namespace Session

/-- Those in whose name a session writes: nobody, the speaker, and whoever the presenter writes for. -/
def Writer (s : Session) (viewer : Option String) : Prop :=
  viewer = none ∨ viewer = some s.speaker.id ∨ ∃ w ∈ s.presenter.writes, w.viewer = viewer

/-- However a session goes and ends, only its writers have written to quest state. -/
theorem run_writtenBy (s : Session) : s.scene.env.WrittenBy s.Writer s.run.2.scene.env := by
  have hsteps := s.run_reaches.steps
  generalize s.run.2.scene = scene at hsteps ⊢
  induction hsteps with
  | refl => exact .refl _
  | tail _ hstep ih => exact ih.trans hstep.writtenBy

end Session

end Parley
