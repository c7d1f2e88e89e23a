import Parley.Proofs.Answer
import Parley.Proofs.Talk.Display
import Parley.Proofs.Talk.Escape
import Parley.Proofs.Talk.Isolation

/-!
# A Session Is Run Once

A session that was run refuses to run again, and changes nothing in doing so. The phase that tells it
so is entered only after the root was committed, though: where the root or its commit fails, the session
is as idle as before, and plays once more. We prove:

* `Session.run_phase_idle_iff`: a run leaves its session idle exactly if its root fails
  (`Session.FailsAtRoot`);
* `Session.run_once_iff`: exactly then is a second run not refused, and it tells of another start.
-/

namespace Parley.Session

/-- The session would be run, and its root, or the commit of its root, fails. -/
def FailsAtRoot (s : Session) : Prop :=
  s.phase = .idle ∧ s.script.disabled = false ∧ ∃ fault, s.started.settleRoot.1 = .error fault

variable {s : Session}

/-- A session is idle after its run exactly if its root failed. -/
theorem run_phase_idle_iff (s : Session) : s.run.2.phase = .idle ↔ s.FailsAtRoot := by
  by_cases hidle : s.phase = .idle
  · rw [run_of_idle hidle]
    cases hdisabled : s.script.disabled with
    | true =>
      rw [play_of_disabled hdisabled]
      refine iff_of_false (fallBack_goesOn s.started).phase fun hroot => ?_
      rw [hroot.2.1] at hdisabled
      cases hdisabled
    | false =>
      have hfront := congrArg Front.phase (settleRoot_front s.started)
      rw [play_of_enabled hdisabled]
      rcases hsettled : s.started.settleRoot with ⟨fault | shown, left⟩
      · rw [hsettled] at hfront
        exact iff_of_true (hfront.trans hidle) ⟨hidle, hdisabled, fault, by rw [hsettled]⟩
      · -- from here on the session is in other phases
        refine iff_of_false (proceed_phase Phase.noConfusion shown.1 shown.2) ?_
        rintro ⟨-, -, fault, hfault⟩
        rw [hsettled] at hfault
        cases hfault
  · rw [run_of_not_idle hidle]
    exact iff_of_false hidle fun hroot => hidle hroot.1

/-- A session that is played tells that it started before anything else. -/
theorem play_events (s : Session) :
    ∃ events, s.play.2.scene.events =
      s.scene.events ++ ⟨some s.speaker.id, .sessionStarted s.script.archetype⟩ :: events := by
  obtain ⟨events, hevents⟩ := Cast.steps_events (started_reaches s).steps
  refine ⟨events, hevents.trans ?_⟩
  simp [started, publish, Scene.publish]

/-- A session is run at most once, unless its root fails. A second run is refused and changes nothing
at all, if and only if the first one did not end with the fault of the root or of its commit. Where it
did, the second run starts the conversation once more, and tells so. Whatever else a run may end with, a
fault of the presenter or of the commit of an option, comes later and makes no difference. -/
theorem run_once_iff (s : Session) :
    (s.run.2.run = (.error (.alreadyRan s.speaker.id), s.run.2) ↔ ¬ s.FailsAtRoot) ∧
    ((∃ events, s.run.2.run.2.scene.events = s.run.2.scene.events ++
        ⟨some s.speaker.id, .sessionStarted s.script.archetype⟩ :: events) ↔ s.FailsAtRoot) := by
  have hcast := s.run_reaches.cast
  have hspeaker : s.run.2.speaker.id = s.speaker.id :=
    Option.some.inj (congrArg (fun c => c.parties.npc) hcast)
  have hscript : s.run.2.script = s.script := congrArg Cast.script hcast
  by_cases hroot : s.FailsAtRoot
  · -- the session is as idle as before, so that it plays
    have hagain : s.run.2.run = s.run.2.play := run_of_idle ((run_phase_idle_iff s).2 hroot)
    have htold : ∃ events, s.run.2.run.2.scene.events = s.run.2.scene.events ++
        ⟨some s.speaker.id, .sessionStarted s.script.archetype⟩ :: events := by
      rw [hagain, ← hspeaker, ← hscript]
      exact play_events s.run.2
    refine ⟨⟨fun hrefused => ?_, fun h => absurd hroot h⟩, fun _ => hroot, fun _ => htold⟩
    obtain ⟨events, hevents⟩ := htold
    rw [hrefused] at hevents
    simp at hevents
  · have hrefused : s.run.2.run = (.error (.alreadyRan s.speaker.id), s.run.2) := by
      rw [run_of_not_idle (mt (run_phase_idle_iff s).1 hroot), hspeaker]
    refine ⟨⟨fun _ => hroot, fun _ => hrefused⟩, fun ⟨events, hevents⟩ => ?_, fun h => absurd h hroot⟩
    rw [hrefused] at hevents
    simp at hevents

/-- Somebody whose script asks for money, where the player's money was restored under a name that
nobody declared. -/
def unclaimedPurchase (script : Script) : Session :=
  start script { id := "npc_1", archetype := "npc" } none {} {} { source := .scripted [] }
    { env := unclaimed, economy := some (.wallet {}) }

/-- Such a conversation ends with a fault of the commit of its root, and can be held again. -/
theorem runs_again_of_unclaimed :
    ∃ script, Script.parse "(spend 1)" "npc" = .ok script ∧
      (unclaimedPurchase script).run.2.run ≠
        (.error (.alreadyRan "npc_1"), (unclaimedPurchase script).run.2) := by
  have hstarts : ((Script.parse "(spend 1)" "npc").toOption.map fun script =>
      ((unclaimedPurchase script).run.2.scene.events.length,
        (unclaimedPurchase script).run.2.run.2.scene.events.length)) = some (1, 2) := by
    decide +kernel
  obtain ⟨script, hparse, hevents⟩ := exists_of_toOption_map hstarts
  obtain ⟨hfirst, hsecond⟩ := Prod.mk.inj hevents
  refine ⟨script, hparse, fun hrefused => ?_⟩
  rw [hrefused, hfirst] at hsecond
  cases hsecond

end Parley.Session
