import Mathlib.Logic.Relation
import Parley.Proofs.State.Scripted
import Parley.Proofs.State.Stage

/-!
# Sound Quest State

Quest state is *sound* for its declarations if every variable lies in the scope that it is declared for
and holds a value of its declared type. Nothing but restored state can make it unsound: writes are
checked one by one, and whatever makes several of them, a stage or a whole conversation, is a sequence
of single writes (`Environment.WrittenBy`).

## Main results

* `Environment.IsSound.write`: a write keeps quest state sound, whoever makes it;
* `Environment.IsSound.writtenBy`: so does any sequence of writes;
* `Environment.IsSound.lookup`: everybody then sees a declared variable with a value of its type;
* `Stage.lookup_of_isSound`: and so does everybody who looks through a stage.
-/

namespace Parley

open Relation

/-- A variable is declared for a scope and with the type of a value. -/
def Manifest.Owns (m : Manifest) (scope : Scope) (name : String) (x : Stored) : Prop :=
  ∃ d v, m.get? name = some d ∧ d.scope = scope ∧ x = .value v ∧ v.type = d.type

/-- All variables belong to a scope and hold values of their types. -/
def Variables.AreOwned (own : Variables) (m : Manifest) (scope : Scope) : Prop :=
  ∀ name x, own.get? name = some x → m.Owns scope name x

/-- Both scopes hold only what is declared for them. -/
structure Snapshot.IsSound (s : Snapshot) (m : Manifest) : Prop where
  globals : s.globals.AreOwned m .global
  speakers : ∀ npc own, s.speakers.get? npc = some own → Variables.AreOwned own m .speaker

/-- Quest state holds only what its declarations admit. -/
def Environment.IsSound (env : Environment) : Prop :=
  env.snapshot.IsSound env.manifest

/-- A stored value shows a declaration's type. -/
def Declaration.Shows (d : Declaration) (x : Option Stored) : Prop :=
  ∃ v, x = some (.value v) ∧ v.type = d.type

variable {m : Manifest} {scope : Scope}

namespace Variables

variable {own : Variables}

theorem areOwned_empty : Variables.AreOwned .empty m scope := by
  intro name x h
  cases h

/-- Variables stay owned when one of them gets a value of its declared type. -/
theorem AreOwned.insert {d : Declaration} {name : String} {v : Value} (h : own.AreOwned m scope)
    (hd : m.get? name = some d) (hscope : d.scope = scope) (htype : v.type = d.type) :
    Variables.AreOwned (OrderedMap.insert own name (.value v)) m scope := by
  intro k x hk
  rw [OrderedMap.get?_insert] at hk
  split at hk
  · next hname =>
    rw [hname, ← Option.some.inj hk]
    exact ⟨d, v, hd, hscope, rfl, htype⟩
  · exact h k x hk

/-- An owned variable holds a value of its type, or nothing yet, and then its initial value shows. -/
theorem AreOwned.shows {d : Declaration} {name : String} (h : own.AreOwned m scope)
    (htyped : m.IsTyped) (hd : m.get? name = some d) :
    d.Shows (some ((own.get? name).getD d.initial)) := by
  cases hown : own.get? name with
  | none =>
    obtain ⟨v, hv, htype⟩ := htyped name d hd
    exact ⟨v, congrArg some hv, htype⟩
  | some x =>
    obtain ⟨declared, v, hdeclared, -, rfl, htype⟩ := h name x hown
    rw [hd] at hdeclared
    obtain rfl : d = declared := Option.some.inj hdeclared
    exact ⟨v, rfl, htype⟩

end Variables

namespace Environment

variable {env env' : Environment} {viewer : Option String} {name : String}

theorem isSound_empty (m : Manifest) : IsSound { manifest := m } := by
  refine ⟨Variables.areOwned_empty, ?_⟩
  intro npc own h
  cases h

theorem IsSound.speakerVariables (h : env.IsSound) (npc : String) :
    (env.speakerVariables npc).AreOwned env.manifest .speaker := by
  unfold Environment.speakerVariables
  cases hown : env.speakers.get? npc with
  | none => exact Variables.areOwned_empty
  | some own => exact h.speakers npc own hown

/-- A checked value keeps quest state sound wherever its declaration puts it. -/
theorem IsSound.store {d : Declaration} {v : Value} (h : env.IsSound)
    (hd : env.manifest.get? name = some d) (htype : v.type = d.type) :
    (env.store viewer d name v).IsSound := by
  unfold Environment.store
  split
  · next hscope => exact ⟨h.globals.insert hd hscope htype, h.speakers⟩
  · next npc hscope =>
    refine ⟨h.globals, ?_⟩
    intro k own hk
    -- Only the variables of the speaker who writes are other ones than before.
    have hk' : (env.speakers.insert npc
        (OrderedMap.insert (env.speakerVariables npc) name (.value v))).get? k = some own := hk
    rw [OrderedMap.get?_insert] at hk'
    split at hk'
    · rw [← Option.some.inj hk']
      exact (h.speakerVariables npc).insert hd hscope htype
    · exact h.speakers k own hk'
  · exact h

/-- A write keeps quest state sound, whoever makes it. -/
theorem IsSound.write {x : Stored} (h : env.IsSound) (hwrite : env.write viewer name x = .ok env') :
    env'.IsSound := by
  obtain ⟨d, v, hcheck, rfl⟩ := write_eq_ok_iff.1 hwrite
  obtain ⟨hd, -, htype, -⟩ := checkWrite_eq_ok_iff.1 hcheck
  exact h.store hd htype

/-- Quest state stays sound when a speaker is forgotten. -/
theorem IsSound.forget (h : env.IsSound) (npc : String) : (env.forget npc).IsSound := by
  refine ⟨h.globals, ?_⟩
  intro k own hk
  have hk' : (env.speakers.erase npc).get? k = some own := hk
  rw [OrderedMap.get?_erase] at hk'
  split at hk'
  · cases hk'
  · exact h.speakers k own hk'

/-- In sound quest state every view shows a declared variable with a value of its type. -/
theorem IsSound.lookup {d : Declaration} (h : env.IsSound) (htyped : env.manifest.IsTyped)
    (viewer : Option String) (hd : env.manifest.get? name = some d) :
    d.Shows (env.lookup viewer name) := by
  unfold Environment.lookup
  simp only [hd]
  split
  · exact Variables.AreOwned.shows h.globals htyped hd
  · -- Nobody in particular sees the initial value of a variable of speakers.
    have hempty : Variables.AreOwned .empty env.manifest .speaker := Variables.areOwned_empty
    exact hempty.shows htyped hd
  · next npc _ => exact (h.speakerVariables npc).shows htyped hd

/-! ## Sequences of writes -/

/-- One state comes from another by writes, each made in the name of one of `who`. -/
def WrittenBy (who : Option String → Prop) : Environment → Environment → Prop :=
  ReflTransGen fun before after =>
    ∃ viewer name x, who viewer ∧ before.write viewer name x = .ok after

variable {who : Option String → Prop}

theorem WrittenBy.refl (env : Environment) : env.WrittenBy who env :=
  ReflTransGen.refl

theorem WrittenBy.trans {a b c : Environment} (hab : a.WrittenBy who b) (hbc : b.WrittenBy who c) :
    a.WrittenBy who c :=
  ReflTransGen.trans hab hbc

theorem WrittenBy.mono {who' : Option String → Prop} (h : env.WrittenBy who env')
    (hwho : ∀ viewer, who viewer → who' viewer) : env.WrittenBy who' env' := by
  induction h with
  | refl => exact .refl env
  | tail _ hstep ih =>
    obtain ⟨viewer, name, x, hviewer, hwrite⟩ := hstep
    exact ReflTransGen.tail ih ⟨viewer, name, x, hwho viewer hviewer, hwrite⟩

/-- A single write is a sequence of writes. -/
theorem writtenBy_of_write {x : Stored} (hviewer : who viewer)
    (h : env.write viewer name x = .ok env') : env.WrittenBy who env' :=
  ReflTransGen.single ⟨viewer, name, x, hviewer, h⟩

/-- Writes leave the declarations alone. -/
theorem WrittenBy.manifest (h : env.WrittenBy who env') : env'.manifest = env.manifest := by
  induction h with
  | refl => rfl
  | tail _ hstep ih =>
    obtain ⟨viewer, name, x, -, hwrite⟩ := hstep
    exact (write_manifest hwrite).trans ih

/-- Sequences of writes keep quest state sound, after each single write. -/
theorem IsSound.writtenBy (h : env.IsSound) (hwritten : env.WrittenBy who env') :
    env'.IsSound := by
  induction hwritten with
  | refl => exact h
  | tail _ hstep ih =>
    obtain ⟨viewer, name, x, -, hwrite⟩ := hstep
    exact ih.write hwrite

end Environment

namespace Stage

variable {stage : Stage} {env : Environment}

/-- The writes of a stage are made in the name of its viewer, also if one of them is refused. -/
theorem writeAll_writtenBy (viewer : Option String) (env : Environment)
    (entries : List (String × Value)) :
    env.WrittenBy (· = viewer) (writeAll viewer env entries).2 := by
  induction entries generalizing env with
  | nil => exact .refl env
  | cons e rest ih =>
    rw [writeAll]
    split
    · exact .refl env
    · next next hwrite =>
      have hfirst : env.WrittenBy (· = viewer) next := Environment.writtenBy_of_write rfl hwrite
      exact hfirst.trans (ih next)

/-- A commit changes quest state by writes of the viewer of the stage alone. -/
theorem commit_writtenBy (stage : Stage) (env : Environment) :
    env.WrittenBy (· = stage.viewer) (stage.commit env).2.1 := by
  have hall := writeAll_writtenBy stage.viewer env stage.pending.entries
  rw [commit]
  split
  · next hwrites => rwa [hwrites] at hall
  · next hwrites => rwa [hwrites] at hall

/-- A commit leaves the stage as it was, or empty. -/
theorem Admitted.commit (h : stage.Admitted m) (env : Environment) :
    (stage.commit env).2.2.Admitted m := by
  rw [Stage.commit]
  split
  · exact admitted_empty stage.viewer m
  · exact h

/-- Through a stage over sound quest state a declared variable shows a value of its type. -/
theorem lookup_of_isSound {d : Declaration} {name : String} (hadmitted : stage.Admitted env.manifest)
    (h : env.IsSound) (htyped : env.manifest.IsTyped) (hd : env.manifest.get? name = some d) :
    d.Shows (stage.lookup env name) := by
  unfold lookup
  cases hpending : stage.pending.get? name with
  | none => exact h.lookup htyped stage.viewer hd
  | some v =>
    obtain ⟨declared, hdeclared, htype, -⟩ := hadmitted name v hpending
    rw [hd] at hdeclared
    obtain rfl : d = declared := Option.some.inj hdeclared
    exact ⟨v, rfl, htype⟩

end Stage

end Parley
