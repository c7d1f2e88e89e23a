import Parley.State.Evaluation
import Parley.State.Stage

/-!
# Scripted Quest State

Quest state may hold any document, but scripts only ever write script values, and a manifest that was
read declares only them. Quest state that starts with script values therefore never shows anything
else, neither directly nor through a stage.

## Main results

* `Manifest.isTyped_ofJson`: the initial values that a manifest declares are of their own types;
* `Environment.IsScripted.write`: quest state stays scripted whatever is written;
* `Stage.isScripted_lookup`: only script values are seen through a stage.
-/

namespace Parley

/-! ## Initial values -/

namespace Manifest

variable {m : Manifest}

/-- Every variable is declared with an initial value of its type. -/
def IsTyped (m : Manifest) : Prop :=
  ∀ name d, m.get? name = some d → ∃ v, d.initial = .value v ∧ v.type = d.type

theorem isTyped_empty : IsTyped .empty := by
  intro name d hd
  cases hd

/-- A declaration that is read has an initial value of its type. -/
theorem initial_of_declaration {name : String} {entry : Json} {d : Declaration}
    (h : declaration name entry = .ok d) : ∃ v, d.initial = .value v ∧ v.type = d.type := by
  rw [declaration] at h
  split at h
  · split at h
    · cases h
      exact ⟨_, rfl, Value.type_initial _⟩
    · -- A default that is given is compared with the type before it is taken.
      split at h
      · cases h
      · next v _ =>
        split at h
        · next htype =>
          cases h
          exact ⟨v, rfl, htype⟩
        · cases h
  · cases h

theorem IsTyped.declareAll {entries : List (String × Json)} (hm : m.IsTyped) {m' : Manifest}
    (h : m.declareAll entries = .ok m') : m'.IsTyped := by
  induction entries generalizing m with
  | nil =>
    cases h
    exact hm
  | cons e rest ih =>
    obtain ⟨name, entry⟩ := e
    rw [Manifest.declareAll] at h
    cases hd : declaration name entry with
    | error fault =>
      rw [hd] at h
      cases h
    | ok d =>
      rw [hd] at h
      refine ih ?_ h
      intro k other hother
      rw [get?, declare, OrderedMap.get?_insert] at hother
      split at hother
      · rw [← Option.some.inj hother]
        exact initial_of_declaration hd
      · exact hm k other hother

/-- A manifest that is read declares initial values of their types. -/
theorem isTyped_ofJson {document : Json} {schemas : SchemaChecker}
    (h : ofJson document schemas = .ok m) : m.IsTyped := by
  rw [ofJson] at h
  split at h
  · split at h
    · exact isTyped_empty.declareAll h
    · cases h
  · cases h

end Manifest

/-! ## Stored values -/

/-- Only script values are looked up. -/
def Lookup.IsScripted (look : Lookup) : Prop :=
  ∀ name x, look name = some x → ∃ v, x = .value v

/-- Variables that hold script values only. -/
def Variables.IsScripted (m : Variables) : Prop :=
  ∀ name x, m.get? name = some x → ∃ v, x = .value v

/-- Quest state that holds script values only. -/
structure Environment.IsScripted (env : Environment) : Prop where
  globals : env.globals.IsScripted
  speakers : ∀ npc m, env.speakers.get? npc = some m → Variables.IsScripted m

theorem Variables.isScripted_empty : Variables.IsScripted .empty := by
  intro name x hx
  cases hx

theorem Variables.IsScripted.insert {m : Variables} (h : m.IsScripted) (name : String) (v : Value) :
    Variables.IsScripted (OrderedMap.insert m name (.value v)) := by
  intro k x hx
  rw [OrderedMap.get?_insert] at hx
  split at hx
  · exact ⟨v, (Option.some.inj hx).symm⟩
  · exact h k x hx

namespace Environment

variable {env : Environment}

theorem IsScripted.speakerVariables (h : env.IsScripted) (npc : String) :
    (env.speakerVariables npc).IsScripted := by
  rw [Environment.speakerVariables]
  cases hown : env.speakers.get? npc with
  | none => exact Variables.isScripted_empty
  | some m => exact h.speakers npc m hown

theorem IsScripted.store (h : env.IsScripted) (viewer : Option String) (d : Declaration)
    (name : String) (v : Value) : (env.store viewer d name v).IsScripted := by
  unfold Environment.store
  split
  · exact ⟨h.globals.insert name v, h.speakers⟩
  · -- A write of a speaker touches the variables of this speaker only.
    next npc _ =>
    refine ⟨h.globals, fun other m hm => ?_⟩
    rw [OrderedMap.get?_insert] at hm
    split at hm
    · rw [← Option.some.inj hm]
      exact (h.speakerVariables npc).insert name v
    · exact h.speakers other m hm
  · exact h

/-- Scripted quest state stays scripted after a write. -/
theorem IsScripted.write {env' : Environment} {viewer : Option String} {name : String} {x : Stored}
    (h : env.IsScripted) (hwrite : env.write viewer name x = .ok env') : env'.IsScripted := by
  rw [Environment.write] at hwrite
  split at hwrite
  · cases hwrite
  · next d v _ =>
    rw [← Except.ok.inj hwrite]
    exact h.store viewer d name v

/-- Scripted quest state shows everybody nothing but script values. -/
theorem IsScripted.lookup (h : env.IsScripted) (hmanifest : env.manifest.IsTyped)
    (viewer : Option String) : Lookup.IsScripted (env.lookup viewer) := by
  -- Where the variables hold nothing, the initial value shows.
  have hshown : ∀ {m : Variables} {d : Declaration} {name : String} {x : Stored}, m.IsScripted →
      env.manifest.get? name = some d → some ((m.get? name).getD d.initial) = some x →
      ∃ v, x = .value v := by
    intro m d name x hm hd hx
    rw [← Option.some.inj hx]
    cases hown : m.get? name with
    | none => exact (hmanifest name d hd).imp fun _ hv => hv.1
    | some y => exact hm name y hown
  intro name x hx
  rw [Environment.lookup] at hx
  split at hx
  · exact h.globals name x hx
  · next d hd =>
    split at hx
    · exact hshown h.globals hd hx
    · exact hshown Variables.isScripted_empty hd hx
    · next _ npc _ => exact hshown (h.speakerVariables npc) hd hx

end Environment

/-- So does a stage, which holds script values by its type. -/
theorem Stage.isScripted_lookup {env : Environment} (h : env.IsScripted)
    (hmanifest : env.manifest.IsTyped) (stage : Stage) :
    Lookup.IsScripted (stage.lookup env) := by
  intro name x hx
  rw [Stage.lookup] at hx
  split at hx
  · next v _ => exact ⟨v, (Option.some.inj hx).symm⟩
  · exact h.lookup hmanifest stage.viewer name x hx

end Parley
