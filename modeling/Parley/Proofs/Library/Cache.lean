import Parley.Proofs.Files.Stem
import Parley.Proofs.Library.History
import Parley.Save.Archive

/-!
# Scripts that Are Asked for

A script is looked up under its archetype, looked for in a file whose path is built from it, and kept
under the stem of that path. A request is served as it ought to be only if these agree:

* `Library.keyOf`: the archetype under which the answer to a request is kept;
* `Library.get_keeps`: every answer is kept there, carries that archetype and changes no other;
* `Library.Serves`: what a request ought to do for the archetype that was asked for;
* `Library.get_serves_iff`: it does so exactly if the two archetypes are the same, that is, for an
  extension like `.dlg`, if the one asked for is there already, or has a name and no slash in it;
* `Library.strays_of_slash`: the answer for an archetype with a slash replaces another script.
-/

namespace Parley

/-- The extension of script files is a dot and what follows it, with no further dot and no slash. -/
def Config.HasPlainExtension (config : Config) : Prop :=
  ∃ ext : String, config.scriptExtension = .str ("." ++ ext) ∧
    ext ≠ "" ∧ '.' ∉ ext.toList ∧ '/' ∉ ext.toList

theorem Load.archetype_of_ofFile {limits : Limits} {tree : FileTree} {path : String} {load : Load}
    (h : Load.ofFile limits tree path = .ok load) : load.archetype = Path.stem path := by
  unfold Load.ofFile at h
  split at h
  · cases h
  · obtain rfl := Except.ok.inj h
    dsimp only
    exact Path.stem_normalize path
  · obtain ⟨-, rfl⟩ := Load.accept_eq_ok_iff.1 h
    dsimp only
    exact Path.stem_normalize path

namespace Library

variable {lib after : Library} {tree : FileTree} {archetype : String} {script : Script}
  {notices : List Notice}

/-- The archetype under which the answer to a request is kept. -/
def keyOf (lib : Library) (archetype : String) : String :=
  if lib.contains archetype then archetype else Path.stem (lib.scriptPath archetype)

/-- A request is served as it ought to be: the script carries the archetype, it is kept, so that it
is not looked for again whatever files there are, and no other archetype is touched. -/
structure Serves (lib after : Library) (archetype : String) (script : Script) : Prop where
  carries : script.archetype = archetype
  kept : after.contains archetype = true
  again : ∀ tree, after.get tree archetype = .ok (after, some script, [])
  others : ∀ other, other ≠ archetype → after.kept other = lib.kept other

theorem contains_iff : lib.contains archetype = true ↔
    ∃ script, lib.scripts.get? archetype = some script := by
  rw [contains, OrderedMap.contains_eq_isSome, Option.isSome_iff_exists]

theorem keyOf_of_cached (h : lib.scripts.get? archetype = some script) :
    lib.keyOf archetype = archetype :=
  if_pos (contains_iff.2 ⟨script, h⟩)

theorem keyOf_of_new (h : lib.scripts.get? archetype = none) :
    lib.keyOf archetype = Path.stem (lib.scriptPath archetype) := by
  refine if_neg fun hcontains => ?_
  obtain ⟨script, hscript⟩ := contains_iff.1 hcontains
  cases h.symm.trans hscript

/-- The answer to a request carries the archetype that it is kept under, and nothing else changes. -/
theorem get_keeps (hkeyed : lib.IsKeyed)
    (hget : lib.get tree archetype = .ok (after, some script, notices)) :
    script.archetype = lib.keyOf archetype ∧
      after.scripts.get? (lib.keyOf archetype) = some script ∧
      ∀ other, other ≠ lib.keyOf archetype → after.kept other = lib.kept other := by
  cases hscript : lib.scripts.get? archetype with
  | some cached =>
    rw [get_of_cached hscript] at hget
    cases hget
    rw [keyOf_of_cached hscript]
    exact ⟨hkeyed archetype script hscript, hscript, fun _ _ => rfl⟩
  | none =>
    rw [keyOf_of_new hscript]
    rw [get_of_new hscript] at hget
    split at hget
    · cases hget
    · rcases lib.loadFile_cases tree (lib.scriptPath archetype) with ⟨fault, hloaded, -⟩ |
        ⟨load, more, hloaded, hload⟩
      · rw [hloaded] at hget
        cases hget
      · rw [hloaded] at hget
        cases hget
        rw [← Load.archetype_of_ofFile hload]
        refine ⟨Load.entry_archetype lib load, ?_, fun other hother => ?_⟩
        · have hkept := kept_take (Load.fits_of_ofFile hload) load.archetype
          rw [if_pos rfl] at hkept
          exact congrArg Prod.fst hkept
        · rw [kept_take (Load.fits_of_ofFile hload), if_neg hother]
    · cases hget

/-- The key of a request is what was asked for if it is there, or is the stem of its path. -/
theorem keyOf_eq_iff : lib.keyOf archetype = archetype ↔
    lib.contains archetype = true ∨ Path.stem (lib.scriptPath archetype) = archetype := by
  rw [keyOf]
  split
  · next h => simp [h]
  · next h => simp [h]

/-- With an extension like `.dlg` an archetype is the stem of its path if it is neither empty nor has
a slash in it. -/
theorem stem_scriptPath_iff (h : lib.config.HasPlainExtension) (archetype : String) :
    Path.stem (lib.scriptPath archetype) = archetype ↔
      archetype ≠ "" ∧ '/' ∉ archetype.toList := by
  obtain ⟨ext, hext, hne, hdot, hslash⟩ := h
  rw [scriptPath, hext]
  exact Path.stem_join_iff lib.config.scriptDir archetype hne hdot hslash

/-- What becomes of a request that is answered with a script. The script carries the archetype that
it is kept under, and nothing is changed for any other one. The request is served as it ought to be,
whatever becomes of the files, exactly if this is the archetype that was asked for. With an extension
like `.dlg` it is, unless the archetype is not there yet and is empty or has a slash in it. -/
theorem get_serves_iff (hkeyed : lib.IsKeyed)
    (hget : lib.get tree archetype = .ok (after, some script, notices)) :
    (script.archetype = lib.keyOf archetype ∧
      after.scripts.get? (lib.keyOf archetype) = some script ∧
      ∀ other, other ≠ lib.keyOf archetype → after.kept other = lib.kept other) ∧
    (Serves lib after archetype script ↔ lib.keyOf archetype = archetype) ∧
    (lib.config.HasPlainExtension → (lib.keyOf archetype = archetype ↔
      lib.contains archetype = true ∨ archetype ≠ "" ∧ '/' ∉ archetype.toList)) := by
  obtain ⟨hcarries, hscript, hothers⟩ := get_keeps hkeyed hget
  -- Where the key is another one, already the script that is given carries the wrong archetype.
  refine ⟨⟨hcarries, hscript, hothers⟩, ⟨fun h => hcarries.symm.trans h.carries, fun hkey => ?_⟩,
    fun hext => ?_⟩
  · rw [hkey] at hcarries hscript hothers
    exact ⟨hcarries, contains_iff.2 ⟨script, hscript⟩, get_of_cached hscript, hothers⟩
  · rw [keyOf_eq_iff, stem_scriptPath_iff hext]

/-- A town with a guard, and another guard that stands at night. -/
def quarter : FileTree where
  nodes := ((OrderedMap.empty.insert "town" .directory).insert "town/guard.dlg"
    (.file (Archive.asciiBytes "(say \"Halt!\")".toList))).insert "guard.night.dlg"
    (.file (Archive.asciiBytes "(say \"Who goes there?\")".toList))

/-- The library of the town, in which a guard was loaded from a text. -/
def quarterLibrary : Library :=
  ({ config := { scriptDir := "." }, manifest := .empty } : Library).after
    [(quarter, .loadString "(say \"Move along.\")" "guard" "<string>")]

theorem isKeyed_quarterLibrary : quarterLibrary.IsKeyed :=
  IsNew.isKeyed_after ⟨rfl, rfl⟩ _

/-- The guard that stands at night is served as it ought to be, dots or not. -/
theorem get_serves_iff_of_night :
    ∃ after script notices, quarterLibrary.IsKeyed ∧
      quarterLibrary.get quarter "guard.night" = .ok (after, some script, notices) ∧
      quarterLibrary.contains "guard.night" = false ∧
      Serves quarterLibrary after "guard.night" script := by
  have hread : ((quarterLibrary.get quarter "guard.night").toOption.map fun answer =>
      (answer.2.1.isSome, quarterLibrary.contains "guard.night",
        quarterLibrary.keyOf "guard.night")) = some (true, false, "guard.night") := by
    decide +kernel
  obtain ⟨⟨after, answer, notices⟩, hget, hanswer⟩ := exists_of_toOption_map hread
  obtain ⟨hsome, hrest⟩ := Prod.mk.inj hanswer
  obtain ⟨hnew, hkey⟩ := Prod.mk.inj hrest
  obtain ⟨script, rfl⟩ := Option.isSome_iff_exists.1 hsome
  exact ⟨after, script, notices, isKeyed_quarterLibrary, hget, hnew,
    (get_serves_iff isKeyed_quarterLibrary hget).2.1.2 hkey⟩

/-- Whoever asks for the guard of the town is given a script that carries another archetype. It is
not kept under the one that was asked for, and it replaces the guard that was there. -/
theorem strays_of_slash :
    ∃ after script notices, quarterLibrary.IsKeyed ∧
      quarterLibrary.get quarter "town/guard" = .ok (after, some script, notices) ∧
      script.archetype = "guard" ∧ after.contains "town/guard" = false ∧
      ¬ Serves quarterLibrary after "town/guard" script ∧
      (quarterLibrary.scripts.get? "guard").map Script.source = some "<string>" ∧
      (after.scripts.get? "guard").map Script.source = some "town/guard.dlg" := by
  have hread : ((quarterLibrary.get quarter "town/guard").toOption.map fun answer =>
      (answer.2.1.map Script.archetype, answer.1.contains "town/guard",
        (quarterLibrary.scripts.get? "guard").map Script.source,
        (answer.1.scripts.get? "guard").map Script.source)) =
      some (some "guard", false, some "<string>", some "town/guard.dlg") := by
    decide +kernel
  obtain ⟨⟨after, answer, notices⟩, hget, hanswer⟩ := exists_of_toOption_map hread
  obtain ⟨harchetype, hrest⟩ := Prod.mk.inj hanswer
  obtain ⟨hcontains, hsources⟩ := Prod.mk.inj hrest
  obtain ⟨hbefore, hafter⟩ := Prod.mk.inj hsources
  obtain ⟨script, rfl, hscript⟩ := Option.map_eq_some_iff.1 harchetype
  refine ⟨after, script, notices, isKeyed_quarterLibrary, hget, hscript, hcontains, ?_, hbefore,
    hafter⟩
  intro h
  cases hcontains.symm.trans h.kept

end Library

end Parley
