import Parley.Proofs.Json.Bounded
import Parley.Proofs.Library.Entries
import Parley.Proofs.Library.Verdict
import Parley.Save.Archive

/-!
# What the Verifier Vouches For

The exit code of a verification tells whether all script files of the directory are sound: each
holds a script, whatever it sets is declared, and its placeholders stand for something. A defect may
be found when the file is read, parsed, checked for its writes or looked at by lint; the first one
that is found leaves a broken script, which lint still has to report. Only a text that exceeds a limit
of the reader is no defect that is reported: the verifier crashes over it.

* `Script.IsSound`: what is asked of a script;
* `isSound_iff`: a script passes the check of writes and lint exactly if it is sound;
* `verifyScripts_isSound`: the exit code is 0 if all scripts are sound, and 1 if not;
* `exit_code_exact`: so the whole verifier, for which undeclared variables that are only read make no
  difference;
* `passes_of_cut_mark`: it passes a file that is no text, but the beginning of a byte order mark.
-/

namespace Parley

/-- A name that is put into its place joins the others. -/
theorem RecordRule.mem_insertName {name k : String} {names : List String} :
    k ∈ insertName name names ↔ k = name ∨ k ∈ names := by
  induction names with
  | nil => simp [insertName]
  | cons n rest ih =>
    rw [insertName]
    split
    · next h => simp [h]
    · split
      · rw [List.mem_cons, ih, List.mem_cons, or_left_comm]
      · rw [List.mem_cons]

/-- The known tokens are the standard ones and those that are accepted beside them. -/
theorem LoreContext.mem_knownTokens {token : String} {more : List String} :
    token ∈ knownTokens more ↔ token ∈ standardTokens ++ more := by
  rw [knownTokens]
  induction standardTokens ++ more with
  | nil => rfl
  | cons name rest ih => rw [List.foldr_cons, RecordRule.mem_insertName, ih, List.mem_cons]

/-- A manifest allows a write if the variable is declared and the value, if it is a literal, is of its
type. -/
def Manifest.Allows (m : Manifest) (name : String) (value : Expr) : Prop :=
  ∃ d, m.get? name = some d ∧ ∀ v, value = .literal v → v.type = d.type

namespace Script

/-- A script sets declared variables only, literals to those of their type, and its texts have no
placeholders but the standard ones and some more that are accepted. Nothing is said of what it
reads. -/
structure IsSound (m : Manifest) (tokens : List String) (script : Script) : Prop where
  writes : ∀ name value, .assign name value ∈ script.walk → m.Allows name value
  placeholders : ∀ s ∈ script.walk, ∀ phrase ∈ s.phrases, ∀ text ∈ phrase.literals,
    ∀ token ∈ Placeholder.find text, token ∈ LoreContext.standardTokens ++ tokens

variable {m m' : Manifest} {tokens : List String} {script : Script}

/-- Whether a script is sound depends on the declarations of what it sets. -/
theorem IsSound.congr (h : script.IsSound m tokens)
    (hsets : ∀ name value, .assign name value ∈ script.walk → m'.get? name = m.get? name) :
    script.IsSound m' tokens where
  writes name value hassign := by
    rw [Manifest.Allows, hsets name value hassign]
    exact h.writes name value hassign
  placeholders := h.placeholders

end Script

namespace Library

variable {lib : Library} {m : Manifest} {script : Script}

/-- The only bad writes are assignments that the manifest does not allow. -/
theorem badWrite?_eq_none_iff {s : Statement} : badWrite? m s = none ↔
    ∀ name value, s = .assign name value → m.Allows name value := by
  cases s with
  | assign name value =>
    have hassign : (∀ x e, Statement.assign name value = .assign x e → m.Allows x e) ↔
        m.Allows name value := by
      refine ⟨fun h => h name value rfl, ?_⟩
      rintro h _ _ ⟨⟩
      exact h
    rw [hassign, Manifest.Allows, badWrite?.eq_def]
    dsimp only
    cases m.get? name with
    | none => simp
    | some d => cases value <;> simp
  | _ =>
    refine ⟨?_, fun _ => rfl⟩
    rintro - _ _ ⟨⟩

/-- The check of writes passes a script whose writes are all allowed. -/
theorem checkWrites_eq_ok_iff : lib.checkWrites script = .ok () ↔
    ∀ name value, .assign name value ∈ script.walk → lib.manifest.Allows name value := by
  have hnone : lib.checkWrites script = .ok () ↔
      ∀ s ∈ script.walk, badWrite? lib.manifest s = none := by
    rw [checkWrites, ← List.findSome?_eq_none_iff]
    cases script.walk.findSome? (badWrite? lib.manifest) with
    | some defect => constructor <;> rintro ⟨⟩
    | none => exact ⟨fun _ => rfl, fun _ => rfl⟩
  simp only [hnone, badWrite?_eq_none_iff]
  constructor
  · intro h name value hassign
    exact h _ hassign name value rfl
  · rintro h _ hs name value rfl
    exact h name value hs

end Library

namespace Lint

variable {m : Manifest} {known : List String} {script : Script} {s : Statement}

/-- What is wrong with a statement is an unknown placeholder of one of its texts, an undeclared
variable that it reads, or the write that it makes. -/
theorem cases_of_mem_statement {cause : IssueCause} (h : cause ∈ statement m known s) :
    (∃ phrase ∈ s.phrases, cause ∈ Lint.phrase known phrase) ∨
      (∃ name, cause = .undeclaredRead name) ∨
      ∃ name value, s = .assign name value ∧ write? m name value = some cause := by
  have hread : ∀ {e : Expr}, cause ∈ Lint.expr m e → ∃ name, cause = .undeclaredRead name := by
    intro e hcause
    obtain ⟨name, -, rfl⟩ := List.mem_map.1 hcause
    exact ⟨name, rfl⟩
  cases s with
  | say text => exact .inl ⟨text, List.mem_singleton_self text, h⟩
  | option label guard body =>
    rcases List.mem_append.1 h with h | h
    · exact .inl ⟨label, List.mem_singleton_self label, h⟩
    · cases guard with
      | none => cases h
      | some e => exact .inr (.inl (hread h))
  | give item message => exact .inl ⟨message, List.mem_singleton_self message, h⟩
  | finish message =>
    cases message with
    | none => cases h
    | some message => exact .inl ⟨message, List.mem_singleton_self message, h⟩
  | cond clauses =>
    obtain ⟨⟨test, body⟩, -, hcause⟩ := List.mem_flatMap.1 h
    cases test with
    | expr e => exact .inr (.inl (hread hcause))
    | otherwise => cases hcause
  | assign name value =>
    rcases List.mem_append.1 h with h | h
    · exact .inr (.inl (hread h))
    · exact .inr (.inr ⟨name, value, rfl, Option.mem_toList.1 h⟩)
  | offer item => cases h
  | spend amount => cases h

/-- Lint has nothing to say of a write that is allowed. -/
theorem write?_of_allows {name : String} {value : Expr} (h : m.Allows name value) :
    write? m name value = none := by
  obtain ⟨d, hd, hliteral⟩ := h
  rw [write?.eq_def, hd]
  cases value with
  | literal v => exact if_pos (hliteral v rfl)
  | _ => rfl

/-- In a script with allowed writes lint finds an error exactly if a placeholder is unknown. -/
theorem anyError_script_iff
    (hwrites : ∀ name value, .assign name value ∈ script.walk → m.Allows name value) :
    Issue.anyError (Lint.script m known script) = false ↔
      ∀ s ∈ script.walk, ∀ phrase ∈ s.phrases, ∀ text ∈ phrase.literals,
        ∀ token ∈ Placeholder.find text, token ∈ known := by
  rw [Issue.anyError_eq_false_iff]
  constructor
  · intro hnone s hs phrase hphrase text htext token htoken
    have hclean : IsClean m known script := by
      intro issue hissue unknown hcause
      exact hnone issue hissue (by rw [Issue.severity, hcause]; rfl)
    exact known_of_clean hclean hs hphrase htext htoken
  · intro hknown issue hissue
    obtain ⟨cause, hfinding, rfl⟩ := List.mem_map.1 hissue
    obtain ⟨s, hs, hcause⟩ := List.mem_flatMap.1 (List.mem_eraseDups.1 hfinding)
    rcases cases_of_mem_statement hcause with ⟨phrase, hphrase, hunknown⟩ | ⟨name, rfl⟩ |
      ⟨name, value, rfl, hwrite⟩
    · obtain ⟨text, htext, htoken⟩ := List.mem_flatMap.1 hunknown
      obtain ⟨token, hfound, -⟩ := List.mem_map.1 htoken
      obtain ⟨hfind, hnot⟩ := List.mem_filter.1 hfound
      have hin := hknown s hs phrase hphrase text htext token hfind
      simp [hin] at hnot
    · -- a read of an undeclared variable is a warning
      rintro ⟨⟩
    · cases (write?_of_allows (hwrites name value hs)).symm.trans hwrite

end Lint

/-- A script passes the check of writes and lint exactly if it is sound. -/
theorem isSound_iff {lib : Library} {tokens : List String} {script : Script} :
    script.IsSound lib.manifest tokens ↔ lib.checkWrites script = .ok () ∧
      Issue.anyError (Lint.script lib.manifest (LoreContext.knownTokens tokens) script) = false := by
  rw [Library.checkWrites_eq_ok_iff]
  constructor
  · intro h
    refine ⟨h.writes, (Lint.anyError_script_iff h.writes).2 ?_⟩
    intro s hs phrase hphrase text htext token htoken
    exact LoreContext.mem_knownTokens.2 (h.placeholders s hs phrase hphrase text htext token htoken)
  · rintro ⟨hwrites, hlint⟩
    refine ⟨hwrites, fun s hs phrase hphrase text htext token htoken => ?_⟩
    exact LoreContext.mem_knownTokens.1
      ((Lint.anyError_script_iff hwrites).1 hlint s hs phrase hphrase text htext token htoken)

/-- All script files of a directory hold sound scripts. -/
def FileTree.IsSound (t : FileTree) (limits : Limits) (directory : String) (m : Manifest)
    (tokens : List String) : Prop :=
  ∀ name ∈ t.scriptNames directory, ∃ script,
    t.HoldsScript limits (Path.join directory name) script ∧ script.IsSound m tokens

/-- No script file of a directory holds a text that exceeds a limit of the reader. -/
def FileTree.ScriptsFit (t : FileTree) (limits : Limits) (directory : String) : Prop :=
  ∀ name ∈ t.scriptNames directory, ∀ defect,
    ¬ t.Exceeds limits (Path.join directory name) defect

/-- The load of a script file is clean exactly if the file holds a sound script. -/
theorem Load.isClean_ofPath {tree : FileTree} {path : String} {lib : Library}
    {tokens : List String} :
    (ofPath tree path).IsClean lib (LoreContext.knownTokens tokens) ↔
      ∃ script, tree.HoldsScript lib.limits path script ∧ script.IsSound lib.manifest tokens := by
  simp only [IsClean, check_ofPath, isSound_iff, and_assoc]

section Verifier

variable {tree : FileTree} {config : Config} {m : Manifest} {tokens : List String}
  {limits : Limits} {schemas : SchemaChecker}

/-- The exit code tells whether all script files of the directory are sound. -/
theorem verifyScripts_isSound (hext : config.scriptExtension = .str ".dlg")
    (hdir : tree.isDirectory config.scriptDir = .ok true) (hplain : tree.HasPlainNames)
    (hstems : ((tree.scriptNames config.scriptDir).map Path.stem).Nodup)
    (hfit : tree.ScriptsFit limits config.scriptDir) (tokens : List String) (m : Manifest) :
    (tree.IsSound limits config.scriptDir m tokens →
      (verifyScripts tree config m (tokens.map some) limits).map Prod.fst = .ok 0) ∧
    (¬ tree.IsSound limits config.scriptDir m tokens →
      (verifyScripts tree config m (tokens.map some) limits).map Prod.fst = .ok 1) := by
  let lib : Library := { config, manifest := m, limits }
  have hnew : lib.IsNew := ⟨rfl, rfl⟩
  have hext : lib.config.scriptExtension = .str ".dlg" := hext
  have hentries : lib.entryNames tree = tree.scriptNames config.scriptDir :=
    Library.entryNames_of_dlg hext tree
  obtain ⟨loads, hloads, hperm⟩ := Library.directoryLoads_of_fits
    (Library.hasNameExtension_of_dlg hext) hdir (fun _ => Library.isPart_of_mem_entryNames hplain)
    (hentries ▸ hfit)
  rw [hentries] at hperm
  have hfits : ∀ load ∈ loads, load.Fits lib.limits := fun load hload =>
    Library.fits_of_directoryLoads tree (hloads ▸ hload)
  -- No token is left out, so that a report is made of the loads of the directory.
  have hcode : (verifyScripts tree config m (tokens.map some) limits).map Prod.fst =
      .ok (reportScripts (lib.takeAll loads) (LoreContext.knownTokens tokens)).1 := by
    have hgiven : (tokens.map some).contains none = false := by simp
    have htokens : (tokens.map some).filterMap id = tokens := by simp
    rw [verifyScripts_eq, hloads, hgiven, htokens]
    rfl
  -- Different stems make different archetypes: no load takes the place of another one.
  have hnodup : (loads.map Load.archetype).Nodup := by
    have harchetypes : ∀ name ∈ tree.scriptNames config.scriptDir,
        (Load.ofPath tree (Path.join config.scriptDir name)).archetype = Path.stem name := by
      intro name hname
      rw [Load.archetype_ofPath,
        Path.stem_join _ (FileTree.isName_of_mem_scriptNames hplain hname).1]
    rw [(hperm.map Load.archetype).nodup_iff, List.map_map]
    simp only [Function.comp_def]
    rw [List.map_congr_left harchetypes]
    exact hstems
  have hsound : (∀ load ∈ loads, load.IsClean lib (LoreContext.knownTokens tokens)) ↔
      tree.IsSound limits config.scriptDir m tokens := by
    simp only [hperm.mem_iff, List.forall_mem_map, Load.isClean_ofPath]
    rfl
  rw [hcode, ← hsound]
  obtain ⟨hzero, hone⟩ := hnew.reportScripts_takeAll hfits hnodup (LoreContext.knownTokens tokens)
  exact ⟨fun h => congrArg Except.ok (hzero h), fun h => congrArg Except.ok (hone h)⟩

/-- A script file that exceeds a limit ends the verification of scripts with a fault. -/
theorem verifyScripts_of_exceeds (hext : config.scriptExtension = .str ".dlg")
    (hdir : tree.isDirectory config.scriptDir = .ok true) (hplain : tree.HasPlainNames)
    (hfit : ¬ tree.ScriptsFit limits config.scriptDir) (m : Manifest)
    (tokens : List (Option String)) :
    ∃ name ∈ tree.scriptNames config.scriptDir, ∃ defect,
      tree.Exceeds limits (Path.join config.scriptDir name) defect ∧
      verifyScripts tree config m tokens limits = .error (.library (.limit defect)) := by
  let lib : Library := { config, manifest := m, limits }
  have hext : lib.config.scriptExtension = .str ".dlg" := hext
  have hentries : lib.entryNames tree = tree.scriptNames config.scriptDir :=
    Library.entryNames_of_dlg hext tree
  simp only [FileTree.ScriptsFit, not_forall, Classical.not_not] at hfit
  obtain ⟨name, hname, defect, hdefect⟩ := hfit
  obtain ⟨name', hname', defect', hdefect', hfault⟩ := Library.directoryLoads_of_exceeds
    (Library.hasNameExtension_of_dlg hext) hdir (fun _ => Library.isPart_of_mem_entryNames hplain)
    ⟨name, hentries ▸ hname, defect, hdefect⟩
  refine ⟨name', hentries ▸ hname', defect', hdefect', ?_⟩
  have hcode := verifyScripts_eq tree config m tokens limits
  cases hscripts : verifyScripts tree config m tokens limits with
  | error fault =>
    rw [hscripts] at hcode
    split at hcode
    · next hloads =>
      obtain rfl := Except.error.inj hcode
      have hsame := (congrArg Prod.snd hloads).symm.trans hfault
      rw [Option.some.inj hsame]
    · next hloads => cases (congrArg Prod.snd hloads).symm.trans hfault
  | ok answer =>
    rw [hscripts] at hcode
    split at hcode
    · cases hcode
    · next hloads => cases (congrArg Prod.snd hloads).symm.trans hfault

/-- The verifier ends as the scripts do once it has its arguments and a manifest. -/
theorem verifyMain_of_load {args : List String} {o : VerifyOptions}
    (hargs : Invocation.ofArguments args = .verify o)
    (hload : Manifest.load tree o.config.manifestPath limits schemas = .ok m) :
    (verifyMain tree args limits schemas).1 =
      match verifyScripts tree o.config m o.tokens limits with
      | .error fault => .crash fault
      | .ok answer => .exit answer.1 := by
  rw [verifyMain, hargs]
  exact verify_of_ok hload

/-- The verifier ends with the exit code of the scripts once it has its arguments and a manifest. -/
theorem verifyMain_of_scripts {args : List String} {o : VerifyOptions} {code : Nat}
    (hargs : Invocation.ofArguments args = .verify o)
    (hload : Manifest.load tree o.config.manifestPath limits schemas = .ok m)
    (hscripts : (verifyScripts tree o.config m o.tokens limits).map Prod.fst = .ok code) :
    (verifyMain tree args limits schemas).1 = .exit code := by
  obtain ⟨answer, hanswer, rfl⟩ := exists_of_map_eq_ok hscripts
  rw [verifyMain_of_load hargs hload, hanswer]

/-- The exit code of the verifier is exact. Let its arguments name a directory whose script files have
different stems, a manifest file that is accepted, and extra tokens. Names have no null characters,
as in every tree that is made (`FileTree.HasPlainNames.make`). Unless a script file exceeds a limit of
the reader, the verifier ends with exit code 0 if all script files hold sound scripts, and with exit
code 1 if not. If one does, it crashes over such a file. A script file is text in UTF-8, where a byte
order mark at the start does not count; of a file that holds nothing else the mark need not be whole.
What scripts read makes no difference: the outcome is the same under every manifest that has the same
declarations for the variables that are set. -/
theorem exit_code_exact {args : List String} {o : VerifyOptions}
    (hargs : Invocation.ofArguments args = .verify o) (htokens : o.tokens = tokens.map some)
    (hload : Manifest.load tree o.config.manifestPath limits schemas = .ok m)
    (hdir : tree.isDirectory o.config.scriptDir = .ok true) (hplain : tree.HasPlainNames)
    (hstems : ((tree.scriptNames o.config.scriptDir).map Path.stem).Nodup) :
    (tree.ScriptsFit limits o.config.scriptDir →
      (tree.IsSound limits o.config.scriptDir m tokens →
        (verifyMain tree args limits schemas).1 = .exit 0) ∧
      (¬ tree.IsSound limits o.config.scriptDir m tokens →
        (verifyMain tree args limits schemas).1 = .exit 1)) ∧
    (¬ tree.ScriptsFit limits o.config.scriptDir →
      ∃ file ∈ tree.scriptNames o.config.scriptDir, ∃ defect,
        tree.Exceeds limits (Path.join o.config.scriptDir file) defect ∧
        (verifyMain tree args limits schemas).1 = .crash (.library (.limit defect))) ∧
    ∀ m' : Manifest, (∀ file ∈ tree.scriptNames o.config.scriptDir, ∀ script,
        tree.HoldsScript limits (Path.join o.config.scriptDir file) script →
          ∀ name value, .assign name value ∈ script.walk → m'.get? name = m.get? name) →
      (verifyScripts tree o.config m' o.tokens limits).map Prod.fst =
        (verifyScripts tree o.config m o.tokens limits).map Prod.fst := by
  have hext : o.config.scriptExtension = .str ".dlg" := rfl
  have hscripts := fun hfit : tree.ScriptsFit limits o.config.scriptDir =>
    verifyScripts_isSound hext hdir hplain hstems hfit tokens
  rw [← htokens] at hscripts
  refine ⟨fun hfit => ?_, fun hunfit => ?_, fun m' hsets => ?_⟩
  · obtain ⟨hzero, hone⟩ := hscripts hfit m
    exact ⟨fun h => verifyMain_of_scripts hargs hload (hzero h),
      fun h => verifyMain_of_scripts hargs hload (hone h)⟩
  · obtain ⟨file, hfile, defect, hdefect, hfault⟩ :=
      verifyScripts_of_exceeds hext hdir hplain hunfit m o.tokens
    refine ⟨file, hfile, defect, hdefect, ?_⟩
    rw [verifyMain_of_load hargs hload, hfault]
  by_cases hfit : tree.ScriptsFit limits o.config.scriptDir
  · -- The manifest is asked for what scripts set, and for nothing that they only read.
    have hsame : tree.IsSound limits o.config.scriptDir m' tokens ↔
        tree.IsSound limits o.config.scriptDir m tokens := by
      refine forall₂_congr fun file hfile => exists_congr fun script =>
        and_congr_right fun hholds => ?_
      have hagree := hsets file hfile script hholds
      exact ⟨fun h => h.congr fun name value hassign => (hagree name value hassign).symm,
        fun h => h.congr hagree⟩
    obtain ⟨hzero, hone⟩ := hscripts hfit m
    obtain ⟨hzero', hone'⟩ := hscripts hfit m'
    by_cases hsound : tree.IsSound limits o.config.scriptDir m tokens
    · rw [hzero hsound, hzero' (hsame.2 hsound)]
    · rw [hone hsound, hone' (mt hsame.1 hsound)]
  · obtain ⟨file, hfile, defect, hdefect, hfault⟩ :=
      verifyScripts_of_exceeds hext hdir hplain hfit m o.tokens
    rw [hfault, verifyScripts_error_congr hfault m']

end Verifier

/-- Coins are counted in a variable of their own. -/
def coinScopes : Manifest :=
  ⟨OrderedMap.empty.insert "COINS" (.make "COINS" .global .int)⟩

/-- The manifest file that declares it. -/
def coinScopesText : List Char :=
  "\x7b\"variables\": \x7b\"COINS\": \x7b\"scope\": \"global\", \"type\": \"int\"\x7d\x7d\x7d".toList

/-- A directory with that manifest and some more files. -/
def coinTree (files : List (String × List UInt8)) : FileTree where
  nodes := files.foldl (fun nodes file => nodes.insert file.1 (.file file.2))
    (OrderedMap.empty.insert "scopes.json" (.file (Archive.asciiBytes coinScopesText)))

/-- The document in that file. -/
def coinScopesDocument : Json :=
  .object [("variables", .object [("COINS", .object [("scope", .str "global"),
    ("type", .str "int")])])]

theorem load_coinScopes {tree : FileTree} {path : String}
    (htext : tree.readText path = .ok coinScopesText) :
    Manifest.load tree path = .ok coinScopes := by
  have hdocument : Json.ofText coinScopesText = .ok coinScopesDocument := by
    rw [Json.ofText_eq_within]
    decide +kernel
  have hmanifest : Manifest.ofJson coinScopesDocument = .ok coinScopes := rfl
  rw [load_of_readText htext hdocument, hmanifest]
  rfl

/-- A guard takes a toll, and a smith, who never told anyone that there are rumours, speaks for his
guild. -/
def tollTown : FileTree :=
  coinTree [
    ("guard.dlg", Archive.asciiBytes "(say \"Two coins, #PLAYER_NAME.\") (set COINS 2)".toList),
    ("smith.dlg", Archive.asciiBytes
      "(cond ((> RUMOURS 2) (say \"Ask #GUILD_NAME.\")) (else (say \"Well met.\")))".toList),
    ("notes.txt", Archive.asciiBytes "(say".toList)]

/-- The guild of the smith is accepted as a token. -/
def tollOptions : VerifyOptions where
  scriptDir := "."
  tokens := [some "GUILD_NAME"]

/-- The town passes, although nobody has declared the rumours. -/
theorem exit_code_exact_of_toll :
    Invocation.ofArguments [".", "--token", "GUILD_NAME"] = .verify tollOptions ∧
      Manifest.load tollTown tollOptions.config.manifestPath = .ok coinScopes ∧
      tollTown.scriptNames tollOptions.config.scriptDir = ["guard.dlg", "smith.dlg"] ∧
      coinScopes.contains "RUMOURS" = false ∧
      tollTown.ScriptsFit .standard tollOptions.config.scriptDir ∧
      (verifyMain tollTown [".", "--token", "GUILD_NAME"]).1 = .exit 0 ∧
      tollTown.IsSound .standard tollOptions.config.scriptDir coinScopes ["GUILD_NAME"] := by
  have hargs : Invocation.ofArguments [".", "--token", "GUILD_NAME"] = .verify tollOptions := by
    decide +kernel
  have htokens : tollOptions.tokens = ["GUILD_NAME"].map some := rfl
  have hload : Manifest.load tollTown tollOptions.config.manifestPath = .ok coinScopes :=
    load_coinScopes (by decide +kernel)
  have hdir : tollTown.isDirectory tollOptions.config.scriptDir = .ok true := by decide +kernel
  have hplain : tollTown.HasPlainNames := by
    show ∀ key ∈ tollTown.nodes.keys, '\x00' ∉ key.toList
    decide +kernel
  have hnames : tollTown.scriptNames tollOptions.config.scriptDir = ["guard.dlg", "smith.dlg"] := by
    decide +kernel
  have hstems : ((tollTown.scriptNames tollOptions.config.scriptDir).map Path.stem).Nodup := by
    rw [hnames]
    decide +kernel
  obtain ⟨hcode, hcrash, -⟩ := exit_code_exact hargs htokens hload hdir hplain hstems
  have hscripts : ((verifyScripts tollTown tollOptions.config coinScopes
      tollOptions.tokens).toOption.map Prod.fst) = some 0 := by decide +kernel
  have hexit : (verifyMain tollTown [".", "--token", "GUILD_NAME"]).1 = .exit 0 :=
    verifyMain_of_scripts hargs hload (map_eq_ok_of_toOption_map hscripts)
  -- The verifier would crash if a script exceeded a limit, and end with exit code 1 if one were not
  -- sound.
  have hfit : tollTown.ScriptsFit .standard tollOptions.config.scriptDir := by
    by_contra hunfit
    obtain ⟨file, -, defect, -, hfault⟩ := hcrash hunfit
    cases hexit.symm.trans hfault
  refine ⟨hargs, hload, hnames, by decide +kernel, hfit, hexit, ?_⟩
  by_contra hunsound
  cases hexit.symm.trans ((hcode hfit).2 hunsound)

/-- A directory whose only script file holds two of the three bytes of a byte order mark. -/
def cutMark : FileTree :=
  coinTree [("npc.dlg", [0xEF, 0xBB])]

/-- The verifier passes a file that is no text in UTF-8. -/
theorem passes_of_cut_mark :
    cutMark.scriptNames "." = ["npc.dlg"] ∧
      cutMark.read (Path.join "." "npc.dlg") = .ok [0xEF, 0xBB] ∧
      Text.decodeUtf8 [0xEF, 0xBB] = none ∧ (verifyMain cutMark ["."]).1 = .exit 0 := by
  have hargs : Invocation.ofArguments ["."] = .verify { scriptDir := "." } := by decide +kernel
  have hload : Manifest.load cutMark
      ({ scriptDir := "." } : VerifyOptions).config.manifestPath = .ok coinScopes :=
    load_coinScopes (by decide +kernel)
  have hscripts : ((verifyScripts cutMark ({ scriptDir := "." } : VerifyOptions).config coinScopes
      []).toOption.map Prod.fst) = some 0 := by decide +kernel
  exact ⟨by decide +kernel, by decide +kernel, by decide +kernel,
    verifyMain_of_scripts hargs hload (map_eq_ok_of_toOption_map hscripts)⟩

end Parley
