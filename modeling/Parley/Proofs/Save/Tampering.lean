import Parley.Proofs.Json.Canonical
import Parley.Proofs.Save.Reading
import Parley.Proofs.Save.Slots

/-!
# Tampered Saves

A save carries a checksum of its other fields, and a load looks at it. We reduce tampering to a
collision: an object that differs from the one that was saved and is loaded under its checksum has
another canonical text with the same digest. No digest of fixed length is without collisions, so
that this is asked of the two texts at hand only (`Digest.TellsApart`).

* `Digest.base64_inj`: the checksum shows the digest in full;
* `Archive.canonical_eq_of_checksum`: fields with one checksum have one canonical text;
* `Archive.holdsJson_of_save`: what a save that succeeds leaves in the file of its slot;
* `Archive.load_refuses_tampered`: the object that was saved is loaded, and another one under its
  checksum only if it is the same up to the order of fields.
-/

namespace Parley

/-! ## Digests -/

namespace Digest

/-- The alphabet has 64 different characters. -/
theorem base64Char_inj {n m : Nat} (hn : n < 64) (hm : m < 64)
    (h : base64Char n = base64Char m) : n = m := by
  have hchars : ∀ n < 64, ∀ m < 64, base64Char n = base64Char m → n = m := by decide +kernel
  exact hchars n hn m hm h

/-- Bytes can be told from their writing, if their count is known. Four characters are the four digits
of a number in base 64, whose three digits in base 256 are the bytes. -/
theorem base64_inj : ∀ {s s' : List UInt8}, s.length = s'.length → base64 s = base64 s' → s = s'
  | [], [], _, _ => rfl
  | [a], [a'], _, h => by
    have ha := a.toNat_lt
    have ha' := a'.toNat_lt
    simp only [base64, List.cons.injEq] at h
    have h₁ := base64Char_inj (by omega) (by omega) h.1
    have h₂ := base64Char_inj (by omega) (by omega) h.2.1
    rw [UInt8.toNat_inj.1 (show a.toNat = a'.toNat by omega)]
  | [a, b], [a', b'], _, h => by
    have ha := a.toNat_lt
    have ha' := a'.toNat_lt
    have hb := b.toNat_lt
    have hb' := b'.toNat_lt
    simp only [base64, List.cons.injEq] at h
    have h₁ := base64Char_inj (by omega) (by omega) h.1
    have h₂ := base64Char_inj (by omega) (by omega) h.2.1
    have h₃ := base64Char_inj (by omega) (by omega) h.2.2.1
    rw [UInt8.toNat_inj.1 (show a.toNat = a'.toNat by omega),
      UInt8.toNat_inj.1 (show b.toNat = b'.toNat by omega)]
  | a :: b :: c :: rest, a' :: b' :: c' :: rest', hl, h => by
    have ha := a.toNat_lt
    have ha' := a'.toNat_lt
    have hb := b.toNat_lt
    have hb' := b'.toNat_lt
    have hc := c.toNat_lt
    have hc' := c'.toNat_lt
    simp only [base64, List.cons.injEq] at h
    have h₁ := base64Char_inj (by omega) (by omega) h.1
    have h₂ := base64Char_inj (by omega) (by omega) h.2.1
    have h₃ := base64Char_inj (by omega) (by omega) h.2.2.1
    have h₄ := base64Char_inj (by omega) (by omega) h.2.2.2.1
    rw [UInt8.toNat_inj.1 (show a.toNat = a'.toNat by omega),
      UInt8.toNat_inj.1 (show b.toNat = b'.toNat by omega),
      UInt8.toNat_inj.1 (show c.toNat = c'.toNat by omega),
      base64_inj (by simpa using hl) h.2.2.2.2]

theorem length_sha256 (message : List UInt8) : (sha256 message).length = 32 := by
  simp [sha256, HashState.bytes, bigEndian]

theorem base64_ne_nil : ∀ {s : List UInt8}, s ≠ [] → base64 s ≠ []
  | [], h => absurd rfl h
  | [_], _ => nofun
  | [_, _], _ => nofun
  | _ :: _ :: _ :: _, _ => nofun

/-- The digest tells two byte strings apart: they have the same one only if they are the same. -/
def TellsApart (s s' : List UInt8) : Prop :=
  sha256 s = sha256 s' → s = s'

end Digest

namespace Archive

variable {a b c : Archive} {slot slot' : Slot} {fields fields' : List (String × Json)}

/-! ## Checksums -/

/-- The bytes of which a checksum is the digest. -/
def digested (fields : List (String × Json)) : List UInt8 :=
  asciiBytes (Json.object fields).canonical

theorem checksum_eq (fields : List (String × Json)) :
    checksum fields = String.ofList (Digest.base64 (Digest.sha256 (digested fields))) := rfl

/-- No checksum is empty, so that none counts as missing. -/
theorem isTruthy_checksum (fields : List (String × Json)) :
    (Json.str (checksum fields)).isTruthy = true := by
  have hdigest : Digest.sha256 (digested fields) ≠ [] := by
    intro hnil
    have hlength := Digest.length_sha256 (digested fields)
    rw [hnil] at hlength
    cases hlength
  have htext := Digest.base64_ne_nil hdigest
  simpa [checksum_eq] using htext

/-- Fields with one checksum have one canonical text, unless the digest fails to tell them apart. -/
theorem canonical_eq_of_checksum (htold : Digest.TellsApart (digested fields) (digested fields'))
    (h : checksum fields = checksum fields') :
    (Json.object fields).canonical = (Json.object fields').canonical := by
  rw [checksum_eq, checksum_eq, String.ofList_inj] at h
  have hlength : (Digest.sha256 (digested fields)).length =
      (Digest.sha256 (digested fields')).length := by
    rw [Digest.length_sha256, Digest.length_sha256]
  exact (Json.isAscii_canonical _).eq_of_bytes (Json.isAscii_canonical _)
    (htold (Digest.base64_inj hlength h))

/-- A checksum that is accepted is the one of the other fields. -/
theorem checksum_of_isCorrupted {expected : List (String × Json)}
    (hlookup : fields.lookup checksumField = some (.str (checksum expected)))
    (h : isCorrupted fields = false) : checksum (withoutChecksum fields) = checksum expected := by
  rw [isCorrupted, hlookup] at h
  dsimp only at h
  rw [isTruthy_checksum, Bool.true_and, Bool.not_eq_false', matchesChecksum] at h
  exact eq_of_beq h

/-- Fields are the same as saved ones if the others are and the checksum is. -/
theorem same_savedFields {s : SavedState}
    (hlookup : fields.lookup checksumField = some (.str (checksum s.fields)))
    (h : (Json.object s.fields).Same (.object (withoutChecksum fields))) :
    (Json.object (savedFields s)).Same (.object fields) := by
  rw [Json.same_object, Json.sameFields_iff] at h ⊢
  obtain ⟨hfields, hnames⟩ := h
  constructor
  · -- A field of the save is the checksum itself, or was looked for among the others.
    intro f hf
    rw [savedFields] at hf
    rcases List.mem_append.1 hf with hf | hf
    · obtain ⟨w, hw, hsame⟩ := hfields f hf
      rw [withoutChecksum, OrderedMap.lookup_filter_ne] at hw
      split at hw
      · cases hw
      · exact ⟨w, hw, hsame⟩
    · obtain rfl := List.mem_singleton.1 hf
      exact ⟨_, hlookup, rfl⟩
  · -- A name that is not the checksum's is left when the checksum is taken away.
    intro n hn
    obtain ⟨f, hf, rfl⟩ := List.mem_map.1 hn
    rw [savedFields, List.map_append]
    by_cases hname : f.1 = checksumField
    · exact List.mem_append_right _ (by simp [hname])
    · refine List.mem_append_left _ (hnames (List.mem_map_of_mem ?_))
      exact List.mem_filter.2 ⟨hf, bne_iff_ne.2 hname⟩

/-! ## Saves -/

/-- A document that the reader can hold is held by the file to which it was written. -/
theorem holdsJson_asciiBytes {t : FileTree} {limits : Limits} {path : String} {document : Json}
    (h : document.IsReadable limits)
    (hfind : t.find path = .ok (.file (asciiBytes (document.indented 0)))) :
    t.HoldsJson limits path document :=
  ⟨_, _, hfind, Json.decodeUtf8_indented h.plain 0, Json.ofText_indented h⟩

theorem writeJson_ok {path : String} {document : Json} (h : a.writeJson path document = .ok b) :
    a.tree.write path (asciiBytes document.written) = .ok b.tree ∧
      b.directory = a.directory ∧ b.limits = a.limits := by
  rw [writeJson] at h
  cases hwrite : a.tree.write path (asciiBytes document.written) with
  | error e =>
    rw [hwrite] at h
    cases h
  | ok t =>
    rw [hwrite] at h
    cases h
    exact ⟨rfl, rfl, rfl⟩

/-- The description of a slot is not written over its state. -/
theorem find_of_writes {t t' t'' : FileTree} {bytes bytes' : List UInt8}
    (h : t.write (a.slotPath slot) bytes = .ok t')
    (h' : t'.write (a.metadataPath slot) bytes' = .ok t'') :
    t''.find (a.slotPath slot) = .ok (.file bytes) := by
  rw [slotPath] at h ⊢
  rw [metadataPath] at h'
  refine FileTree.find_of_write_write (isName_ofSlot _ (.inl rfl)) (isName_ofSlot _ (.inr rfl)) ?_
    h h'
  -- The two names differ in their endings.
  intro hname
  have hending := congrArg String.toList hname
  simp at hending

/-- A save that succeeds leaves the saved form of quest state in the file of its slot. -/
theorem holdsJson_of_save {name : Json} (h : a.save slot name = (true, b)) :
    ∃ s, SavedState.ofEnvironment a.env a.records = .ok s ∧
      b.HoldsJson slot (.object (savedFields s)) := by
  have hstart := agrees_announce a .saveStarted slot.written none
  rw [save] at h
  rw [← hstart.env, ← hstart.records]
  generalize a.announce .saveStarted slot.written none = started at *
  split at h
  · cases h
  · next s hs =>
    refine ⟨s, hs, ?_⟩
    split at h
    · cases h
    · next hcan =>
      split at h
      · cases h
      · next first hfirst =>
        dsimp only at h
        split at h
        · cases h
        · next second hsecond =>
          split at h
          · obtain ⟨hstate, hdirectory, hlimits⟩ := writeJson_ok hfirst
            obtain ⟨hdescription, hdirectory', hlimits'⟩ := writeJson_ok hsecond
            rw [metadataPath_congr hdirectory] at hdescription
            -- The end of the save is announced, which touches no file.
            have hend := agrees_announce { second with currentSlot := some slot.written }
              .saveCompleted slot.written none
            rw [(Prod.mk.inj h).2] at hend
            -- The numbers could be written, so all of the state is in its file.
            have hwritable : canWrite slot s = true := by simpa using hcan
            have hshort := isShort_fields_of_canWrite hwritable
            rw [written_of_isShort ((isShort_savedFields s).trans hshort)] at hstate
            rw [HoldsJson, hend.tree, hend.limits,
              slotPath_congr (hend.directory.trans (hdirectory'.trans hdirectory))]
            exact holdsJson_asciiBytes (isReadable_savedFields hshort _)
              (find_of_writes hstate hdescription)
          · cases h

/-- Saved fields are loaded from wherever they are put. -/
theorem load_of_savedFields {s : SavedState}
    (h : c.HoldsJson slot (.object (savedFields s))) (validate : Bool) :
    (c.load slot validate).1 = .ok true := by
  refine (c.load_cases slot validate).2.1.2 ((isLoadable_iff h).2 ⟨?_, s, ?_⟩)
  · rw [isCorrupted_savedFields, Bool.and_false]
  · rw [withoutChecksum_savedFields, SavedState.ofJson_fields]

/-- A save writes an object into the file of its slot, and a load that checks this object succeeds.
Whatever else is put into a file of a slot under the checksum of that object, such a load succeeds only
if it is the same object, up to the order of fields, provided that the digest tells the two canonical
texts apart. -/
theorem load_refuses_tampered {name : Json} (hsave : a.save slot name = (true, b)) :
    ∃ saved, b.HoldsJson slot (.object saved) ∧
      (∀ (c : Archive) (slot' : Slot), c.HoldsJson slot' (.object saved) →
        (c.load slot').1 = .ok true) ∧
      ∀ (c : Archive) (slot' : Slot) (fields : List (String × Json)),
        c.HoldsJson slot' (.object fields) →
        fields.lookup checksumField = saved.lookup checksumField →
        Digest.TellsApart (digested (withoutChecksum saved)) (digested (withoutChecksum fields)) →
        (c.load slot').1 = .ok true → (Json.object saved).Same (.object fields) := by
  obtain ⟨s, -, hholds⟩ := holdsJson_of_save hsave
  refine ⟨_, hholds, fun c slot' hfile => load_of_savedFields hfile true, ?_⟩
  intro c slot' fields hfile hchecksum htold hload
  rw [lookup_savedFields] at hchecksum
  rw [withoutChecksum_savedFields] at htold
  -- The load is accepted, so the checksum is the one of the fields that were put there.
  obtain ⟨hintact, -⟩ := (isLoadable_iff hfile).1 ((c.load_cases slot' true).2.1.1 hload)
  rw [Bool.true_and] at hintact
  have hdigest := checksum_of_isCorrupted hchecksum hintact
  have hcanonical := canonical_eq_of_checksum htold hdigest.symm
  exact same_savedFields hchecksum (Json.same_of_canonical (isPlain_fields s) hcanonical)

/-- The fields of a save without variables, the checksum first. -/
def reordered (expected : String) : List (String × Json) :=
  [(checksumField, .str expected), ("speaker_vars", .object []), ("global_vars", .object []),
    ("version", .str "1.0")]

theorem canonical_reordered (expected : String) :
    (Json.object (withoutChecksum (reordered expected))).canonical =
      (Json.object (SavedState.of camp.env).fields).canonical := by
  have h : withoutChecksum (reordered expected) = [("speaker_vars", .object []),
      ("global_vars", .object []), ("version", .str "1.0")] := rfl
  rw [h]
  decide

theorem find_withFile (bytes : List UInt8) :
    (withFile "save_00.json" bytes).tree.find
      ((withFile "save_00.json" bytes).slotPath { number := (0 : Nat) }) = .ok (.file bytes) := by
  have hpath : (withFile "save_00.json" bytes).slotPath { number := (0 : Nat) } =
      "save_00.json" := by
    rw [slotPath]
    show Path.join "." ("save_" ++ slotName (0 : Nat) ++ ".json") = "save_00.json"
    decide
  have hparts : (withFile "save_00.json" bytes).tree.fromRoot "save_00.json" = ["save_00.json"] := by
    show FileTree.fromRoot {} "save_00.json" = ["save_00.json"]
    decide
  have hlocate : (withFile "save_00.json" bytes).tree.locate "save_00.json" =
      .ok ["save_00.json"] := by
    rw [FileTree.locate, if_neg (by decide), if_neg (by decide), hparts]
    rfl
  rw [hpath, FileTree.find, hlocate]
  rfl

/-- Fields in another order are loaded, and they are the same. -/
theorem load_refuses_tampered_of_reordered :
    let fields := reordered (checksum (SavedState.of camp.env).fields)
    let c := withFile "save_00.json" (asciiBytes ((Json.object fields).indented 0))
    ∃ b saved, camp.save { number := (0 : Nat) } = (true, b) ∧
      b.HoldsJson { number := (0 : Nat) } (.object saved) ∧
      (c.load { number := (0 : Nat) }).1 = .ok true ∧ (Json.object saved).Same (.object fields) := by
  intro fields c
  have hsave : (camp.save { number := (0 : Nat) }).1 = true := by
    obtain ⟨here, hheld⟩ := holds_of_isEmptyDirectory isScripted_camp FileTree.isEmptyDirectory_root
    have hfits : camp.Fits 0 := by
      unfold Fits FileTree.Takes
      decide +kernel
    exact (hheld.save 0 "Save").1.2 ⟨((canWrite_iff { number := 0 } _).1 rfl).1, hfits⟩
  have hsave : camp.save { number := (0 : Nat) } = (true, (camp.save { number := (0 : Nat) }).2) :=
    Prod.ext hsave rfl
  obtain ⟨saved, hsaved, -, hrefuses⟩ := load_refuses_tampered hsave
  refine ⟨_, saved, hsave, hsaved, ?_⟩
  -- The digest is never worked out: both texts are the same, whatever it is.
  have hfields : saved = savedFields (.of camp.env) := by
    obtain ⟨s, hs, hholds⟩ := holdsJson_of_save hsave
    rw [SavedState.ofEnvironment_of isScripted_camp] at hs
    cases hs
    exact Json.object.inj (FileTree.HoldsJson.eq hsaved hholds)
  have hfile : c.HoldsJson { number := (0 : Nat) } (.object fields) := by
    have hnames : [checksumField, "speaker_vars", "global_vars", "version"].Nodup := by decide
    refine holdsJson_asciiBytes ⟨?_, rfl, by decide⟩ (find_withFile _)
    exact ⟨hnames, trivial, ⟨List.nodup_nil, trivial⟩, ⟨List.nodup_nil, trivial⟩, trivial, trivial⟩
  have hlookup : fields.lookup checksumField =
      some (.str (checksum (SavedState.of camp.env).fields)) := rfl
  have hcanonical := canonical_reordered (checksum (SavedState.of camp.env).fields)
  have hload : (c.load { number := (0 : Nat) }).1 = .ok true := by
    refine (c.load_cases _ true).2.1.2 ((isLoadable_iff hfile).2 ⟨?_, ?_⟩)
    · have hchecksum : checksum (withoutChecksum fields) =
          checksum (SavedState.of camp.env).fields := by
        rw [checksum_eq, checksum_eq, digested, digested, hcanonical]
      rw [isCorrupted, hlookup]
      dsimp only
      rw [matchesChecksum, hchecksum, beq_self_eq_true, Bool.not_true, Bool.and_false,
        Bool.and_false]
    · exact ⟨.of camp.env, rfl⟩
  refine ⟨hload, hrefuses c _ fields hfile ?_ ?_ hload⟩
  · rw [hfields, lookup_savedFields, hlookup]
  · intro _
    rw [hfields, withoutChecksum_savedFields, digested, digested, hcanonical]

end Archive

end Parley
