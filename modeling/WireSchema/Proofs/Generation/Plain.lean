import Mathlib.Tactic.MkIffOfInductiveProp
import WireSchema.Extraction.Lowering
import WireSchema.Proofs.Generation.Forms
import WireSchema.Proofs.Generation.RawEnum

/-!
# Definitions that code keeps whole

Code does not tell everything that a schema may say: a type text may be spelled in
several ways, a name may mean a basic type in Swift, a line of documentation may end
in white space. A plain definition says nothing that is lost in generated code.
-/

namespace WireSchema

open Swift (IsPlainName typePrefixes)

/-- A canonical text whose names mean in Swift what they mean in the schema. -/
@[mk_iff]
structure MeansItself (type : String) : Prop where
  canonical : IsCanonicalText type
  names : ∀ name ∈ (denoted type).customNames, IsPlainName name

instance (type : String) : Decidable (MeansItself type) :=
  decidable_of_iff' _ (meansItself_iff ..)

/-- A canonical text that names no type which means something else in Swift. -/
@[mk_iff]
structure IsPlainText (type : String) : Prop where
  canonical : IsCanonicalText type
  names : ∀ name ∈ (denoted type).customNames, IsPlainName name ∧ name ∉ typePrefixes

instance (type : String) : Decidable (IsPlainText type) :=
  decidable_of_iff' _ (isPlainText_iff ..)

open Generation (IsPlainDoc)

@[mk_iff]
structure FieldDef.IsPlain (name : String) (field : FieldDef) : Prop where
  type : IsPlainText field.type
  wireName : field.wireName ≠ some name
  doc : ∀ doc ∈ field.doc, IsPlainDoc doc

instance (name : String) (field : FieldDef) : Decidable (field.IsPlain name) :=
  decidable_of_iff' _ (FieldDef.isPlain_iff ..)

@[mk_iff]
structure StructDef.IsPlain (d : StructDef) : Prop where
  fields : ∀ entry ∈ d.fields.entries, entry.2.IsPlain entry.1
  doc : ∀ doc ∈ d.doc, IsPlainDoc doc

instance (d : StructDef) : Decidable d.IsPlain :=
  decidable_of_iff' _ (StructDef.isPlain_iff ..)

/-- Only a decoder shows which case is the fallback, and only by the usual name of it. -/
@[mk_iff]
structure StringEnumDef.IsPlain (usualFallback : String) (d : StringEnumDef) : Prop where
  decodes : d.fallbackCase.isSome = true → d.direction.allowsDecode = true
  usual : ∀ fallback ∈ d.fallbackCase, fallback = usualFallback
  added : ∀ fallback ∈ d.fallbackCase, d.values.contains fallback = false
  doc : ∀ doc ∈ d.doc, IsPlainDoc doc

instance (usualFallback : String) (d : StringEnumDef) : Decidable (d.IsPlain usualFallback) :=
  decidable_of_iff' _ (StringEnumDef.isPlain_iff ..)

@[mk_iff]
structure AliasDef.IsPlain (d : AliasDef) : Prop where
  target : IsPlainText d.target
  unmarked : d.deprecated = false → ∀ doc ∈ d.doc,
    ∀ marker ∈ Extraction.deprecationMarkers, Text.containsLower marker doc = false
  doc : ∀ doc ∈ d.doc, IsPlainDoc doc

instance (d : AliasDef) : Decidable d.IsPlain :=
  decidable_of_iff' _ (AliasDef.isPlain_iff ..)

/-! ### Unions -/

/-- A labeled value of a case, which has no documentation of its own. -/
@[mk_iff]
structure FieldDef.IsLabeled (name : String) (field : FieldDef) : Prop where
  type : MeansItself field.type
  wireName : field.wireName ≠ some name
  doc : field.doc = none
  label : name ≠ "_"

instance (name : String) (field : FieldDef) : Decidable (field.IsLabeled name) :=
  decidable_of_iff' _ (FieldDef.isLabeled_iff ..)

def VariantPayload.fields : VariantPayload → List (String × FieldDef)
  | .inline fields => fields.entries
  | _ => []

def VariantPayload.IsPlain : VariantPayload → Prop
  | .unit => True
  | .wrapped type => MeansItself type
  | .inline fields => fields.entries ≠ [] ∧ ∀ entry ∈ fields.entries, entry.2.IsLabeled entry.1

instance : (payload : VariantPayload) → Decidable payload.IsPlain
  | .unit => inferInstanceAs (Decidable True)
  | .wrapped type => inferInstanceAs (Decidable (MeansItself type))
  | .inline fields => inferInstanceAs (Decidable (fields.entries ≠ [] ∧
      ∀ entry ∈ fields.entries, entry.2.IsLabeled entry.1))

def UnionDef.payloadFields (d : UnionDef) : List (String × FieldDef) :=
  d.variants.entries.flatMap fun entry => entry.2.payload.fields

def SameKeys (fields : List (String × FieldDef)) : Prop :=
  ∀ a ∈ fields, ∀ b ∈ fields, a.1 = b.1 → a.2.effectiveWireName a.1 = b.2.effectiveWireName b.1

instance (fields : List (String × FieldDef)) : Decidable (SameKeys fields) :=
  inferInstanceAs (Decidable (∀ a ∈ fields, ∀ b ∈ fields, a.1 = b.1 →
    a.2.effectiveWireName a.1 = b.2.effectiveWireName b.1))

/-- The variant that absorbs unknown values in code: the unit of the usual name, if there is
a decoder that could choose it. -/
def UnionDef.usualFallback? (usualFallback : String) (d : UnionDef) : Option String :=
  if (d.variants.get? usualFallback).any VariantDef.isUnit && d.direction.allowsDecode then
    some usualFallback
  else none

@[mk_iff]
structure UnionDef.IsPlain (usualFallback : String) (d : UnionDef) : Prop where
  payloads : ∀ entry ∈ d.variants.entries, entry.2.payload.IsPlain
  docs : ∀ entry ∈ d.variants.entries, ∀ doc ∈ entry.2.doc, IsPlainDoc doc
  doc : ∀ doc ∈ d.doc, IsPlainDoc doc
  sameKeys : SameKeys d.payloadFields
  tagAside : ∀ disc ∈ d.discriminator, ∀ field ∈ d.payloadFields, field.1 ≠ Generation.tagKey disc
  tagged : d.discriminator.isSome = true → ∃ entry ∈ d.variants.entries,
    d.isFallback entry.1 = false
  fallback : d.fallbackVariant = d.usualFallback? usualFallback
  fallbackTag : ∀ entry ∈ d.variants.entries, d.isFallback entry.1 = true →
    entry.2.wireTag entry.1 = entry.1

instance (usualFallback : String) (d : UnionDef) : Decidable (d.IsPlain usualFallback) :=
  decidable_of_iff' _ (UnionDef.isPlain_iff ..)

/-! ### All but unions -/

def TypeDef.IsPlain (usualFallback : String) : TypeDef → Prop
  | .struct d => d.IsPlain
  | .stringEnum d => d.IsPlain usualFallback
  | .typeAlias d => d.IsPlain
  | .union _ => False

instance (usualFallback : String) : (definition : TypeDef) →
    Decidable (definition.IsPlain usualFallback)
  | .struct d => inferInstanceAs (Decidable d.IsPlain)
  | .stringEnum d => inferInstanceAs (Decidable (d.IsPlain usualFallback))
  | .typeAlias d => inferInstanceAs (Decidable d.IsPlain)
  | .union _ => inferInstanceAs (Decidable False)

/-! ## Plain types -/

namespace TypeExpr

theorem customNames_asOptional (t : TypeExpr) : t.asOptional.customNames = t.customNames := by
  unfold asOptional
  split <;> rfl

/-- Names that are replaced by themselves leave the type as it is. -/
theorem rename_eq_self {f : String → String} (hf : ∀ name, f name = name) {t : TypeExpr}
    (h : t.WellFormed) : t.rename f = t := by
  induction t with
  | primitive p => rfl
  | list t ih => rw [rename, ih h]
  | map key value ihkey ihvalue => rw [rename, ihkey h.1, ihvalue h.2]
  | optional t ih => rw [rename, ih h.1, asOptional_of_not_isOptional h.2]
  | custom name => rw [rename, hf]

end TypeExpr

namespace Swift

theorem isWritable_of_customNames {t : TypeExpr} (hwell : t.WellFormed)
    (h : ∀ name ∈ t.customNames, IsDotted name.toList) : IsWritable t := by
  induction t with
  | primitive p => trivial
  | list t ih => exact ih hwell h
  | map key value ihkey ihvalue =>
    exact ⟨ihkey hwell.1 fun name hname => h name (List.mem_append_left _ hname),
      ihvalue hwell.2 fun name hname => h name (List.mem_append_right _ hname)⟩
  | optional t ih => exact ⟨ih hwell.1 h, hwell.2⟩
  | custom name => exact h name List.mem_cons_self

theorem isPlain_of_customNames {t : TypeExpr} (hwell : t.WellFormed)
    (h : ∀ name ∈ t.customNames, IsPlainName name) : IsPlain t := by
  induction t with
  | primitive p => trivial
  | list t ih => exact ih hwell h
  | map key value ihkey ihvalue =>
    exact ⟨ihkey hwell.1 fun name hname => h name (List.mem_append_left _ hname),
      ihvalue hwell.2 fun name hname => h name (List.mem_append_right _ hname)⟩
  | optional t ih => exact ⟨ih hwell.1 h, hwell.2⟩
  | custom name => exact h name List.mem_cons_self

end Swift

theorem wellFormed_denoted {type : String} (h : DenotesType type) : (denoted type).WellFormed :=
  TypeExpr.parse_wellFormed (parse_eq_denoted h)

namespace MeansItself

variable {type : String}

theorem denotesType (h : MeansItself type) : DenotesType type := by
  obtain ⟨t, ht, -⟩ := TypeExpr.canonicalize_eq_ok_iff.mp h.canonical
  exact ⟨t, ht⟩

theorem text_denoted (h : MeansItself type) : (denoted type).text = type := by
  obtain ⟨t, ht, htext⟩ := TypeExpr.canonicalize_eq_ok_iff.mp h.canonical
  have hsame : t = denoted type := Except.ok.inj (ht.symm.trans (parse_eq_denoted h.denotesType))
  rw [← hsame, htext]

theorem isPlain_denoted (h : MeansItself type) : Swift.IsPlain (denoted type) :=
  Swift.isPlain_of_customNames (wellFormed_denoted h.denotesType) h.names

end MeansItself

namespace IsPlainText

variable {type : String}

theorem meansItself (h : IsPlainText type) : MeansItself type :=
  ⟨h.canonical, fun name hname => (h.names name hname).1⟩

theorem denotesType (h : IsPlainText type) : DenotesType type :=
  h.meansItself.denotesType

end IsPlainText

namespace FieldDef

variable {field : FieldDef}

def codeType (field : FieldDef) : TypeExpr :=
  field.foldedType (denoted field.type)

theorem wellFormed_codeType (h : DenotesType field.type) : field.codeType.WellFormed := by
  unfold codeType foldedType
  split
  · exact TypeExpr.asOptional_wellFormed (wellFormed_denoted h)
  · exact wellFormed_denoted h

theorem customNames_codeType : field.codeType.customNames = (denoted field.type).customNames := by
  unfold codeType foldedType
  split
  · exact TypeExpr.customNames_asOptional _
  · rfl

theorem isPlain_codeType (h : MeansItself field.type) : Swift.IsPlain field.codeType := by
  refine Swift.isPlain_of_customNames (wellFormed_codeType h.denotesType) fun name hname => ?_
  rw [customNames_codeType] at hname
  exact h.names name hname

theorem standsAlone_codeType (h : IsPlainText field.type) : Swift.StandsAlone field.codeType := by
  refine ⟨(isPlain_codeType h.meansItself).writable, fun name hname => ?_⟩
  have hmem : name ∈ field.codeType.customNames := by
    rw [hname]
    exact List.mem_cons_self
  rw [customNames_codeType] at hmem
  exact (h.names name hmem).2

end FieldDef

/-! ## Names without a lead -/

namespace Generation.Namer

variable {namer : Namer}

theorem typeName_of_lead (h : namer.lead = "") (name : String) : namer.typeName name = name := by
  rw [typeName, h, String.empty_append]

theorem reference_of_lead (h : namer.lead = "") (name : String) :
    namer.reference name = name := by
  unfold reference
  split
  · exact typeName_of_lead h name
  · rfl

/-- What a field is in code whose names have no lead. -/
theorem fieldForm_of_lead (h : namer.lead = "") {entry : String × FieldDef}
    (htype : DenotesType entry.2.type) :
    namer.fieldForm entry =
      { name := entry.1, wireName := entry.2.effectiveWireName entry.1, type := entry.2.codeType
        isOptional := entry.2.isOptional, doc := entry.2.doc } := by
  have hcode : (entry.2.foldedType (denoted entry.2.type)).rename namer.reference =
      entry.2.codeType :=
    TypeExpr.rename_eq_self (reference_of_lead h) (FieldDef.wellFormed_codeType htype)
  rw [fieldForm, hcode]

end Generation.Namer

end WireSchema
