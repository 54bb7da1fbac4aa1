import WireSchema.Generation.Generate
import WireSchema.Proofs.Document.ReadBack
import WireSchema.Proofs.Verification.Normalized

/-!
# Generated code and the normal form

The generator reads types, wire names and optionality, but never how a type is
spelled. So the normal form of a schema, which is what its document holds, gives the
same files.
-/

namespace WireSchema.Generation

open TypeExpr (rename asOptional)
open Verification

/-! ## Types -/

/-- Folding optionality into a type before or after its names are replaced is the same. -/
theorem rename_asOptional (f : String → String) (t : TypeExpr) :
    t.asOptional.rename f = (t.rename f).asOptional := by
  cases t with
  | optional t => simp [TypeExpr.asOptional_optional, rename]
  | _ => rfl

namespace Namer

variable (namer : Namer)

theorem resolve_of_parse {type : String} {t : TypeExpr} (h : TypeExpr.parse type = .ok t) :
    namer.resolve type = .ok (t.rename namer.reference) := by
  rw [resolve, h]
  rfl

theorem fieldType_of_parse {field : FieldDef} {t : TypeExpr}
    (h : TypeExpr.parse field.type = .ok t) :
    namer.fieldType field = .ok ((field.foldedType t).rename namer.reference) := by
  rw [fieldType, resolve_of_parse namer h, FieldDef.foldedType]
  cases field.isOptional with
  | true => simp [Except.map, rename_asOptional]
  | false => rfl

theorem fieldType_normalized {field : FieldDef} (h : DenotesType field.type) (name : String) :
    namer.fieldType (field.normalized name) = namer.fieldType field := by
  obtain ⟨t, ht⟩ := h
  have hfolded : (field.normalized name).foldedType (field.foldedType t) = field.foldedType t := by
    rw [FieldDef.foldedType, FieldDef.isOptional_normalized ht, FieldDef.foldedType]
    cases field.isOptional <;> simp
  rw [fieldType_of_parse namer ht,
    fieldType_of_parse namer (FieldDef.parse_type_normalized ht name), hfolded]

theorem resolveFields_normalized {fields : List (String × FieldDef)}
    (h : ∀ entry ∈ fields, DenotesType entry.2.type) :
    namer.resolveFields (fields.map fun entry => (entry.1, entry.2.normalized entry.1)) =
      namer.resolveFields fields := by
  induction fields with
  | nil => rfl
  | cons entry rest ih =>
    obtain ⟨name, field⟩ := entry
    have hfield : DenotesType field.type := h (name, field) (by simp)
    obtain ⟨t, ht⟩ := hfield
    have hdoc : (field.normalized name).doc = field.doc := rfl
    rw [List.map_cons, resolveFields, resolveFields, fieldType_normalized namer ⟨t, ht⟩,
      ih fun later hlater => h later (by simp [hlater])]
    simp only [FieldDef.effectiveWireName_normalized, FieldDef.isOptional_normalized ht, hdoc]

theorem resolvePayload_normalized {payload : VariantPayload}
    (h : payload.All FieldDef.WellTyped DenotesType) :
    namer.resolvePayload payload.normalized = namer.resolvePayload payload := by
  cases payload with
  | unit => rfl
  | wrapped type =>
    obtain ⟨t, ht⟩ := h
    have hsame := canonicalOrSame_of_parse ht
    simp only [VariantPayload.normalized, resolvePayload, hsame, resolve_of_parse namer ht,
      resolve_of_parse namer (TypeExpr.parse_text_of_parse ht)]
  | inline fields =>
    have hempty : (fieldsNormalized fields).isEmpty = fields.isEmpty := by
      simp [NameMap.isEmpty, fieldsNormalized]
    have hfields := resolveFields_normalized namer h
    simp only [VariantPayload.normalized, resolvePayload, hempty]
    rw [fieldsNormalized, NameMap.entries_mapValues, hfields]

theorem resolveVariants_normalized {d : UnionDef} {variants : List (String × VariantDef)}
    (h : ∀ entry ∈ variants, entry.2.payload.All FieldDef.WellTyped DenotesType) :
    namer.resolveVariants d.normalized
        (variants.map fun entry => (entry.1, entry.2.normalized)) =
      namer.resolveVariants d variants := by
  induction variants with
  | nil => rfl
  | cons entry rest ih =>
    obtain ⟨name, variant⟩ := entry
    have hpayload := resolvePayload_normalized namer (h (name, variant) (by simp))
    have hnormal : variant.normalized.payload = variant.payload.normalized := rfl
    rw [List.map_cons, resolveVariants, resolveVariants, hnormal, hpayload,
      ih fun later hlater => h later (by simp [hlater])]
    rfl

end Namer

/-! ## Definitions -/

theorem orderedVariants_normalized (d : UnionDef) :
    orderedVariants d.normalized =
      (orderedVariants d).map fun entry => (entry.1, entry.2.normalized) := by
  simp only [orderedVariants, UnionDef.normalized, NameMap.entries_mapValues, List.filter_map,
    List.map_append]
  rfl

theorem mem_of_mem_orderedVariants {d : UnionDef} {entry : String × VariantDef}
    (h : entry ∈ orderedVariants d) : entry ∈ d.variants.entries := by
  rcases List.mem_append.mp h with hmem | hmem <;> exact List.mem_of_mem_filter hmem

theorem numberedVariants_normalized (d : UnionDef) :
    numberedVariants d.normalized =
      (numberedVariants d).map fun entry => (entry.1, entry.2.normalized) := by
  simp only [numberedVariants, UnionDef.normalized, NameMap.entries_mapValues, List.filter_map]
  rfl

theorem numberedEnumLines_normalized (namer : Namer) (name : String) (d : UnionDef)
    (raw : RawKind) :
    numberedEnumLines namer name d.normalized raw = numberedEnumLines namer name d raw := by
  have hraw : fallbackRawValue d.normalized = fallbackRawValue d := by
    rw [fallbackRawValue, fallbackRawValue, numberedVariants_normalized, List.map_map]
    rfl
  have hfallback : numberedFallbackLines d.normalized = numberedFallbackLines d := by
    rw [numberedFallbackLines, numberedFallbackLines, hraw]
    have hsame : d.normalized.fallbackVariant = d.fallbackVariant := rfl
    rw [hsame]
    cases d.fallbackVariant with
    | none => rfl
    | some fallback =>
      have hdoc : (d.normalized.variants.get? fallback).bind VariantDef.doc =
          (d.variants.get? fallback).bind VariantDef.doc := by
        rw [UnionDef.normalized, get?_mapValues]
        cases d.variants.get? fallback <;> rfl
      simp only [hdoc]
  have hcases : ((numberedVariants d.normalized).flatMap fun entry =>
        numberedCaseLines entry.1 entry.2) =
      (numberedVariants d).flatMap fun entry => numberedCaseLines entry.1 entry.2 := by
    rw [numberedVariants_normalized, List.flatMap_map]
    rfl
  rw [numberedEnumLines, numberedEnumLines, hfallback, hcases]
  rfl

theorem unionLines_normalized {d : UnionDef}
    (h : ∀ entry ∈ d.variants.entries, entry.2.payload.All FieldDef.WellTyped DenotesType)
    (namer : Namer) (name : String) :
    unionLines namer name d.normalized = unionLines namer name d := by
  have hvariants : namer.resolveVariants d.normalized (orderedVariants d.normalized) =
      namer.resolveVariants d (orderedVariants d) := by
    rw [orderedVariants_normalized]
    exact Namer.resolveVariants_normalized namer fun entry hentry =>
      h entry (mem_of_mem_orderedVariants hentry)
  rw [unionLines, unionLines, rawValueType_normalized, hvariants]
  cases d.rawValueType with
  | some raw => simp only [numberedEnumLines_normalized]
  | none => rfl

theorem definitionLines_normalized {definition : TypeDef}
    (h : definition.All FieldDef.WellTyped DenotesType) (namer : Namer) (name : String) :
    definitionLines namer name definition.normalized = definitionLines namer name definition := by
  cases definition with
  | struct d =>
    have hfields := Namer.resolveFields_normalized namer h
    simp only [TypeDef.normalized, definitionLines, structLines, fieldsNormalized,
      NameMap.entries_mapValues, hfields]
  | stringEnum d => rfl
  | union d => exact unionLines_normalized h namer name
  | typeAlias d => rfl

/-! ## Schemas -/

theorem renderTypes_normalized {entries : List (String × TypeDef)}
    (h : ∀ entry ∈ entries, entry.2.All FieldDef.WellTyped DenotesType) (namer : Namer) :
    renderTypes namer (entries.map fun entry => (entry.1, entry.2.normalized)) =
      renderTypes namer entries := by
  induction entries with
  | nil => rfl
  | cons entry rest ih =>
    obtain ⟨name, definition⟩ := entry
    rw [List.map_cons, renderTypes, renderTypes,
      ih fun later hlater => h later (by simp [hlater]), renderType, renderType,
      definitionLines_normalized (h (name, definition) (by simp))]

theorem render_normalized {schema : Schema} (h : schema.WellTyped) (lead : String) :
    render schema.normalized lead = render schema lead := by
  have hnames : schema.normalized.types.names = schema.types.names := by
    simp [Schema.normalized, NameMap.names, Function.comp_def]
  have hentries : schema.normalized.types.entries =
      schema.types.entries.map fun entry => (entry.1, entry.2.normalized) := rfl
  rw [render, render, Namer.ofSchema, Namer.ofSchema, hnames, hentries]
  exact renderTypes_normalized h _

end WireSchema.Generation
