import WireSchema.Proofs.NameMap
import WireSchema.Proofs.Verification.Accepted

/-!
# Verification and the normal form

An accepted schema is well-typed, and its normal form is accepted again: no check
depends on how a type is spelled, or on a wire name that is the field's own.
-/

namespace WireSchema

open Document (canonicalOrSame)
open Verification

/-! ## Accepted schemas are well-typed -/

theorem fieldsWellTyped_of_accepted {fields : NameMap FieldDef}
    (h : FieldsAccepted fields.entries) : FieldsAll FieldDef.WellTyped fields :=
  h.typed

theorem payloadWellTyped_of_accepted {d : UnionDef} {payload : VariantPayload}
    (h : PayloadAccepted d payload) : payload.All FieldDef.WellTyped DenotesType := by
  cases payload with
  | unit => trivial
  | wrapped type => exact h
  | inline fields =>
    obtain ⟨_, -, hfields, -⟩ := h
    exact fieldsWellTyped_of_accepted hfields

theorem wellTyped_of_accepted {definition : TypeDef} (h : DefinitionAccepted definition) :
    definition.All FieldDef.WellTyped DenotesType := by
  cases definition with
  | struct d => exact fieldsWellTyped_of_accepted h
  | stringEnum d => trivial
  | union d => exact fun entry hentry => payloadWellTyped_of_accepted (h.variants.payloads entry hentry)
  | typeAlias d => trivial

theorem Schema.wellTyped_of_verify {schema : Schema} (h : verify schema = .ok ()) :
    schema.WellTyped :=
  fun entry hentry => wellTyped_of_accepted (verify_eq_ok_iff.mp h entry hentry).definition

/-! ## The normal form is accepted -/

theorem denotesType_canonicalOrSame {type : String} (h : DenotesType type) :
    DenotesType (canonicalOrSame type) := by
  obtain ⟨t, ht⟩ := h
  rw [canonicalOrSame_of_parse ht]
  exact ⟨t, TypeExpr.parse_text_of_parse ht⟩

theorem wireNames_normalized (fields : NameMap FieldDef) :
    wireNames (fieldsNormalized fields).entries = wireNames fields.entries := by
  simp [wireNames, fieldsNormalized]

theorem fieldsAccepted_normalized {fields : NameMap FieldDef}
    (h : FieldsAccepted fields.entries) : FieldsAccepted (fieldsNormalized fields).entries := by
  refine ⟨?_, ?_, ?_⟩
  · intro entry hentry
    obtain ⟨old, hold, rfl⟩ := List.mem_map.mp hentry
    exact h.identifiers old hold
  · intro entry hentry
    obtain ⟨old, hold, rfl⟩ := List.mem_map.mp hentry
    obtain ⟨t, ht⟩ := h.typed old hold
    exact ⟨_, FieldDef.parse_type_normalized ht old.1⟩
  · rw [wireNames_normalized]
    exact h.distinct

@[simp] theorem isUnit_normalized (variant : VariantDef) :
    variant.normalized.isUnit = variant.isUnit := by
  rcases variant with ⟨tag, _ | type | fields, literal, doc⟩ <;> rfl

theorem get?_mapValues {α β : Type} (map : NameMap α) (f : String → α → β) (name : String) :
    (map.mapValues f).get? name = (map.get? name).map (f name) := by
  simp only [NameMap.get?, NameMap.entries_mapValues, List.find?_map, Option.map_map]
  have hsame : ((fun entry : String × β => entry.1 == name) ∘
      fun entry : String × α => (entry.1, f entry.1 entry.2)) = fun entry => entry.1 == name := rfl
  rw [hsame]
  cases hfind : map.entries.find? fun entry => entry.1 == name with
  | none => rfl
  | some entry =>
    have hname := List.find?_some hfind
    simp only [beq_iff_eq] at hname
    simp [hname]

/-- A payload fits a kind of literal whether or not its text is canonical. -/
theorem fitsLiteral_normalized {payload : VariantPayload} {literal : LiteralSugar}
    (h : fitsLiteral payload literal = true) : fitsLiteral payload.normalized literal = true := by
  cases payload with
  | unit => exact h
  | inline fields => cases literal <;> exact h
  | wrapped type =>
    cases literal with
    | string =>
      have htype : type = "string" := by simpa [fitsLiteral] using h
      have hparse : TypeExpr.parse "string" = .ok (.primitive .string) :=
        TypeExpr.parse_text (show (TypeExpr.primitive .string).WellFormed from trivial)
      have hsame : canonicalOrSame "string" = "string" := canonicalOrSame_of_parse hparse
      simp [VariantPayload.normalized, fitsLiteral, htype, hsame]
    | array =>
      cases hparse : TypeExpr.parse type with
      | error fault => simp [fitsLiteral, hparse] at h
      | ok t =>
        have hsame := TypeExpr.parse_text_of_parse hparse
        simp only [fitsLiteral, hparse] at h
        simp only [VariantPayload.normalized, fitsLiteral, canonicalOrSame_of_parse hparse, hsame]
        exact h

theorem payloadAccepted_normalized {d : UnionDef} {payload : VariantPayload}
    (h : PayloadAccepted d payload) : PayloadAccepted d.normalized payload.normalized := by
  cases payload with
  | unit => trivial
  | wrapped type => exact denotesType_canonicalOrSame h
  | inline fields =>
    obtain ⟨field, hdisc, hfields, hfield⟩ := h
    exact ⟨field, hdisc, fieldsAccepted_normalized hfields, by rwa [wireNames_normalized]⟩

theorem rawKindOf?_normalized (variant : VariantDef) :
    UnionDef.rawKindOf? variant.normalized = UnionDef.rawKindOf? variant := by
  rw [UnionDef.rawKindOf?, UnionDef.rawKindOf?, isUnit_normalized]
  rfl

@[simp] theorem rawValueType_normalized (d : UnionDef) :
    d.normalized.rawValueType = d.rawValueType := by
  simp only [UnionDef.rawValueType, UnionDef.normalized, NameMap.entries_mapValues,
    List.filter_map, List.map_map]
  congr 2
  exact List.map_congr_left fun entry _ => rawKindOf?_normalized entry.2

theorem ownTags_normalized (d : UnionDef) :
    ownTags d.normalized d.normalized.variants.entries = ownTags d d.variants.entries := by
  simp only [ownTags, UnionDef.normalized, NameMap.entries_mapValues, List.filter_map,
    List.map_map]
  rfl

theorem ownLiterals_normalized (d : UnionDef) :
    ownLiterals d.normalized.variants.entries = ownLiterals d.variants.entries := by
  simp only [ownLiterals, UnionDef.normalized, NameMap.entries_mapValues, List.filterMap_map]
  rfl

theorem variantsAccepted_normalized {d : UnionDef}
    (h : VariantsAccepted d d.variants.entries) :
    VariantsAccepted d.normalized d.normalized.variants.entries := by
  refine ⟨?_, ?_, ?_, ?_, ?_⟩
  · intro entry hentry
    obtain ⟨old, hold, rfl⟩ := List.mem_map.mp hentry
    exact h.identifiers old hold
  · intro entry hentry
    obtain ⟨old, hold, rfl⟩ := List.mem_map.mp hentry
    exact payloadAccepted_normalized (h.payloads old hold)
  · intro entry hentry
    obtain ⟨old, hold, rfl⟩ := List.mem_map.mp hentry
    exact fun literal hliteral => fitsLiteral_normalized (h.literals old hold literal hliteral)
  · rw [ownTags_normalized]
    exact h.distinctTags
  · rw [ownLiterals_normalized]
    exact h.distinctLiterals

theorem unionAccepted_normalized {d : UnionDef} (h : UnionAccepted d) :
    UnionAccepted d.normalized := by
  refine ⟨?_, variantsAccepted_normalized h.variants, h.discriminator, ?_, ?_⟩
  · intro fallback hfallback
    obtain ⟨variant, hvariant, hunit⟩ := h.fallback fallback hfallback
    rw [Option.mem_def] at hvariant
    exact ⟨variant.normalized, by simp [UnionDef.normalized, get?_mapValues, hvariant],
      by simpa using hunit⟩
  · have htags := h.tags
    rw [tagsHaveMeaning, rawValueType_normalized, UnionDef.normalized, NameMap.entries_mapValues,
      List.all_map]
    exact htags
  · have hunits := h.bareUnits
    have hsame : ∀ entry : String × VariantDef,
        isBareUnit d.normalized entry.1 entry.2.normalized = isBareUnit d entry.1 entry.2 := by
      intro entry
      rw [isBareUnit, isUnit_normalized]
      rfl
    have hentries : d.normalized.variants.entries =
        d.variants.entries.map fun entry => (entry.1, entry.2.normalized) := rfl
    rw [hentries, List.filter_map, List.length_map]
    simpa only [Function.comp_def, hsame] using hunits

theorem definitionAccepted_normalized {definition : TypeDef}
    (h : DefinitionAccepted definition) : DefinitionAccepted definition.normalized := by
  cases definition with
  | struct d => exact fieldsAccepted_normalized h
  | stringEnum d => exact h
  | union d => exact unionAccepted_normalized h
  | typeAlias d => exact h

/-- Putting an accepted schema in normal form leaves it accepted. -/
theorem Schema.verify_normalized {schema : Schema} (h : verify schema = .ok ()) :
    verify schema.normalized = .ok () := by
  refine verify_eq_ok_iff.mpr fun entry hentry => ?_
  obtain ⟨old, hold, rfl⟩ := List.mem_map.mp hentry
  have haccepted := verify_eq_ok_iff.mp h old hold
  exact ⟨haccepted.identifier, haccepted.free, definitionAccepted_normalized haccepted.definition⟩

end WireSchema
