import WireSchema.Proofs.Generation.Normalized

/-!
# The forms of well-typed definitions

On texts that denote types, resolving never fails, and what it gives is a function of
the definition. So code can be generated from every accepted schema.
-/

namespace WireSchema

/-- The type that a text denotes; any type will do for other texts. -/
def denoted (type : String) : TypeExpr :=
  match TypeExpr.parse type with
  | .ok t => t
  | .error _ => .primitive .any

theorem parse_eq_denoted {type : String} (h : DenotesType type) :
    TypeExpr.parse type = .ok (denoted type) := by
  obtain ⟨t, ht⟩ := h
  rw [denoted, ht]

namespace Generation

open Verification

namespace Namer

variable (namer : Namer)

def fieldForm (entry : String × FieldDef) : FieldForm :=
  { name := entry.1
    wireName := entry.2.effectiveWireName entry.1
    type := (entry.2.foldedType (denoted entry.2.type)).rename namer.reference
    isOptional := entry.2.isOptional
    doc := entry.2.doc }

def payloadForm : VariantPayload → PayloadForm
  | .unit => .unit
  | .wrapped type => .wrapped ((denoted type).rename namer.reference)
  | .inline fields =>
    if fields.isEmpty then .unit else .inline (fields.entries.map namer.fieldForm)

def variantForm (d : UnionDef) (entry : String × VariantDef) : VariantForm :=
  { name := entry.1
    tag := entry.2.wireTag entry.1
    payload := namer.payloadForm entry.2.payload
    literal := entry.2.literal
    doc := entry.2.doc
    isFallback := d.isFallback entry.1 }

theorem resolveFields_eq_ok {fields : List (String × FieldDef)}
    (h : ∀ entry ∈ fields, DenotesType entry.2.type) :
    namer.resolveFields fields = .ok (fields.map namer.fieldForm) := by
  induction fields with
  | nil => rfl
  | cons entry rest ih =>
    obtain ⟨name, field⟩ := entry
    have hfield := fieldType_of_parse namer
      (parse_eq_denoted (h (name, field) (by simp)))
    rw [resolveFields, hfield, ih fun later hlater => h later (by simp [hlater])]
    rfl

theorem resolvePayload_eq_ok {payload : VariantPayload}
    (h : payload.All FieldDef.WellTyped DenotesType) :
    namer.resolvePayload payload = .ok (namer.payloadForm payload) := by
  cases payload with
  | unit => rfl
  | wrapped type =>
    rw [resolvePayload, resolve_of_parse namer (parse_eq_denoted h)]
    rfl
  | inline fields =>
    rw [resolvePayload, payloadForm, resolveFields_eq_ok namer h]
    split <;> rfl

theorem resolveVariants_eq_ok {d : UnionDef} {variants : List (String × VariantDef)}
    (h : ∀ entry ∈ variants, entry.2.payload.All FieldDef.WellTyped DenotesType) :
    namer.resolveVariants d variants = .ok (variants.map (namer.variantForm d)) := by
  induction variants with
  | nil => rfl
  | cons entry rest ih =>
    obtain ⟨name, variant⟩ := entry
    have hpayload := resolvePayload_eq_ok namer (h (name, variant) (by simp))
    rw [resolveVariants, hpayload, ih fun later hlater => h later (by simp [hlater])]
    rfl

end Namer

def Namer.unionForms (namer : Namer) (d : UnionDef) : List VariantForm :=
  (orderedVariants d).map (namer.variantForm d)

theorem unionLines_eq_ok {d : UnionDef} (h : DefinitionAccepted (.union d))
    (hraw : d.rawValueType = none) (namer : Namer) (name : String) :
    unionLines namer name d = .ok (docLines "" d.doc ++
      ["public enum " ++ namer.typeName name ++ ": " ++ conformance d.direction ++
        ", Sendable \x7b"] ++ (namer.unionForms d).flatMap caseLines ++
      unionBody (namer.typeName name) d (namer.unionForms d) ++ ["\x7d"] ++
      (namer.unionForms d).flatMap (literalLines (namer.typeName name))) := by
  have hvariants := Namer.resolveVariants_eq_ok namer (d := d)
    fun entry hentry => wellTyped_of_accepted h entry (mem_of_mem_orderedVariants hentry)
  rw [unionLines, hraw]
  simp only [hvariants]
  rfl

theorem definitionLines_succeeds {definition : TypeDef} (h : DefinitionAccepted definition)
    (namer : Namer) (name : String) :
    ∃ lines, definitionLines namer name definition = .ok lines := by
  cases definition with
  | struct d =>
    have hfields := Namer.resolveFields_eq_ok namer (fieldsWellTyped_of_accepted h)
    exact ⟨_, by rw [definitionLines, structLines, hfields]; rfl⟩
  | stringEnum d => exact ⟨_, rfl⟩
  | union d =>
    cases hraw : d.rawValueType with
    | some raw => exact ⟨_, by rw [definitionLines, unionLines, hraw]⟩
    | none => exact ⟨_, unionLines_eq_ok h hraw namer name⟩
  | typeAlias d =>
    have htarget := Namer.resolve_of_parse namer (parse_eq_denoted h.typed)
    exact ⟨_, by rw [definitionLines, aliasLines, htarget]; rfl⟩

theorem renderTypes_succeeds {entries : List (String × TypeDef)}
    (h : ∀ entry ∈ entries, EntryAccepted entry) (namer : Namer) :
    ∃ files, renderTypes namer entries = .ok files := by
  induction entries with
  | nil => exact ⟨[], rfl⟩
  | cons entry rest ih =>
    obtain ⟨name, definition⟩ := entry
    obtain ⟨files, hfiles⟩ := ih fun later hlater => h later (by simp [hlater])
    obtain ⟨lines, hlines⟩ :=
      definitionLines_succeeds (h (name, definition) (by simp)).definition namer name
    exact ⟨_, by rw [renderTypes, renderType, hlines, hfiles]; rfl⟩

/-- Code can be generated from every accepted schema, whatever stands in front of its names. -/
theorem render_succeeds {schema : Schema} (h : verify schema = .ok ()) (lead : String) :
    ∃ files, render schema lead = .ok files :=
  renderTypes_succeeds (verify_eq_ok_iff.mp h) _

theorem mem_renderTypes {namer : Namer} {entries : List (String × TypeDef)}
    {files : List GeneratedFile} (h : renderTypes namer entries = .ok files)
    {entry : String × TypeDef} (hentry : entry ∈ entries) {file : GeneratedFile}
    (hfile : renderType namer entry.1 entry.2 = .ok file) : file ∈ files := by
  induction entries generalizing files with
  | nil => cases hentry
  | cons first later ih =>
    obtain ⟨firstFile, hfirst, h⟩ := Outcome.bind_eq_ok_iff.mp h
    obtain ⟨laterFiles, hlater, h⟩ := Outcome.bind_eq_ok_iff.mp h
    cases h
    rcases List.mem_cons.mp hentry with rfl | hmem
    · cases hfirst.symm.trans hfile
      exact List.mem_cons_self
    · exact List.mem_cons_of_mem _ (ih hlater hmem)

theorem generate_of_render {schema : Schema} (hverify : verify schema = .ok ()) {lead : String}
    {files : List GeneratedFile} (h : render schema lead = .ok files) :
    generate schema .swift lead = .ok files := by
  rw [generate, hverify]
  show (render schema lead).mapError Fault.invalidType = .ok files
  rw [h]
  rfl

/-! ## Saved schemas -/

open Document in
/-- Saving an accepted schema and loading it again changes nothing in the generated code. The
schema that is loaded is accepted, and gives the same files in the same order. -/
theorem render_saved {schema : Schema} (hverify : verify schema = .ok ())
    (hyaml : Yaml.Value.parse? (emit schema) = some (toValue schema)) (lead : String) :
    ∃ saved files,
      parse .strict (emit schema) = ⟨versionWarnings schema.version, .ok saved⟩ ∧
        verify saved = .ok () ∧ render schema lead = .ok files ∧
        render saved lead = .ok files := by
  have htyped := Schema.wellTyped_of_verify hverify
  obtain ⟨files, hfiles⟩ := render_succeeds hverify lead
  refine ⟨schema.normalized, files, ?_, Schema.verify_normalized hverify, hfiles, ?_⟩
  · rw [parse, hyaml]
    exact read_toValue htyped .strict
  · rw [render_normalized htyped, hfiles]

open Document in
theorem render_saved_unfoldedSchema :
    verify unfoldedSchema = .ok () ∧
      Yaml.Value.parse? (emit unfoldedSchema) = some (toValue unfoldedSchema) ∧
      ∃ saved files, parse .strict (emit unfoldedSchema) = ⟨[], .ok saved⟩ ∧
        verify saved = .ok () ∧ render unfoldedSchema "Shop" = .ok files ∧
        render saved "Shop" = .ok files := by
  have hverify : verify unfoldedSchema = .ok () := by decide +kernel
  exact ⟨hverify, parse?_unfoldedSchema, render_saved hverify parse?_unfoldedSchema "Shop"⟩

end Generation

end WireSchema
