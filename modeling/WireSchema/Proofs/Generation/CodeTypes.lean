import WireSchema.Proofs.Generation.Files
import WireSchema.Proofs.Generation.Parses

/-!
# Types in generated code

The types that a definition refers to, and the types that are written in its code: the same
ones, with the types of the schema under their names in code. Each of them stands in the file
of the type.
-/

namespace WireSchema.Generation

open Swift (typeText)
open Verification

/-! ## Types of a definition -/

def payloadTypes : VariantPayload → List TypeExpr
  | .unit => []
  | .wrapped type => [denoted type]
  | .inline fields => fields.entries.map fun entry => entry.2.codeType

/-- The types that a definition refers to, in the order of the code. -/
def typesOf : TypeDef → List TypeExpr
  | .struct d => d.fields.entries.map fun entry => entry.2.codeType
  | .stringEnum _ => []
  | .union d => (orderedVariants d).flatMap fun entry => payloadTypes entry.2.payload
  | .typeAlias d => [denoted d.target]

def PayloadForm.types : PayloadForm → List TypeExpr
  | .unit => []
  | .wrapped type => [type]
  | .inline fields => fields.map FieldForm.type

def Namer.codeTypes (namer : Namer) : TypeDef → List TypeExpr
  | .struct d => d.fields.entries.map fun entry => (namer.fieldForm entry).type
  | .stringEnum _ => []
  | .union d => (namer.unionForms d).flatMap fun form => form.payload.types
  | .typeAlias d => [(denoted d.target).rename namer.reference]

theorem payloadForm_types (namer : Namer) (payload : VariantPayload) :
    (namer.payloadForm payload).types =
      (payloadTypes payload).map (TypeExpr.rename namer.reference) := by
  cases payload with
  | unit => rfl
  | wrapped type => rfl
  | inline fields =>
    rw [Namer.payloadForm]
    split
    · next hempty =>
      rw [payloadTypes, List.isEmpty_iff.mp hempty]
      rfl
    · rw [PayloadForm.types, payloadTypes, List.map_map, List.map_map]
      rfl

/-- Code writes the types of a definition with the types of the schema under their names in code. -/
theorem codeTypes_eq (namer : Namer) (definition : TypeDef) :
    namer.codeTypes definition =
      (typesOf definition).map (TypeExpr.rename namer.reference) := by
  cases definition with
  | struct d =>
    rw [Namer.codeTypes, typesOf, List.map_map]
    rfl
  | stringEnum d => rfl
  | union d =>
    rw [Namer.codeTypes, typesOf, Namer.unionForms, List.flatMap_map, List.map_flatMap]
    exact congrArg (fun types => (orderedVariants d).flatMap types)
      (funext fun entry => payloadForm_types namer entry.2.payload)
  | typeAlias d => rfl

theorem wellFormed_of_mem_typesOf {definition : TypeDef} (h : DefinitionAccepted definition)
    {t : TypeExpr} (ht : t ∈ typesOf definition) : t.WellFormed := by
  cases definition with
  | struct d =>
    obtain ⟨entry, hentry, rfl⟩ := List.mem_map.mp ht
    exact FieldDef.wellFormed_codeType (fieldsWellTyped_of_accepted h entry hentry)
  | stringEnum d => cases ht
  | union d =>
    obtain ⟨entry, hordered, ht⟩ := List.mem_flatMap.mp ht
    have htyped := wellTyped_of_accepted h entry (mem_of_mem_orderedVariants hordered)
    cases hpayload : entry.2.payload with
    | unit => rw [hpayload] at ht; cases ht
    | wrapped type =>
      rw [hpayload] at ht htyped
      rw [List.mem_singleton.mp ht]
      exact wellFormed_denoted htyped
    | inline fields =>
      rw [hpayload] at ht htyped
      obtain ⟨field, hfield, rfl⟩ := List.mem_map.mp ht
      exact FieldDef.wellFormed_codeType (htyped field hfield)
  | typeAlias d =>
    rw [List.mem_singleton.mp ht]
    exact wellFormed_denoted h.typed

/-! ## Where the types stand -/

def StandsIn (t : TypeExpr) (text : String) : Prop :=
  (typeText t).toList <:+: text.toList

theorem infix_append_left (front text : String) : text.toList <:+: (front ++ text).toList := by
  rw [String.toList_append]
  exact (List.suffix_append _ _).isInfix

theorem infix_append_right (text back : String) : text.toList <:+: (text ++ back).toList := by
  rw [String.toList_append]
  exact (List.prefix_append _ _).isInfix

theorem infix_between (front text back : String) :
    text.toList <:+: (front ++ text ++ back).toList :=
  (infix_append_left front text).trans (infix_append_right _ back)

theorem infix_intercalate {item : String} {items : List String} (h : item ∈ items)
    (separator : String) : item.toList <:+: (String.intercalate separator items).toList := by
  induction items with
  | nil => cases h
  | cons first later ih =>
    cases later with
    | nil =>
      obtain rfl : item = first := List.mem_singleton.mp h
      exact (congrArg String.toList String.intercalate_singleton).symm ▸ List.infix_rfl
    | cons next later =>
      rw [String.intercalate_cons_cons]
      rcases List.mem_cons.mp h with rfl | hlater
      · exact (infix_append_right _ separator).trans (infix_append_right _ _)
      · exact (ih hlater).trans (infix_append_left _ _)

theorem standsIn_payloadText {payload : PayloadForm} {t : TypeExpr} (h : t ∈ payload.types) :
    StandsIn t (payloadText payload) := by
  cases payload with
  | unit => cases h
  | wrapped type =>
    rw [List.mem_singleton.mp h]
    exact infix_between "(" _ ")"
  | inline fields =>
    obtain ⟨field, hfield, rfl⟩ := List.mem_map.mp h
    have hlabeled : StandsIn field.type (labeledValue field) := infix_append_left _ _
    have hjoined := infix_intercalate (List.mem_map_of_mem (f := labeledValue) hfield) ", "
    exact hlabeled.trans (hjoined.trans (infix_between "(" _ ")"))

theorem exists_mem_fieldLines (field : FieldForm) :
    ∃ line ∈ fieldLines field, StandsIn field.type line :=
  ⟨_, List.mem_append_right _ List.mem_cons_self, infix_append_left _ _⟩

theorem exists_mem_caseLines {variant : VariantForm} {t : TypeExpr}
    (h : t ∈ variant.payload.types) : ∃ line ∈ caseLines variant, StandsIn t line :=
  ⟨_, List.mem_append_right _ List.mem_cons_self,
    (standsIn_payloadText h).trans (infix_append_left _ _)⟩

/-- Every type in the code of a definition stands in some line of it. -/
theorem exists_line_standsIn {definition : TypeDef} (h : DefinitionAccepted definition)
    {namer : Namer} {name : String} {lines : List String}
    (hlines : definitionLines namer name definition = .ok lines) {t : TypeExpr}
    (ht : t ∈ namer.codeTypes definition) : ∃ line ∈ lines, StandsIn t line := by
  cases definition with
  | struct d =>
    obtain ⟨entry, hentry, rfl⟩ := List.mem_map.mp ht
    have hfields := Namer.resolveFields_eq_ok namer (fieldsWellTyped_of_accepted h)
    rw [definitionLines, structLines, hfields] at hlines
    cases hlines
    obtain ⟨line, hline, hstands⟩ := exists_mem_fieldLines (namer.fieldForm entry)
    have hconstants := List.mem_flatMap.mpr ⟨_, List.mem_map_of_mem hentry, hline⟩
    refine ⟨line, ?_, hstands⟩
    simp only [List.mem_append]
    exact .inl (.inl (.inl (.inr hconstants)))
  | stringEnum d => cases ht
  | union d =>
    obtain ⟨form, hform, ht⟩ := List.mem_flatMap.mp ht
    cases hraw : d.rawValueType with
    | some raw =>
      -- A numbered enum has units only, so no type stands in it.
      obtain ⟨entry, hordered, rfl⟩ := List.mem_map.mp hform
      have hunit : entry.2.payload = .unit :=
        beq_iff_eq.mp (isUnit_of_rawValueType h hraw (mem_of_mem_orderedVariants hordered))
      rw [Namer.variantForm, hunit] at ht
      cases ht
    | none =>
      rw [definitionLines, unionLines_eq_ok h hraw] at hlines
      cases hlines
      obtain ⟨line, hline, hstands⟩ := exists_mem_caseLines ht
      have hcases := List.mem_flatMap.mpr ⟨_, hform, hline⟩
      refine ⟨line, ?_, hstands⟩
      simp only [List.mem_append]
      exact .inl (.inl (.inl (.inr hcases)))
  | typeAlias d =>
    rw [List.mem_singleton.mp ht]
    have htarget := Namer.resolve_of_parse namer (parse_eq_denoted h.typed)
    rw [definitionLines, aliasLines, htarget] at hlines
    cases hlines
    exact ⟨_, List.mem_append_right _ List.mem_cons_self, infix_append_left _ _⟩

/-- The types in the code of a type of an accepted schema stand in the file of the type. -/
theorem exists_file_standsIn {schema : Schema} (hverify : verify schema = .ok ()) {lead : String}
    {files : List GeneratedFile} (hfiles : render schema lead = .ok files)
    {own : String × TypeDef} (hown : own ∈ schema.types.entries) :
    ∃ file ∈ files, file.fileName = fileNameOf lead own.1 ∧
      ∀ t ∈ (Namer.ofSchema lead schema).codeTypes own.2, StandsIn t file.content := by
  have haccepted := (verify_eq_ok_iff.mp hverify own hown).definition
  obtain ⟨lines, hlines⟩ :=
    definitionLines_succeeds haccepted (Namer.ofSchema lead schema) own.1
  have hfile : renderType (.ofSchema lead schema) own.1 own.2 =
      .ok ⟨fileNameOf lead own.1, header ++ "\n\nimport Foundation\n\n" ++ joinLines lines⟩ := by
    rw [renderType, hlines]
    rfl
  refine ⟨_, mem_renderTypes hfiles hown hfile, rfl, fun t ht => ?_⟩
  obtain ⟨line, hline, hstands⟩ := exists_line_standsIn haccepted hlines ht
  have hjoined : line.toList <:+: (joinLines lines).toList :=
    (infix_intercalate hline "\n").trans (infix_append_right _ "\n")
  exact hstands.trans (hjoined.trans (infix_append_left _ _))

end WireSchema.Generation
