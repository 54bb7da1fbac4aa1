import WireSchema.Document.Reader
import WireSchema.Proofs.Document.Normalized
import WireSchema.Proofs.NameMap
import WireSchema.Proofs.Yaml.Value

/-!
# Documents read back

The reader takes the value that the writer lays out and gives the schema in normal
form, with nothing skipped. Each reader is run on the entries that the writer makes
for it; tables are filled entry by entry in the order of their names.
-/

namespace WireSchema.Document

open Yaml (Value Entries get?)

/-! ## Entries by key -/

@[simp] theorem get?_nil (key : String) : get? [] key = none := rfl

@[simp] theorem get?_cons (name key : String) (value : Value) (rest : Entries) :
    get? ((.string name, value) :: rest) key = if name = key then some value else get? rest key := by
  by_cases hname : name = key <;> simp [get?, Value.isText, hname]

@[simp] theorem get?_textEntry (name key text : String) (rest : Entries) :
    get? (textEntry name text :: rest) key =
      if name = key then some (.string text) else get? rest key :=
  get?_cons name key (.string text) rest

@[simp] theorem get?_append (as bs : Entries) (key : String) :
    get? (as ++ bs) key = (get? as key).or (get? bs key) := by
  simp only [get?, List.find?_append]
  cases as.find? fun entry => entry.1.isText key <;> rfl

@[simp] theorem get?_docEntries (doc : Option String) (key : String) :
    get? (docEntries doc) key = if key = "doc" then doc.map .string else none := by
  cases doc with
  | none => simp [docEntries]
  | some doc =>
    by_cases hkey : key = "doc"
    · simp [docEntries, hkey]
    · simp [docEntries, hkey, Ne.symm hkey]

@[simp] theorem get?_discriminatorEntries (discriminator : Option Discriminator) (key : String) :
    get? (discriminatorEntries discriminator) key =
      if key = "discriminator" then
        discriminator.map fun disc =>
          .mapping [textEntry "field" disc.field, textEntry "style" disc.style.name]
      else none := by
  cases discriminator with
  | none => simp [discriminatorEntries]
  | some disc =>
    by_cases hkey : key = "discriminator"
    · simp [discriminatorEntries, hkey]
    · simp [discriminatorEntries, hkey, Ne.symm hkey]

/-- The entries about unknown values lie under two keys. -/
theorem get?_unknownHandlingEntries {handling : Option UnknownHandling} {key : String}
    (h₁ : key ≠ "unknown_handling") (h₂ : key ≠ "fallback_value") :
    get? (unknownHandlingEntries handling) key = none := by
  rcases handling with _ | _ | name <;>
    simp [unknownHandlingEntries, Ne.symm h₁, Ne.symm h₂]

/-! ## Attributes -/

namespace EntryContext

variable {ctx : EntryContext} {entry : Entries}

theorem readDirection_of_get? {direction : Direction}
    (h : get? entry "direction" = some (.string direction.name)) :
    ctx.readDirection entry = Logged.ok direction := by
  rw [readDirection, h]
  cases direction <;> rfl

theorem readDoc_of_get? {doc : Option String} (h : get? entry "doc" = doc.map .string) :
    ctx.readDoc entry = Logged.ok doc := by
  rw [readDoc, h]
  cases doc <;> rfl

theorem readUnknownHandling_of_get? {handling : Option UnknownHandling}
    (h : ∀ key, key = "unknown_handling" ∨ key = "fallback_value" →
      get? entry key = get? (unknownHandlingEntries handling) key) :
    ctx.readUnknownHandling entry = Logged.ok handling := by
  have hhandling := h "unknown_handling" (.inl rfl)
  have hfallback := h "fallback_value" (.inr rfl)
  rcases handling with _ | _ | name
  · rw [readUnknownHandling, hhandling]
    rfl
  · rw [readUnknownHandling, hhandling]
    rfl
  · have hname : ctx.requireString entry "fallback_value" = Logged.ok name := by
      rw [requireString, hfallback]
      rfl
    rw [readUnknownHandling, hhandling]
    simp [unknownHandlingEntries, Value.asString?, Value.untag, hname]
    rfl

theorem readDiscriminator_of_get? {discriminator : Option Discriminator}
    (h : get? entry "discriminator" = get? (discriminatorEntries discriminator) "discriminator") :
    ctx.readDiscriminator entry = Logged.ok discriminator := by
  rw [readDiscriminator, h]
  rcases discriminator with _ | ⟨field, style⟩
  · rfl
  · cases style <;> rfl

/-! ## Fields -/

/-- A text that denotes a type is read as the text of that type. -/
theorem readType_of_parse {type : String} {t : TypeExpr} (h : TypeExpr.parse type = .ok t)
    (name : String) : ctx.readType name type = Logged.ok (some t.text) := by
  rw [readType, TypeExpr.canonicalize_eq_ok_iff.mpr ⟨t, h, rfl⟩]
  rfl

theorem readWireName_fieldEntries (name : String) (field : FieldDef) :
    ctx.readWireName name (fieldEntries name field) =
      Logged.ok (some (field.wireName.filter (· != name))) := by
  have hget : get? (fieldEntries name field) "wire_name" =
      if field.isRemapped name then some (.string (field.effectiveWireName name)) else none := by
    cases hremapped : field.isRemapped name <;>
      by_cases hrequired : field.required =
          !((canonicalOrSame field.canonicalType).toList.getLast? == some '?') <;>
      simp [fieldEntries, hremapped, hrequired]
  rw [readWireName, hget]
  rcases field with ⟨type, _ | wire, required, doc⟩
  · simp [FieldDef.isRemapped, FieldDef.effectiveWireName]
    rfl
  · by_cases hsame : wire = name
    · simp [FieldDef.isRemapped, FieldDef.effectiveWireName, hsame, Option.filter]
      rfl
    · simp [FieldDef.isRemapped, FieldDef.effectiveWireName, hsame, Option.filter]
      rfl

theorem readRequired_fieldEntries {name : String} {field : FieldDef} {t : TypeExpr}
    (h : TypeExpr.parse field.type = .ok t) :
    ctx.readRequired name (fieldEntries name field)
        (FieldDef.ofType (canonicalOrSame field.canonicalType)).required =
      Logged.ok (some field.required) := by
  have htrim := TypeExpr.trimEnd_text (TypeExpr.parse_wellFormed (FieldDef.parse_foldedType h))
  have htype := canonicalOrSame_of_parse (FieldDef.parse_canonicalType h)
  have hlast : ((canonicalOrSame field.canonicalType).toList.getLast? == some '?') =
      endsOptional (canonicalOrSame field.canonicalType) := by
    rw [endsOptional, ← Text.toList_trimEnd, htype]
    exact congrArg (fun s : String => s.toList.getLast? == some '?') htrim.symm
  have hget : get? (fieldEntries name field) "required" =
      if field.required = !endsOptional (canonicalOrSame field.canonicalType) then none
      else some (.bool field.required) := by
    rw [← hlast]
    cases hremapped : field.isRemapped name <;>
      by_cases hrequired : field.required =
          !((canonicalOrSame field.canonicalType).toList.getLast? == some '?') <;>
      simp [fieldEntries, hremapped, hrequired]
  rw [readRequired, hget]
  by_cases hrequired : field.required = !endsOptional (canonicalOrSame field.canonicalType)
  · rw [if_pos hrequired, hrequired]
    rfl
  · rw [if_neg hrequired]
    rfl

/-- A field is read back in normal form. -/
theorem readField_fieldEntries {name : String} {field : FieldDef}
    (h : field.WellTyped name) :
    ctx.readField name (.mapping (fieldEntries name field)) =
      Logged.ok (some (field.normalized name)) := by
  obtain ⟨t, ht⟩ := h
  have htype : get? (fieldEntries name field) "type" =
      some (.string (canonicalOrSame field.canonicalType)) := by
    simp [fieldEntries]
  have hdoc : get? (fieldEntries name field) "doc" = field.doc.map .string := by
    cases hremapped : field.isRemapped name <;>
      by_cases hrequired : field.required =
          !((canonicalOrSame field.canonicalType).toList.getLast? == some '?') <;>
      simp [fieldEntries, hremapped, hrequired]
  have hread : ctx.readType name (canonicalOrSame field.canonicalType) =
      Logged.ok (some (canonicalOrSame field.canonicalType)) := by
    rw [canonicalOrSame_of_parse (FieldDef.parse_canonicalType ht)]
    exact readType_of_parse (FieldDef.parse_foldedType ht) name
  have hfolded : FieldDef.canonicalType
      { FieldDef.ofType (canonicalOrSame field.canonicalType) with
        wireName := field.wireName.filter (· != name), required := field.required } =
      canonicalOrSame field.canonicalType :=
    FieldDef.canonicalType_normalized ht name
  simp only [readField, htype, Option.bind_some, Value.asString?, Value.untag, hread,
    Logged.ok_bind, readFieldEntry, readWireName_fieldEntries, readRequired_fieldEntries ht,
    readDoc_of_get? hdoc, hfolded]
  rfl

/-! ## Tables -/

/-- A table is read entry by entry at the end of what has been read. -/
theorem foldlM_insert {ω ε α β : Type} (layOut : String → α → Value) (f : String → α → β)
    (step : NameMap β → Value × Value → Logged ω ε (NameMap β)) {entries : List (String × α)}
    (hstep : ∀ map, ∀ entry ∈ entries,
      step map (.string entry.1, layOut entry.1 entry.2) =
        Logged.ok (map.insert entry.1 (f entry.1 entry.2)))
    (map : NameMap β) (hasc : Ascending entries)
    (hafter : ∀ done ∈ map.entries, ∀ entry ∈ entries, done.1 < entry.1) :
    ∃ filled, (entries.map fun entry => (Value.string entry.1, layOut entry.1 entry.2)).foldlM
        step map = Logged.ok filled ∧
      filled.entries = map.entries ++ entries.map fun entry => (entry.1, f entry.1 entry.2) := by
  induction entries generalizing map with
  | nil => exact ⟨map, rfl, by simp⟩
  | cons entry rest ih =>
    have hfirst := (List.pairwise_cons.mp hasc).1
    have hinsert : (map.insert entry.1 (f entry.1 entry.2)).entries =
        map.entries ++ [(entry.1, f entry.1 entry.2)] :=
      insertEntry_of_forall_lt fun done hdone => hafter done hdone entry (by simp)
    obtain ⟨filled, hfold, hfilled⟩ := ih
      (fun map later hlater => hstep map later (by simp [hlater]))
      (map.insert entry.1 (f entry.1 entry.2)) (List.pairwise_cons.mp hasc).2 (by
        intro done hdone later hlater
        rw [hinsert] at hdone
        rcases List.mem_append.mp hdone with hold | hnew
        · exact hafter done hold later (by simp [hlater])
        · rw [List.mem_singleton.mp hnew]
          exact hfirst later hlater)
    refine ⟨filled, ?_, by rw [hfilled, hinsert]; simp⟩
    rw [List.map_cons, List.foldlM_cons, hstep map entry (by simp), Logged.ok_bind, hfold]

def tableStep {β : Type} (ctx : EntryContext) (table : String) (badKey : SkipReason)
    (readEntry : String → Value → Reading (Option β)) (map : NameMap β) (entry : Value × Value) :
    Reading (NameMap β) := do
  match entry.1.asString? with
  | none => ctx.skipWith table badKey map
  | some name =>
    match ← readEntry name entry.2 with
    | none => return map
    | some a => return map.insert name a

/-- A table whose entries are read back one by one is read back. -/
theorem readTableValue_tableValue {α β : Type} {map : NameMap α} {layOut : String → α → Value}
    {f : String → α → β} {table : String} {badKey : SkipReason}
    {readEntry : String → Value → Reading (Option β)}
    (h : ∀ entry ∈ map.entries,
      readEntry entry.1 (layOut entry.1 entry.2) = Logged.ok (some (f entry.1 entry.2))) :
    ctx.readTableValue table badKey readEntry (some (tableValue map layOut)) =
      Logged.ok (map.mapValues f) := by
  have hstep : ∀ built : NameMap β, ∀ entry ∈ map.entries,
      ctx.tableStep table badKey readEntry built (.string entry.1, layOut entry.1 entry.2) =
        Logged.ok (built.insert entry.1 (f entry.1 entry.2)) := by
    intro built entry hentry
    simp only [tableStep, Value.asString?, Value.untag, h entry hentry]
    rfl
  obtain ⟨filled, hfold, hfilled⟩ := foldlM_insert layOut f (ctx.tableStep table badKey readEntry)
    hstep NameMap.empty map.ascending (by simp)
  have hsame : filled = map.mapValues f := NameMap.ext (by simpa using hfilled)
  rw [← hsame]
  exact hfold

theorem readFields_fieldsValue {fields : NameMap FieldDef} (h : FieldsAll FieldDef.WellTyped fields)
    (table : String) :
    ctx.readFields table (some (fieldsValue fields)) = Logged.ok (fieldsNormalized fields) :=
  readTableValue_tableValue fun entry hentry => readField_fieldEntries (h entry hentry)

theorem readValues_of_get? {values : NameMap String}
    (h : get? entry "values" = some (tableValue values fun _ literal => .string literal)) :
    ctx.readValues entry = Logged.ok values := by
  have hread : ctx.readValues entry = Logged.ok (values.mapValues fun _ literal => literal) := by
    rw [readValues, h]
    exact readTableValue_tableValue fun _ _ => rfl
  rw [hread]
  exact congrArg Logged.ok (NameMap.ext (by simp))

/-! ## Variants -/

theorem readPayload_of_get? {name : String} {payload : VariantPayload} 
    (h : payload.All FieldDef.WellTyped DenotesType)
    (hget : ∀ key, key = "payload" ∨ key = "fields" →
      get? entry key = get? (payloadEntries payload) key) :
    ctx.readPayload name entry = Logged.ok (some payload.normalized) := by
  rw [readPayload, hget "payload" (.inl rfl), hget "fields" (.inr rfl)]
  cases payload with
  | unit => rfl
  | wrapped type =>
    obtain ⟨t, ht⟩ := h
    have hread : ctx.readType name (canonicalOrSame type) =
        Logged.ok (some (canonicalOrSame type)) := by
      rw [canonicalOrSame_of_parse ht]
      exact readType_of_parse (TypeExpr.parse_text_of_parse ht) name
    simp [payloadEntries, hread]
    rfl
  | inline fields =>
    simp [payloadEntries, readFields_fieldsValue h]
    rfl

theorem readTag_of_get? {tag : Option String} (h : get? entry "tag" = tag.map .string)
    (name : String) : ctx.readTag name entry = Logged.ok (some tag) := by
  rw [readTag, h]
  cases tag <;> rfl

theorem readLiteral_of_get? {literal : Option LiteralSugar}
    (h : get? entry "literal" = literal.map fun sugar => .string sugar.name) (name : String) :
    ctx.readLiteral name entry = Logged.ok (some literal) := by
  rw [readLiteral, h]
  rcases literal with _ | _ | _ <;> rfl

theorem get?_payloadEntries {payload : VariantPayload} {key : String} (h₁ : key ≠ "payload")
    (h₂ : key ≠ "fields") : get? (payloadEntries payload) key = none := by
  cases payload <;> simp [payloadEntries, Ne.symm h₁, Ne.symm h₂]

/-- A variant is read back in normal form. -/
theorem readVariant_variantEntries {name : String} {variant : VariantDef}
    (h : variant.payload.All FieldDef.WellTyped DenotesType) :
    ctx.readVariant name (.mapping (variantEntries variant)) =
      Logged.ok (some variant.normalized) := by
  have htag : get? (variantEntries variant) "tag" = variant.tag.map .string := by
    rcases variant with ⟨_ | tag, payload, _ | literal, doc⟩ <;>
      simp [variantEntries, get?_payloadEntries]
  have hliteral : get? (variantEntries variant) "literal" =
      variant.literal.map fun sugar => .string sugar.name := by
    rcases variant with ⟨_ | tag, payload, _ | literal, doc⟩ <;>
      simp [variantEntries, get?_payloadEntries]
  have hdoc : get? (variantEntries variant) "doc" = variant.doc.map .string := by
    rcases variant with ⟨_ | tag, payload, _ | literal, doc⟩ <;>
      simp [variantEntries, get?_payloadEntries]
  have hpayload : ∀ key, key = "payload" ∨ key = "fields" →
      get? (variantEntries variant) key = get? (payloadEntries variant.payload) key := by
    rintro key (rfl | rfl) <;> rcases variant with ⟨_ | tag, payload, _ | literal, doc⟩ <;>
      simp [variantEntries]
  simp only [readVariant, readTag_of_get? htag, readPayload_of_get? h hpayload,
    readLiteral_of_get? hliteral, readDoc_of_get? hdoc, Logged.ok_bind]
  rfl

/-! ## Definitions -/

theorem readVariants_of_get? {variants : NameMap VariantDef}
    (h : ∀ entry ∈ variants.entries, entry.2.payload.All FieldDef.WellTyped DenotesType)
    (hget : get? entry "variants" =
      some (tableValue variants fun _ variant => .mapping (variantEntries variant))) :
    ctx.readVariants entry =
      Logged.ok (variants.mapValues fun _ => VariantDef.normalized) := by
  rw [readVariants, hget]
  exact readTableValue_tableValue fun entry hentry => readVariant_variantEntries (h entry hentry)

theorem readStruct_definitionEntries {d : StructDef} (h : FieldsAll FieldDef.WellTyped d.fields) :
    ctx.readStruct (definitionEntries (.struct d)) =
      Logged.ok { d with fields := fieldsNormalized d.fields } := by
  have hdirection : get? (definitionEntries (.struct d)) "direction" =
      some (.string d.direction.name) := by simp [definitionEntries]
  have hdoc : get? (definitionEntries (.struct d)) "doc" = d.doc.map .string := by
    simp [definitionEntries]
  have hfields : get? (definitionEntries (.struct d)) "fields" =
      some (fieldsValue d.fields) := by simp [definitionEntries]
  simp only [readStruct, readDirection_of_get? hdirection, readDoc_of_get? hdoc, hfields,
    readFields_fieldsValue h, Logged.ok_bind]
  rfl

theorem readStringEnum_definitionEntries (d : StringEnumDef) :
    ctx.readStringEnum (definitionEntries (.stringEnum d)) = Logged.ok d := by
  have hdirection : get? (definitionEntries (.stringEnum d)) "direction" =
      some (.string d.direction.name) := by simp [definitionEntries]
  have hdoc : get? (definitionEntries (.stringEnum d)) "doc" = d.doc.map .string := by
    simp [definitionEntries, get?_unknownHandlingEntries]
  have hhandling : ∀ key, key = "unknown_handling" ∨ key = "fallback_value" →
      get? (definitionEntries (.stringEnum d)) key =
        get? (unknownHandlingEntries d.unknownHandling) key := by
    rintro key (rfl | rfl) <;> simp [definitionEntries]
  have hvalues : get? (definitionEntries (.stringEnum d)) "values" =
      some (tableValue d.values fun _ literal => .string literal) := by
    simp [definitionEntries, get?_unknownHandlingEntries]
  simp only [readStringEnum, readDirection_of_get? hdirection, readDoc_of_get? hdoc,
    readUnknownHandling_of_get? hhandling, readValues_of_get? hvalues, Logged.ok_bind]
  rfl

theorem readUnion_definitionEntries {d : UnionDef}
    (h : ∀ entry ∈ d.variants.entries, entry.2.payload.All FieldDef.WellTyped DenotesType) :
    ctx.readUnion (definitionEntries (.union d)) = Logged.ok d.normalized := by
  have hdirection : get? (definitionEntries (.union d)) "direction" =
      some (.string d.direction.name) := by simp [definitionEntries]
  have hdoc : get? (definitionEntries (.union d)) "doc" = d.doc.map .string := by
    simp [definitionEntries, get?_unknownHandlingEntries]
  have hdiscriminator : get? (definitionEntries (.union d)) "discriminator" =
      get? (discriminatorEntries d.discriminator) "discriminator" := by
    simp [definitionEntries, get?_unknownHandlingEntries]
  have hhandling : ∀ key, key = "unknown_handling" ∨ key = "fallback_value" →
      get? (definitionEntries (.union d)) key =
        get? (unknownHandlingEntries d.unknownHandling) key := by
    rintro key (rfl | rfl) <;> simp [definitionEntries]
  have hvariants : get? (definitionEntries (.union d)) "variants" =
      some (tableValue d.variants fun _ variant => .mapping (variantEntries variant)) := by
    simp [definitionEntries, get?_unknownHandlingEntries]
  simp only [readUnion, readDirection_of_get? hdirection, readDoc_of_get? hdoc,
    readDiscriminator_of_get? hdiscriminator, readUnknownHandling_of_get? hhandling,
    readVariants_of_get? h hvariants, Logged.ok_bind]
  rfl

theorem readAlias_definitionEntries (d : AliasDef) :
    ctx.readAlias (definitionEntries (.typeAlias d)) = Logged.ok d := by
  have htarget : get? (definitionEntries (.typeAlias d)) "target" =
      some (.string d.target) := by simp [definitionEntries]
  have hdeprecated : get? (definitionEntries (.typeAlias d)) "deprecated" =
      if d.deprecated then some (.bool true) else none := by
    cases hflag : d.deprecated <;> simp [definitionEntries, hflag]
  have hdoc : get? (definitionEntries (.typeAlias d)) "doc" = d.doc.map .string := by
    cases hflag : d.deprecated <;> simp [definitionEntries, hflag]
  have hread : ctx.readDeprecated (definitionEntries (.typeAlias d)) = Logged.ok d.deprecated := by
    rw [readDeprecated, hdeprecated]
    cases d.deprecated <;> rfl
  simp only [readAlias, requireString, htarget, hread, readDoc_of_get? hdoc, Option.bind_some,
    Value.asString?, Value.untag, Logged.ok_bind]
  rfl

/-- A definition is read back in normal form. -/
theorem readTypeDef_definitionEntries {definition : TypeDef}
    (h : definition.All FieldDef.WellTyped DenotesType) :
    ctx.readTypeDef (definitionEntries definition) = Logged.ok definition.normalized := by
  have hkind : get? (definitionEntries definition) "kind" = some (.string definition.kind) := by
    simp [definitionEntries]
  rw [readTypeDef, hkind]
  cases definition with
  | struct d =>
    show TypeDef.struct <$> ctx.readStruct (definitionEntries (.struct d)) = _
    rw [readStruct_definitionEntries h]
    rfl
  | stringEnum d =>
    show TypeDef.stringEnum <$> ctx.readStringEnum (definitionEntries (.stringEnum d)) = _
    rw [readStringEnum_definitionEntries]
    rfl
  | union d =>
    show TypeDef.union <$> ctx.readUnion (definitionEntries (.union d)) = _
    rw [readUnion_definitionEntries h]
    rfl
  | typeAlias d =>
    show TypeDef.typeAlias <$> ctx.readAlias (definitionEntries (.typeAlias d)) = _
    rw [readAlias_definitionEntries]
    rfl

end EntryContext

/-! ## Documents -/

def versionWarnings (version : String) : List Warning :=
  if version = schemaVersion then [] else [.unrecognizedVersion version]

/-- The value of a schema is read back as the schema in normal form. Strictness makes no
difference, since there is nothing to skip. -/
theorem read_toValue {schema : Schema} (h : schema.WellTyped) (strictness : Strictness) :
    read strictness (toValue schema) =
      ⟨versionWarnings schema.version, .ok schema.normalized⟩ := by
  have hstep : ∀ built : NameMap TypeDef, ∀ entry ∈ schema.types.entries,
      readTypeEntry strictness built (.string entry.1) (.mapping (definitionEntries entry.2)) =
        Logged.ok (built.insert entry.1 entry.2.normalized) := by
    intro built entry hentry
    simp only [readTypeEntry, Value.asString?, Value.asMapping?, Value.untag,
      EntryContext.readTypeDef_definitionEntries (h entry hentry), Logged.ok_bind]
    rfl
  obtain ⟨types, hfold, htypes⟩ := EntryContext.foldlM_insert
    (fun _ definition => .mapping (definitionEntries definition)) (fun _ => TypeDef.normalized)
    (fun built entry => readTypeEntry strictness built entry.1 entry.2) hstep
    NameMap.empty schema.types.ascending (by simp)
  have hnormalized : types = schema.types.mapValues fun _ => TypeDef.normalized :=
    NameMap.ext (by simpa using htypes)
  have hroot : (toValue schema).asMapping? = some [textEntry "version" schema.version,
      textEntry "provider" schema.provider,
      (.string "types", tableValue schema.types fun _ definition =>
        .mapping (definitionEntries definition))] := rfl
  rw [hnormalized] at hfold
  rw [read, hroot]
  simp only [readRootScalar, typeEntries, get?_textEntry, get?_cons, tableValue, Value.scalarText?,
    reduceIte, String.reduceEq, Logged.pure_bind, hfold, Logged.ok_bind]
  by_cases hversion : schema.version = schemaVersion
  · rw [if_neg (not_not_intro hversion), versionWarnings, if_pos hversion]
    rfl
  · rw [if_pos hversion, versionWarnings, if_neg hversion]
    rfl

/-! ## Texts -/

/-- Writing a schema whose field types and payloads are types, and reading it back, gives the
schema in normal form, whether or not reading is strict, with no warning but for a version
that is not the expected one. Schemas with canonical texts come back saying the same, and
those that fold optionality into their texts come back as they were. YAML has to read back
the one value that was written. -/
theorem parse_emit {schema : Schema} (htyped : schema.WellTyped)
    (hyaml : Value.parse? (emit schema) = some (toValue schema)) :
    (∀ strictness, parse strictness (emit schema) =
        ⟨versionWarnings schema.version, .ok schema.normalized⟩) ∧
      (schema.HasCanonicalTexts → schema.normalized.agrees schema = true) ∧
      (schema.IsCanonical → schema.normalized = schema) := by
  refine ⟨fun strictness => ?_, Schema.agrees_normalized, Schema.normalized_of_isCanonical⟩
  rw [parse, hyaml]
  exact read_toValue htyped strictness

/-- A schema that is not canonical: a spaced type, a field that may be absent, and a field
remapped to its own name. -/
def unfoldedSchema : Schema :=
  { version := schemaVersion
    provider := "shop"
    types := .ofList [("Cart", .struct
      { direction := .both, doc := some ""
        fields := .ofList [("items", ⟨"list[ int ]", some "items", false, none⟩)] })] }

theorem unfoldedSchema_wellTyped : unfoldedSchema.WellTyped := by
  intro entry hentry
  rw [show unfoldedSchema.types.entries = [("Cart", .struct
      { direction := .both, doc := some ""
        fields := .ofList [("items", ⟨"list[ int ]", some "items", false, none⟩)] })] by decide,
    List.mem_singleton] at hentry
  subst hentry
  intro field hfield
  rw [show (NameMap.ofList [("items", (⟨"list[ int ]", some "items", false, none⟩ : FieldDef))]).entries
      = [("items", ⟨"list[ int ]", some "items", false, none⟩)] by decide,
    List.mem_singleton] at hfield
  subst hfield
  exact ⟨.list (.primitive .int), by decide +kernel⟩

theorem parse?_unfoldedSchema :
    Value.parse? (emit unfoldedSchema) = some (toValue unfoldedSchema) := by
  decide +kernel

theorem parse_emit_unfoldedSchema :
    unfoldedSchema.WellTyped ∧ Value.parse? (emit unfoldedSchema) = some (toValue unfoldedSchema) ∧
      parse .strict (emit unfoldedSchema) = ⟨[], .ok unfoldedSchema.normalized⟩ := by
  exact ⟨unfoldedSchema_wellTyped, parse?_unfoldedSchema,
    (parse_emit unfoldedSchema_wellTyped parse?_unfoldedSchema).1 .strict⟩

end WireSchema.Document
