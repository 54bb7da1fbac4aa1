import WireSchema.Proofs.Document.ReadBack
import WireSchema.Proofs.Document.Strictness

/-!
# Reading gives canonical schemas

Whatever the reader makes of a document, through every shorthand and around every
malformed entry, is a canonical schema: each type text that it keeps is canonical with
optionality folded in, and no field is remapped to its own name. A canonical schema is
its own normal form, so one pass through the reader is enough: written and read again it
comes back as it is.
-/

namespace WireSchema

/-! ## Canonical schemas -/

/-- A field with a canonical text is canonical once its optionality is folded into the text. -/
theorem FieldDef.isCanonical_folded {name : String} {field : FieldDef}
    (h : field.HasCanonicalText name) (doc : Option String) :
    FieldDef.IsCanonical name { field with type := field.canonicalType, doc } := by
  obtain ⟨t, ht, -⟩ := TypeExpr.canonicalize_eq_ok_iff.mp h.1
  have hparse := parse_canonicalType ht
  refine ⟨⟨?_, h.2⟩, fun hrequired => ?_⟩
  · exact TypeExpr.canonicalize_eq_ok_iff.mpr
      ⟨_, hparse, (canonicalType_of_isCanonicalText h.1 ht).symm⟩
  · have hoptional : (field.foldedType t).isOptional = true := by
      have hnot : field.required = false := hrequired
      rw [isOptional_foldedType ht, isOptional, hnot, Bool.not_false, Bool.true_or]
    exact (TypeExpr.endsOptional_iff hparse).mpr hoptional

section All

variable {P P' : String → FieldDef → Prop} {Q Q' : String → Prop}

theorem FieldsAll.mono (hP : ∀ name field, P name field → P' name field)
    {fields : NameMap FieldDef} (h : FieldsAll P fields) : FieldsAll P' fields :=
  fun entry hentry => hP entry.1 entry.2 (h entry hentry)

theorem VariantPayload.All.mono (hP : ∀ name field, P name field → P' name field)
    (hQ : ∀ type, Q type → Q' type) {payload : VariantPayload} (h : payload.All P Q) :
    payload.All P' Q' := by
  cases payload with
  | unit => trivial
  | wrapped type => exact hQ type h
  | inline fields => exact FieldsAll.mono hP h

theorem TypeDef.All.mono (hP : ∀ name field, P name field → P' name field)
    (hQ : ∀ type, Q type → Q' type) {definition : TypeDef} (h : definition.All P Q) :
    definition.All P' Q' := by
  cases definition with
  | struct d => exact FieldsAll.mono hP h
  | stringEnum d => trivial
  | union d => exact fun entry hentry => (h entry hentry).mono hP hQ
  | typeAlias d => trivial

end All

theorem denotesType_of_isCanonicalText {type : String} (h : IsCanonicalText type) :
    DenotesType type := by
  obtain ⟨t, ht, -⟩ := TypeExpr.canonicalize_eq_ok_iff.mp h
  exact ⟨t, ht⟩

theorem Schema.IsCanonical.wellTyped {schema : Schema} (h : schema.IsCanonical) :
    schema.WellTyped :=
  fun entry hentry => (h entry hentry).mono
    (fun _ _ hfield => denotesType_of_isCanonicalText hfield.1.1)
    (fun _ => denotesType_of_isCanonicalText)

namespace Document

open Logged (Gives)
open Yaml (Value Entries)

namespace EntryContext

variable (ctx : EntryContext)

/-! ## Fields -/

/-- A skipped part gives what stands for it. -/
theorem gives_skipWith {α : Type} {P : α → Prop} (part : String) (reason : SkipReason)
    {value : α} (h : P value) : Gives P (ctx.skipWith part reason value) :=
  Gives.andThen fun _ => .pure h

/-- A part that is skipped gives nothing. -/
theorem gives_skip {α : Type} {P : α → Prop} (part : String) (reason : SkipReason) :
    Gives (fun a? => ∀ a ∈ a?, P a) (ctx.skipWith part reason none) :=
  ctx.gives_skipWith part reason nofun

theorem gives_readType (name type : String) :
    Gives (fun type? => ∀ type ∈ type?, IsCanonicalText type) (ctx.readType name type) := by
  unfold readType
  split
  · next text htext => exact .found (TypeExpr.canonicalize_of_canonicalize htext)
  · exact ctx.gives_skip _ _

theorem gives_readWireName (name : String) (entry : Entries) :
    Gives (fun wire? => ∀ wireName ∈ wire?, wireName ≠ some name)
      (ctx.readWireName name entry) := by
  unfold readWireName
  split
  · exact .found (by simp)
  · exact .found (by simp)
  · next wire _ =>
    refine .found ?_
    split
    · simp
    · next hne => simpa using hne
  · exact ctx.gives_skip _ _

theorem gives_readFieldEntry {type : String} (htype : IsCanonicalText type) (name : String)
    (entry : Entries) :
    Gives (fun field? => ∀ field ∈ field?, field.IsCanonical name)
      (ctx.readFieldEntry name type entry) := by
  refine (ctx.gives_readWireName name entry).bindOption .missing fun wireName hwire => ?_
  refine .andThen fun required? => ?_
  cases required? with
  | none => exact .missing
  | some required =>
    exact .andThen fun doc => .found (FieldDef.isCanonical_folded ⟨htype, hwire⟩ doc)

/-- A type given alone says by itself whether the field is optional. -/
theorem isCanonical_ofType {type : String} (htype : IsCanonicalText type) (name : String) :
    (FieldDef.ofType type).IsCanonical name :=
  ⟨⟨htype, nofun⟩, fun hrequired => by simpa [FieldDef.ofType] using hrequired⟩

theorem gives_readField (name : String) (value : Value) :
    Gives (fun field? => ∀ field ∈ field?, field.IsCanonical name) (ctx.readField name value) := by
  unfold readField
  split
  · exact (ctx.gives_readType name _).bindOption .missing fun type htype =>
      .found (isCanonical_ofType htype name)
  · split
    · exact ctx.gives_skip _ _
    · exact (ctx.gives_readType name _).bindOption .missing fun type htype =>
        ctx.gives_readFieldEntry htype name _
  · exact ctx.gives_skip _ _

/-! ## Tables -/

section

variable {α : Type} {P : String → α → Prop} {readEntry : String → Value → Reading (Option α)}

/-- What holds of every entry that is read holds of every entry of the table. -/
theorem gives_readTable
    (h : ∀ name value, Gives (fun a? => ∀ a ∈ a?, P name a) (readEntry name value))
    (table : String) (badKey : SkipReason) (entries : Entries) :
    Gives (fun map => ∀ entry ∈ map.entries, P entry.1 entry.2)
      (ctx.readTable table badKey readEntry entries) := by
  refine Gives.foldlM ?_ entries (by simp)
  rintro map ⟨key, value⟩ hmap
  dsimp only
  split
  · exact ctx.gives_skipWith _ _ hmap
  · next name _ =>
    exact (h name value).bindOption (.pure hmap) fun a ha =>
      .pure (NameMap.forall_mem_insert hmap ha)

theorem gives_readTableValue
    (h : ∀ name value, Gives (fun a? => ∀ a ∈ a?, P name a) (readEntry name value))
    (table : String) (badKey : SkipReason) (value : Option Value) :
    Gives (fun map => ∀ entry ∈ map.entries, P entry.1 entry.2)
      (ctx.readTableValue table badKey readEntry value) := by
  unfold readTableValue
  split
  · exact .pure (by simp)
  · exact .pure (by simp)
  · exact ctx.gives_readTable h table badKey _
  · exact ctx.gives_skipWith _ _ (by simp)

end

theorem gives_readFields (table : String) (value : Option Value) :
    Gives (FieldsAll FieldDef.IsCanonical) (ctx.readFields table value) :=
  ctx.gives_readTableValue ctx.gives_readField table _ value

/-! ## Variants -/

theorem gives_readPayload (name : String) (entry : Entries) :
    Gives (fun payload? => ∀ payload ∈ payload?,
        payload.All FieldDef.IsCanonical IsCanonicalText) (ctx.readPayload name entry) := by
  unfold readPayload
  split
  · exact ctx.gives_skip _ _
  · exact (ctx.gives_readType name _).bindOption .missing fun type htype => .found htype
  · exact ctx.gives_skip _ _
  · exact (ctx.gives_readFields name _).bind fun fields hfields => .found hfields
  · exact .found trivial

theorem gives_readVariant (name : String) (value : Value) :
    Gives (fun variant? => ∀ variant ∈ variant?,
        variant.payload.All FieldDef.IsCanonical IsCanonicalText) (ctx.readVariant name value) := by
  unfold readVariant
  split
  · exact .found trivial
  · refine .andThen fun tag? => ?_
    rcases tag? with _ | tag
    · exact .missing
    refine (ctx.gives_readPayload name _).bindOption .missing fun payload hpayload => ?_
    refine .andThen fun literal? => ?_
    rcases literal? with _ | literal
    · exact .missing
    exact .andThen fun doc => .found hpayload
  · exact ctx.gives_skip _ _

theorem gives_readVariants (entry : Entries) :
    Gives (fun variants => ∀ variant ∈ variants.entries,
        variant.2.payload.All FieldDef.IsCanonical IsCanonicalText) (ctx.readVariants entry) :=
  ctx.gives_readTableValue
    (P := fun _ (variant : VariantDef) =>
      variant.payload.All FieldDef.IsCanonical IsCanonicalText)
    ctx.gives_readVariant _ _ _

/-! ## Types -/

theorem gives_readStruct (entry : Entries) :
    Gives (fun d => FieldsAll FieldDef.IsCanonical d.fields) (ctx.readStruct entry) :=
  Gives.andThen fun _ => .andThen fun _ =>
    (ctx.gives_readFields _ _).bind fun _ hfields => .pure hfields

theorem gives_readUnion (entry : Entries) :
    Gives (fun d => ∀ variant ∈ d.variants.entries,
        variant.2.payload.All FieldDef.IsCanonical IsCanonicalText) (ctx.readUnion entry) :=
  Gives.andThen fun _ => .andThen fun _ => .andThen fun _ => .andThen fun _ =>
    (ctx.gives_readVariants entry).bind fun _ hvariants => .pure hvariants

theorem gives_readTypeDef (entry : Entries) :
    Gives (TypeDef.All FieldDef.IsCanonical IsCanonicalText) (ctx.readTypeDef entry) := by
  unfold readTypeDef
  split
  · exact .fail _
  · split
    · exact .fail _
    · exact (ctx.gives_readStruct entry).map fun _ hfields => hfields
    · exact .andThen fun _ => .pure trivial
    · exact (ctx.gives_readUnion entry).map fun _ hvariants => hvariants
    · exact .andThen fun _ => .pure trivial
    · exact .fail _

end EntryContext

/-! ## Documents -/

theorem gives_readTypeEntry (strictness : Strictness) {types : NameMap TypeDef}
    (htypes : ∀ entry ∈ types.entries, entry.2.All FieldDef.IsCanonical IsCanonicalText)
    (key value : Value) :
    Gives (fun types => ∀ entry ∈ types.entries,
        entry.2.All FieldDef.IsCanonical IsCanonicalText)
      (readTypeEntry strictness types key value) := by
  unfold readTypeEntry
  split
  · exact .fail _
  · split
    · exact .fail _
    · exact (EntryContext.gives_readTypeDef _ _).bind fun definition hdefinition =>
        .pure (NameMap.forall_mem_insert htypes hdefinition)

theorem gives_read (strictness : Strictness) (value : Value) :
    Gives Schema.IsCanonical (read strictness value) := by
  unfold read
  split
  · exact .fail _
  · refine .andThen fun version => ?_
    have hrest : ∀ root : Entries, Gives Schema.IsCanonical (do
        let provider ← readRootScalar root "provider" "" .providerNotScalar
        let entries ← typeEntries root
        let types ← entries.foldlM (fun types entry =>
          readTypeEntry strictness types entry.1 entry.2) .empty
        return ({ version, provider, types } : Schema)) := by
      intro root
      refine .andThen fun provider => .andThen fun entries => ?_
      have htypes : Gives (fun types : NameMap TypeDef => ∀ entry ∈ types.entries,
            entry.2.All FieldDef.IsCanonical IsCanonicalText)
          (entries.foldlM (fun types entry =>
            readTypeEntry strictness types entry.1 entry.2) .empty) :=
        .foldlM (fun types entry htypes =>
          gives_readTypeEntry strictness htypes entry.1 entry.2) entries (by simp)
      exact htypes.bind fun types htypes => .pure htypes
    dsimp only
    split
    · exact .andThen fun _ => hrest _
    · exact hrest _

theorem firstSkip?_versionWarnings (version : String) :
    firstSkip? (versionWarnings version) = none := by
  unfold versionWarnings
  split <;> rfl

/-- The value of a canonical schema is read as the schema. -/
theorem read_toValue_of_isCanonical {schema : Schema} (h : schema.IsCanonical)
    (strictness : Strictness) :
    read strictness (toValue schema) = ⟨versionWarnings schema.version, .ok schema⟩ := by
  rw [read_toValue h.wellTyped, Schema.normalized_of_isCanonical h]

/-- The schemas that documents are read as are the canonical ones. -/
theorem exists_read_iff_isCanonical {schema : Schema} (strictness : Strictness) :
    (∃ value, (read strictness value).result = .ok schema) ↔ schema.IsCanonical := by
  constructor
  · rintro ⟨value, hread⟩
    exact gives_read strictness value schema hread
  · intro h
    exact ⟨toValue schema, congrArg Logged.result (read_toValue_of_isCanonical h strictness)⟩

/-- Reading normalizes in one step. Whatever schema a document is read as, leniently or
strictly, is canonical. Its own document is read strictly as the very same schema, with
nothing skipped and with no warning but for the version, and so has the same text when it is
written again. For the text YAML has to read back the one value that was written. -/
theorem read_normalizes {strictness : Strictness} {value : Value} {schema : Schema}
    (hread : (read strictness value).result = .ok schema) :
    schema.IsCanonical ∧
      read .strict (toValue schema) = ⟨versionWarnings schema.version, .ok schema⟩ ∧
      firstSkip? (read .strict (toValue schema)).log = none ∧
      (Value.parse? (emit schema) = some (toValue schema) →
        parse .strict (emit schema) = ⟨versionWarnings schema.version, .ok schema⟩ ∧
        (parse .strict (emit schema)).result.map emit = .ok (emit schema)) := by
  have hcanonical := gives_read strictness value schema hread
  have hagain := read_toValue_of_isCanonical hcanonical .strict
  refine ⟨hcanonical, hagain, ?_, fun hyaml => ?_⟩
  · rw [hagain]
    exact firstSkip?_versionWarnings schema.version
  · have hparse : parse .strict (emit schema) =
        ⟨versionWarnings schema.version, .ok schema⟩ := by
      rw [parse, hyaml]
      exact hagain
    refine ⟨hparse, ?_⟩
    rw [hparse]
    rfl

/-- A document that leaves much to the reader: a discriminator that is malformed, a variant that
is null, one that is tagged with a number and one whose payload is no type, and a field that is
remapped to its own name and is optional although its type does not say so. -/
def shorthandDocument : Value :=
  .mapping [(.string "types", .mapping [
    (.string "Event", .mapping [textEntry "kind" "union", (.string "discriminator", .bool true),
      (.string "variants", .mapping [
        (.string "opened", .null),
        (.string "closed", .mapping [(.string "tag", .number (.integer 3)),
          (.string "fields", .mapping [
            (.string "note", .mapping [textEntry "type" " string", textEntry "wire_name" "note",
              (.string "required", .bool false)])])]),
        (.string "lost", .mapping [textEntry "payload" "list["])])])])]

def shorthandSchema : Schema :=
  { version := schemaVersion
    provider := ""
    types := .ofList [
      ("Event", .union
        { direction := .both, doc := none, discriminator := none, unknownHandling := none
          variants := .ofList [("opened", .ofPayload .unit),
            ("closed", ⟨some "3", .inline (.ofList [("note", ⟨"string?", none, false, none⟩)]),
              none, none⟩)] })] }

theorem read_normalizes_shorthandDocument :
    (read .lenient shorthandDocument).result = .ok shorthandSchema ∧
      Value.parse? (emit shorthandSchema) = some (toValue shorthandSchema) ∧
      shorthandSchema.IsCanonical ∧
      parse .strict (emit shorthandSchema) = ⟨[], .ok shorthandSchema⟩ := by
  have hread : (read .lenient shorthandDocument).result = .ok shorthandSchema := by
    decide +kernel
  have hyaml : Value.parse? (emit shorthandSchema) = some (toValue shorthandSchema) := by
    decide +kernel
  obtain ⟨hcanonical, -, -, hsame⟩ := read_normalizes hread
  exact ⟨hread, hyaml, hcanonical, (hsame hyaml).1⟩

end Document

end WireSchema
