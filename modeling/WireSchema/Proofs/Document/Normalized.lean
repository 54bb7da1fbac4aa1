import WireSchema.Document.Writer
import WireSchema.Proofs.TypeExpr.Optional
import WireSchema.Schema.Agreement

/-!
# The normal form of a schema

A document holds a schema in normal form: type texts are canonical with optionality
folded in, and no field is remapped to its own name. `WellTyped` schemas are those
whose field types and payloads denote types; alias targets stay as they are.
-/

namespace WireSchema

open Document (canonicalOrSame)

/-! ## What holds of all types in a schema -/

section All

variable (P : String → FieldDef → Prop) (Q : String → Prop)

def FieldsAll (fields : NameMap FieldDef) : Prop :=
  ∀ entry ∈ fields.entries, P entry.1 entry.2

/-- The fields satisfy `P`, a wrapped payload satisfies `Q`. -/
def VariantPayload.All : VariantPayload → Prop
  | unit => True
  | wrapped type => Q type
  | inline fields => FieldsAll P fields

def TypeDef.All : TypeDef → Prop
  | struct d => FieldsAll P d.fields
  | stringEnum _ => True
  | union d => ∀ entry ∈ d.variants.entries, entry.2.payload.All P Q
  | typeAlias _ => True

def Schema.All (schema : Schema) : Prop :=
  ∀ entry ∈ schema.types.entries, entry.2.All P Q

end All

def DenotesType (type : String) : Prop :=
  ∃ t, TypeExpr.parse type = .ok t

def FieldDef.WellTyped (_name : String) (field : FieldDef) : Prop :=
  DenotesType field.type

def Schema.WellTyped (schema : Schema) : Prop :=
  schema.All FieldDef.WellTyped DenotesType

/-! ## The normal form -/

def FieldDef.normalized (name : String) (field : FieldDef) : FieldDef :=
  { field with
    type := canonicalOrSame field.canonicalType
    wireName := field.wireName.filter (· != name) }

def fieldsNormalized (fields : NameMap FieldDef) : NameMap FieldDef :=
  fields.mapValues FieldDef.normalized

def VariantPayload.normalized : VariantPayload → VariantPayload
  | unit => unit
  | wrapped type => wrapped (canonicalOrSame type)
  | inline fields => inline (fieldsNormalized fields)

def VariantDef.normalized (variant : VariantDef) : VariantDef :=
  { variant with payload := variant.payload.normalized }

def UnionDef.normalized (d : UnionDef) : UnionDef :=
  { d with variants := d.variants.mapValues fun _ => VariantDef.normalized }

def TypeDef.normalized : TypeDef → TypeDef
  | struct d => struct { d with fields := fieldsNormalized d.fields }
  | stringEnum d => stringEnum d
  | union d => union d.normalized
  | typeAlias d => typeAlias d

def Schema.normalized (schema : Schema) : Schema :=
  { schema with types := schema.types.mapValues fun _ => TypeDef.normalized }

/-! ## Fields in normal form -/

theorem canonicalOrSame_of_parse {type : String} {t : TypeExpr}
    (h : TypeExpr.parse type = .ok t) : canonicalOrSame type = t.text := by
  rw [canonicalOrSame, TypeExpr.canonicalize_eq_ok_iff.mpr ⟨t, h, rfl⟩]

namespace FieldDef

variable {field : FieldDef} {t : TypeExpr}

/-- The type with the optionality of the field folded in. -/
def foldedType (field : FieldDef) (t : TypeExpr) : TypeExpr :=
  if field.isOptional then t.asOptional else t

theorem isOptional_foldedType (h : TypeExpr.parse field.type = .ok t) :
    (field.foldedType t).isOptional = field.isOptional := by
  unfold foldedType
  cases hopt : field.isOptional with
  | true => simp
  | false =>
    have hends : endsOptional field.type = false := by
      simp only [isOptional, Bool.or_eq_false_iff] at hopt
      exact hopt.2
    have hiff := TypeExpr.endsOptional_iff h
    rw [hends] at hiff
    simpa using hiff

theorem parse_foldedType (h : TypeExpr.parse field.type = .ok t) :
    TypeExpr.parse (field.foldedType t).text = .ok (field.foldedType t) :=
  TypeExpr.parse_text_of_parse (parse_canonicalType h)

theorem type_normalized (h : TypeExpr.parse field.type = .ok t) (name : String) :
    (field.normalized name).type = (field.foldedType t).text :=
  canonicalOrSame_of_parse (parse_canonicalType h)

theorem parse_type_normalized (h : TypeExpr.parse field.type = .ok t) (name : String) :
    TypeExpr.parse (field.normalized name).type = .ok (field.foldedType t) := by
  rw [type_normalized h]
  exact parse_foldedType h

/-- In normal form the text of a field alone tells whether the field is optional. -/
theorem endsOptional_normalized (h : TypeExpr.parse field.type = .ok t) (name : String) :
    endsOptional (field.normalized name).type = field.isOptional := by
  rw [Bool.eq_iff_iff, TypeExpr.endsOptional_iff (parse_type_normalized h name),
    isOptional_foldedType h]

theorem isOptional_normalized (h : TypeExpr.parse field.type = .ok t) (name : String) :
    (field.normalized name).isOptional = field.isOptional := by
  have hrequired : (field.normalized name).required = field.required := rfl
  rw [isOptional, endsOptional_normalized h, hrequired, isOptional, ← Bool.or_assoc,
    Bool.or_self]

theorem canonicalType_normalized (h : TypeExpr.parse field.type = .ok t) (name : String) :
    (field.normalized name).canonicalType = (field.normalized name).type := by
  have hends := endsOptional_normalized h name
  have hself : (field.normalized name).required = true ∨
      endsOptional (field.normalized name).type = true := by
    rw [hends, isOptional]
    cases hrequired : field.required with
    | true => exact .inl hrequired
    | false => exact .inr rfl
  have htrim := TypeExpr.trimEnd_text (TypeExpr.parse_wellFormed (parse_foldedType h))
  rw [canonicalType, if_pos (by simpa using hself), type_normalized h, htrim]

@[simp] theorem effectiveWireName_normalized (field : FieldDef) (name : String) :
    (field.normalized name).effectiveWireName name = field.effectiveWireName name := by
  unfold effectiveWireName normalized
  cases hwire : field.wireName with
  | none => rfl
  | some wire =>
    by_cases hsame : wire = name
    · simp [hsame, Option.filter]
    · simp [hsame, Option.filter]

end FieldDef

/-! ## Schemas in canonical form -/

def IsCanonicalText (type : String) : Prop :=
  TypeExpr.canonicalize type = .ok type

instance (type : String) : Decidable (IsCanonicalText type) :=
  inferInstanceAs (Decidable (TypeExpr.canonicalize type = .ok type))

namespace FieldDef

/-- The type text is canonical, and the field is not remapped to its own name. -/
def HasCanonicalText (name : String) (field : FieldDef) : Prop :=
  IsCanonicalText field.type ∧ field.wireName ≠ some name

/-- The type text is canonical even with optionality folded in. -/
def IsCanonical (name : String) (field : FieldDef) : Prop :=
  field.HasCanonicalText name ∧ (field.required = false → endsOptional field.type = true)

variable {field : FieldDef} {name : String}

theorem wireName_normalized (h : field.HasCanonicalText name) :
    (field.normalized name).wireName = field.wireName := by
  have hwire := h.2
  rw [normalized]
  cases hcase : field.wireName with
  | none => rfl
  | some wire =>
    have hne : wire ≠ name := fun hsame => hwire (hsame ▸ hcase)
    simp [Option.filter, hne]

theorem canonicalType_of_isCanonicalText (h : IsCanonicalText field.type) {t : TypeExpr}
    (ht : TypeExpr.parse field.type = .ok t) :
    field.canonicalType = (field.foldedType t).text := by
  obtain ⟨u, hu, htext⟩ := TypeExpr.canonicalize_eq_ok_iff.mp h
  have hsame : u = t := Except.ok.inj (hu.symm.trans ht)
  subst hsame
  have htrim := TypeExpr.trimEnd_text (TypeExpr.parse_wellFormed ht)
  rw [htext] at htrim
  have hopt := TypeExpr.endsOptional_iff ht
  unfold canonicalType foldedType isOptional TypeExpr.asOptional
  cases hrequired : field.required <;> cases hends : endsOptional field.type <;>
    cases hu : u.isOptional <;> simp_all [TypeExpr.text]

theorem agrees_normalized (h : field.HasCanonicalText name) :
    (field.normalized name).agrees field = true := by
  obtain ⟨t, ht, -⟩ := TypeExpr.canonicalize_eq_ok_iff.mp h.1
  have hdoc : (field.normalized name).doc = field.doc := rfl
  rw [agrees, canonicalType_normalized ht, type_normalized ht, wireName_normalized h, hdoc,
    canonicalType_of_isCanonicalText h.1 ht]
  simp

theorem normalized_of_isCanonical (h : field.IsCanonical name) :
    field.normalized name = field := by
  obtain ⟨t, ht, htext⟩ := TypeExpr.canonicalize_eq_ok_iff.mp h.1.1
  have htype : (field.normalized name).type = field.type := by
    rw [type_normalized ht, ← canonicalType_of_isCanonicalText h.1.1 ht, canonicalType, ← htext,
      TypeExpr.trimEnd_text (TypeExpr.parse_wellFormed ht), if_pos]
    cases hrequired : field.required with
    | true => rfl
    | false => rw [htext, h.2 hrequired, Bool.false_or]
  have hwire := wireName_normalized h.1
  rw [normalized] at htype hwire ⊢
  simp only at htype hwire
  rw [htype, hwire]

end FieldDef

def Schema.HasCanonicalTexts (schema : Schema) : Prop :=
  schema.All FieldDef.HasCanonicalText IsCanonicalText

/-- Every text is canonical, no field is remapped to its own name, and the type texts of fields
tell whether the fields are optional. -/
def Schema.IsCanonical (schema : Schema) : Prop :=
  schema.All FieldDef.IsCanonical IsCanonicalText

theorem canonicalOrSame_of_isCanonicalText {type : String} (h : IsCanonicalText type) :
    canonicalOrSame type = type := by
  rw [canonicalOrSame, h]

/-! ## The normal form says the same -/

theorem entriesAgree_mapValues_iff {α : Type} {agree : String → α → α → Bool}
    (f : String → α → α) {map : NameMap α} :
    entriesAgree agree (map.mapValues f).entries map.entries = true ↔
      ∀ entry ∈ map.entries, agree entry.1 (f entry.1 entry.2) entry.2 = true := by
  rw [NameMap.entries_mapValues]
  generalize map.entries = entries
  induction entries with
  | nil => simp [entriesAgree]
  | cons entry rest ih => simp [entriesAgree, ih]

theorem entriesAgree_mapValues {α : Type} {agree : String → α → α → Bool} (f : String → α → α)
    {map : NameMap α}
    (h : ∀ entry ∈ map.entries, agree entry.1 (f entry.1 entry.2) entry.2 = true) :
    entriesAgree agree (map.mapValues f).entries map.entries = true :=
  (entriesAgree_mapValues_iff f).mpr h

theorem fieldsAgree_normalized {fields : NameMap FieldDef}
    (h : FieldsAll FieldDef.HasCanonicalText fields) :
    fieldsAgree (fieldsNormalized fields) fields = true :=
  entriesAgree_mapValues FieldDef.normalized fun entry hentry =>
    FieldDef.agrees_normalized (h entry hentry)

theorem VariantDef.agrees_normalized {variant : VariantDef}
    (h : variant.payload.All FieldDef.HasCanonicalText IsCanonicalText) (name : String) :
    variant.normalized.agrees name variant = true := by
  rcases variant with ⟨tag, _ | type | fields, literal, doc⟩
  · simp [VariantDef.agrees, normalized, wireTag, VariantPayload.normalized,
      VariantPayload.agrees]
  · have htype : canonicalOrSame type = type := canonicalOrSame_of_isCanonicalText h
    simp [VariantDef.agrees, normalized, wireTag, VariantPayload.normalized,
      VariantPayload.agrees, htype]
  · have hfields : fieldsAgree (fieldsNormalized fields) fields = true := fieldsAgree_normalized h
    simp [VariantDef.agrees, normalized, wireTag, VariantPayload.normalized,
      VariantPayload.agrees, hfields]

theorem TypeDef.agrees_normalized {definition : TypeDef}
    (h : definition.All FieldDef.HasCanonicalText IsCanonicalText) :
    definition.normalized.agrees definition = true := by
  cases definition with
  | struct d =>
    have hfields : fieldsAgree (fieldsNormalized d.fields) d.fields = true :=
      fieldsAgree_normalized h
    simp [normalized, agrees, StructDef.agrees, hfields]
  | stringEnum d => simp [normalized, agrees, StringEnumDef.agrees]
  | union d =>
    have hvariants : entriesAgree VariantDef.agrees
        (d.variants.mapValues fun _ => VariantDef.normalized).entries d.variants.entries = true :=
      entriesAgree_mapValues (fun _ => VariantDef.normalized) fun entry hentry =>
        VariantDef.agrees_normalized (h entry hentry) entry.1
    rw [NameMap.entries_mapValues] at hvariants
    simp [normalized, UnionDef.normalized, agrees, UnionDef.agrees, UnionDef.fallbackVariant,
      hvariants]
  | typeAlias d => simp [normalized, agrees]

/-- Under equality up to optionality nothing is lost from a schema with canonical texts. -/
theorem Schema.agrees_normalized {schema : Schema} (h : schema.HasCanonicalTexts) :
    schema.normalized.agrees schema = true := by
  have htypes : entriesAgree (fun _ => TypeDef.agrees)
      (schema.types.mapValues fun _ => TypeDef.normalized).entries schema.types.entries = true :=
    entriesAgree_mapValues (fun _ => TypeDef.normalized) fun entry hentry =>
      TypeDef.agrees_normalized (h entry hentry)
  rw [NameMap.entries_mapValues] at htypes
  simp [normalized, agrees, htypes]

/-! ## Canonical schemas are their own normal form -/

theorem mapValues_eq_self {α : Type} {f : String → α → α} {map : NameMap α}
    (h : ∀ entry ∈ map.entries, f entry.1 entry.2 = entry.2) : map.mapValues f = map := by
  apply NameMap.ext
  rw [NameMap.entries_mapValues]
  conv => rhs; rw [← List.map_id map.entries]
  exact List.map_congr_left fun entry hentry => by rw [h entry hentry]; rfl

theorem fieldsNormalized_of_isCanonical {fields : NameMap FieldDef}
    (h : FieldsAll FieldDef.IsCanonical fields) : fieldsNormalized fields = fields :=
  mapValues_eq_self fun entry hentry => FieldDef.normalized_of_isCanonical (h entry hentry)

theorem VariantDef.normalized_of_isCanonical {variant : VariantDef}
    (h : variant.payload.All FieldDef.IsCanonical IsCanonicalText) :
    variant.normalized = variant := by
  rcases variant with ⟨tag, _ | type | fields, literal, doc⟩
  · rfl
  · have htype : canonicalOrSame type = type := canonicalOrSame_of_isCanonicalText h
    simp [normalized, VariantPayload.normalized, htype]
  · have hfields : fieldsNormalized fields = fields := fieldsNormalized_of_isCanonical h
    simp [normalized, VariantPayload.normalized, hfields]

theorem TypeDef.normalized_of_isCanonical {definition : TypeDef}
    (h : definition.All FieldDef.IsCanonical IsCanonicalText) :
    definition.normalized = definition := by
  cases definition with
  | struct d =>
    have hfields : fieldsNormalized d.fields = d.fields := fieldsNormalized_of_isCanonical h
    simp [normalized, hfields]
  | stringEnum d => rfl
  | union d =>
    have hvariants : d.variants.mapValues (fun _ => VariantDef.normalized) = d.variants :=
      mapValues_eq_self fun entry hentry => VariantDef.normalized_of_isCanonical (h entry hentry)
    simp [normalized, UnionDef.normalized, hvariants]
  | typeAlias d => rfl

theorem Schema.normalized_of_isCanonical {schema : Schema} (h : schema.IsCanonical) :
    schema.normalized = schema := by
  have htypes : schema.types.mapValues (fun _ => TypeDef.normalized) = schema.types :=
    mapValues_eq_self fun entry hentry => TypeDef.normalized_of_isCanonical (h entry hentry)
  simp [normalized, htypes]

end WireSchema
