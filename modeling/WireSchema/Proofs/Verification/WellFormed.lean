import Mathlib.Data.List.Pairwise
import WireSchema.Proofs.Lookup
import WireSchema.Proofs.Schema.RawValues
import WireSchema.Proofs.Verification.Accepted

/-!
# Well-formed schemas

What it means that code can be generated from a schema, said of its parts and not of the
checks: every condition is about one entry or about two, and none depends on the order in
which entries are looked at. Verification accepts exactly the well-formed schemas.
-/

namespace WireSchema

/-- What is taken from some entries of a map is taken once exactly if no two entries that give
the same have different names. -/
theorem NameMap.nodup_filterMap_iff {α β : Type} {map : NameMap α} {f : String × α → Option β} :
    (map.entries.filterMap f).Nodup ↔
      ∀ a ∈ map.entries, ∀ b ∈ map.entries, ∀ x, f a = some x → f b = some x → a.1 = b.1 := by
  have hentries : map.entries.Nodup := map.nodup_names.of_map _
  rw [List.Nodup, List.pairwise_filterMap]
  constructor
  · intro hpairs a ha b hb x hax hbx
    have : Std.Symm fun a b : String × α =>
        ∀ x, f a = some x → ∀ y, f b = some y → x ≠ y :=
      ⟨fun _ _ hdistinct x hx y hy => (hdistinct y hy x hx).symm⟩
    refine Classical.byContradiction fun hne => ?_
    have hab : a ≠ b := fun heq => hne (congrArg Prod.fst heq)
    exact hpairs.forall ha hb hab x hax x hbx rfl
  · intro hnames
    refine hentries.pairwise_of_forall_ne fun a ha b hb hab x hx y hy hxy => hab ?_
    exact eq_of_name_eq ha hb (hnames a ha b hb x hx (hxy ▸ hy))

theorem NameMap.nodup_map_iff {α β : Type} {map : NameMap α} {f : String × α → β} :
    (map.entries.map f).Nodup ↔
      ∀ a ∈ map.entries, ∀ b ∈ map.entries, f a = f b → a.1 = b.1 := by
  rw [← List.filterMap_eq_map, nodup_filterMap_iff]
  simp only [Function.comp_apply, Option.some.injEq]
  exact forall₄_congr fun a _ b _ =>
    ⟨fun h hsame => h _ rfl hsame.symm, fun h x hax hbx => h (hax.trans hbx.symm)⟩

namespace Verification

open Text (isIdentifier)

/-! ## Fields, string enums and aliases -/

structure FieldsWellFormed (fields : NameMap FieldDef) : Prop where
  names : ∀ entry ∈ fields.entries, isIdentifier entry.1 = true
  types : ∀ entry ∈ fields.entries, ∃ t, TypeExpr.parse entry.2.type = .ok t
  wireNames : ∀ a ∈ fields.entries, ∀ b ∈ fields.entries,
    a.2.effectiveWireName a.1 = b.2.effectiveWireName b.1 → a.1 = b.1

theorem fieldsAccepted_iff_wellFormed {fields : NameMap FieldDef} :
    FieldsAccepted fields.entries ↔ FieldsWellFormed fields := by
  constructor
  · rintro ⟨hnames, htypes, hdistinct⟩
    exact ⟨hnames, htypes, NameMap.nodup_map_iff.mp hdistinct⟩
  · rintro ⟨hnames, htypes, hwires⟩
    exact ⟨hnames, htypes, NameMap.nodup_map_iff.mpr hwires⟩

structure StringEnumWellFormed (d : StringEnumDef) : Prop where
  names : ∀ entry ∈ d.values.entries, isIdentifier entry.1 = true
  literals : ∀ a ∈ d.values.entries, ∀ b ∈ d.values.entries, a.2 = b.2 → a.1 = b.1
  fallback : ∀ fallback, d.fallbackCase = some fallback → isIdentifier fallback = true

theorem stringEnumAccepted_iff_wellFormed {d : StringEnumDef} :
    StringEnumAccepted d ↔ StringEnumWellFormed d := by
  constructor
  · rintro ⟨⟨hnames, hdistinct⟩, hfallback⟩
    exact ⟨hnames, NameMap.nodup_map_iff.mp hdistinct, hfallback⟩
  · rintro ⟨hnames, hliterals, hfallback⟩
    exact ⟨⟨hnames, NameMap.nodup_map_iff.mpr hliterals⟩, hfallback⟩

structure AliasWellFormed (d : AliasDef) : Prop where
  nonblank : Text.trimChars d.target.toList ≠ []
  type : ∃ t, TypeExpr.parse d.target = .ok t

theorem aliasAccepted_iff_wellFormed {d : AliasDef} : AliasAccepted d ↔ AliasWellFormed d :=
  ⟨fun h => ⟨h.nonempty, h.typed⟩, fun h => ⟨h.nonblank, h.type⟩⟩

/-! ## Unions -/

/-- The variant has a tag on the wire: the union has a discriminator, or the variant is given a
tag. The fallback has none. -/
def HasOwnTag (d : UnionDef) (entry : String × VariantDef) : Prop :=
  d.fallbackVariant ≠ some entry.1 ∧ (d.discriminator ≠ none ∨ entry.2.tag ≠ none)

/-- The variant stands for the absence of a value: a unit that nothing else tells apart. -/
def StandsForNothing (d : UnionDef) (entry : String × VariantDef) : Prop :=
  d.fallbackVariant ≠ some entry.1 ∧ d.discriminator = none ∧ entry.2.tag = none ∧
    entry.2.payload = .unit

structure UnionWellFormed (d : UnionDef) : Prop where
  names : ∀ entry ∈ d.variants.entries, isIdentifier entry.1 = true
  fallback : ∀ fallback, d.fallbackVariant = some fallback →
    ∃ variant, d.variants.get? fallback = some variant ∧ variant.payload = .unit
  inline : ∀ entry ∈ d.variants.entries, ∀ fields, entry.2.payload = .inline fields →
    ∃ key, d.discriminator = some ⟨key, .inline⟩ ∧ FieldsWellFormed fields ∧
      ∀ field ∈ fields.entries, field.2.effectiveWireName field.1 ≠ key
  wrapped : ∀ entry ∈ d.variants.entries, ∀ type, entry.2.payload = .wrapped type →
    ∃ t, TypeExpr.parse type = .ok t
  tags : ∀ a ∈ d.variants.entries, ∀ b ∈ d.variants.entries, HasOwnTag d a → HasOwnTag d b →
    a.2.wireTag a.1 = b.2.wireTag b.1 → a.1 = b.1
  stringLiterals : ∀ entry ∈ d.variants.entries, entry.2.literal = some .string →
    entry.2.payload = .wrapped "string"
  arrayLiterals : ∀ entry ∈ d.variants.entries, entry.2.literal = some .array →
    ∃ type element, entry.2.payload = .wrapped type ∧ TypeExpr.parse type = .ok (.list element)
  literals : ∀ a ∈ d.variants.entries, ∀ b ∈ d.variants.entries, ∀ kind,
    a.2.literal = some kind → b.2.literal = some kind → a.1 = b.1
  discriminator : ∀ disc, d.discriminator = some disc → disc.field ≠ ""
  rawValues : d.discriminator = none →
    (∃ entry ∈ d.variants.entries, entry.2.tag ≠ none ∧ d.fallbackVariant ≠ some entry.1) →
      d.rawValueType ≠ none
  nothing : ∀ a ∈ d.variants.entries, ∀ b ∈ d.variants.entries,
    StandsForNothing d a → StandsForNothing d b → a.1 = b.1

section

variable {d : UnionDef}

theorem isFallback_eq_false_iff {name : String} :
    d.isFallback name = false ↔ d.fallbackVariant ≠ some name := by
  simp [UnionDef.isFallback]

theorem isTagged_iff {entry : String × VariantDef} :
    isTagged d entry.1 entry.2 = true ↔ HasOwnTag d entry := by
  simp only [isTagged, HasOwnTag, Bool.and_eq_true, Bool.or_eq_true, Bool.not_eq_true',
    isFallback_eq_false_iff, Option.isSome_iff_ne_none]
  exact and_comm

theorem isBareUnit_iff {entry : String × VariantDef} :
    isBareUnit d entry.1 entry.2 = true ↔ StandsForNothing d entry := by
  simp only [isBareUnit, StandsForNothing, VariantDef.isUnit, Bool.and_eq_true, beq_iff_eq,
    Bool.not_eq_true', isFallback_eq_false_iff, Option.isNone_iff_eq_none]
  tauto

theorem nodup_ownTags_iff :
    (ownTags d d.variants.entries).Nodup ↔
      ∀ a ∈ d.variants.entries, ∀ b ∈ d.variants.entries, HasOwnTag d a → HasOwnTag d b →
        a.2.wireTag a.1 = b.2.wireTag b.1 → a.1 = b.1 := by
  have htags : ownTags d d.variants.entries = d.variants.entries.filterMap fun entry =>
      if isTagged d entry.1 entry.2 = true then some (entry.2.wireTag entry.1) else none := by
    rw [ownTags, ← List.filterMap_eq_map, List.filterMap_filter]
    rfl
  rw [htags, NameMap.nodup_filterMap_iff]
  simp only [Option.ite_none_right_eq_some, Option.some.injEq, isTagged_iff]
  constructor
  · intro h a ha b hb hown hown' htag
    exact h a ha b hb _ ⟨hown, htag⟩ ⟨hown', rfl⟩
  · rintro h a ha b hb tag ⟨hown, rfl⟩ ⟨hown', htag⟩
    exact h a ha b hb hown hown' htag.symm

theorem bareUnits_length_iff :
    (d.variants.entries.filter fun entry => isBareUnit d entry.1 entry.2).length ≤ 1 ↔
      ∀ a ∈ d.variants.entries, ∀ b ∈ d.variants.entries,
        StandsForNothing d a → StandsForNothing d b → a.1 = b.1 := by
  -- at most one entry passes exactly if a constant is taken at most once from those that do
  have hunits : List.replicate
      (d.variants.entries.filter fun entry => isBareUnit d entry.1 entry.2).length () =
        d.variants.entries.filterMap fun entry =>
          if isBareUnit d entry.1 entry.2 = true then some () else none := by
    rw [← List.map_const', ← List.filterMap_eq_map, List.filterMap_filter]
    rfl
  rw [← List.nodup_replicate (a := ()), hunits, NameMap.nodup_filterMap_iff]
  simp only [Option.ite_none_right_eq_some, and_true, isBareUnit_iff, forall_const]

theorem fitsLiteral_string_iff {payload : VariantPayload} :
    fitsLiteral payload .string = true ↔ payload = .wrapped "string" := by
  cases payload <;> simp [fitsLiteral]

theorem fitsLiteral_array_iff {payload : VariantPayload} :
    fitsLiteral payload .array = true ↔
      ∃ type element, payload = .wrapped type ∧ TypeExpr.parse type = .ok (.list element) := by
  cases payload with
  | unit => simp [fitsLiteral]
  | inline fields => simp [fitsLiteral]
  | wrapped type =>
    simp only [fitsLiteral, VariantPayload.wrapped.injEq]
    constructor
    · intro hfits
      split at hfits
      · next element hparse => exact ⟨type, element, rfl, hparse⟩
      · cases hfits
    · rintro ⟨_, element, rfl, hparse⟩
      rw [hparse]

theorem tagsHaveMeaning_iff :
    tagsHaveMeaning d = true ↔
      (d.discriminator = none →
        (∃ entry ∈ d.variants.entries, entry.2.tag ≠ none ∧ d.fallbackVariant ≠ some entry.1) →
          d.rawValueType ≠ none) := by
  have huntagged : (d.variants.entries.all fun entry =>
        entry.2.tag.isNone || d.isFallback entry.1) = true ↔
      ¬ ∃ entry ∈ d.variants.entries, entry.2.tag ≠ none ∧ d.fallbackVariant ≠ some entry.1 := by
    simp only [List.all_eq_true, Bool.or_eq_true, Option.isNone_iff_eq_none, not_exists, not_and,
      UnionDef.isFallback, beq_iff_eq, ne_eq, not_not]
    exact forall₂_congr fun entry _ => or_iff_not_imp_left
  rw [tagsHaveMeaning, Bool.or_eq_true, Bool.or_eq_true, huntagged, Option.isSome_iff_ne_none,
    Option.isSome_iff_ne_none, or_assoc, imp_iff_not_or, imp_iff_or_not]

theorem payloadAccepted_iff {payload : VariantPayload} :
    PayloadAccepted d payload ↔
      (∀ fields, payload = .inline fields → ∃ key, d.discriminator = some ⟨key, .inline⟩ ∧
        FieldsWellFormed fields ∧
          ∀ field ∈ fields.entries, field.2.effectiveWireName field.1 ≠ key) ∧
      ∀ type, payload = .wrapped type → ∃ t, TypeExpr.parse type = .ok t := by
  cases payload with
  | unit => simp [PayloadAccepted]
  | wrapped type => simp [PayloadAccepted, DenotesType]
  | inline fields =>
    simp only [PayloadAccepted, fieldsAccepted_iff_wellFormed, wireNames, List.mem_map, not_exists,
      not_and, VariantPayload.inline.injEq, reduceCtorEq, false_implies, implies_true, and_true,
      forall_eq', ne_eq]

theorem unionAccepted_iff_wellFormed : UnionAccepted d ↔ UnionWellFormed d := by
  have hfallback : (∀ fallback ∈ d.fallbackVariant, ∃ variant ∈ d.variants.get? fallback,
        variant.isUnit = true) ↔
      ∀ fallback, d.fallbackVariant = some fallback →
        ∃ variant, d.variants.get? fallback = some variant ∧ variant.payload = .unit := by
    simp only [Option.mem_def, VariantDef.isUnit, beq_iff_eq]
  constructor
  · intro h
    exact
      { names := h.variants.identifiers
        fallback := hfallback.mp h.fallback
        inline := fun entry hentry => (payloadAccepted_iff.mp (h.variants.payloads entry hentry)).1
        wrapped := fun entry hentry => (payloadAccepted_iff.mp (h.variants.payloads entry hentry)).2
        tags := nodup_ownTags_iff.mp h.variants.distinctTags
        stringLiterals := fun entry hentry hkind =>
          fitsLiteral_string_iff.mp (h.variants.literals entry hentry _ hkind)
        arrayLiterals := fun entry hentry hkind =>
          fitsLiteral_array_iff.mp (h.variants.literals entry hentry _ hkind)
        literals := NameMap.nodup_filterMap_iff.mp h.variants.distinctLiterals
        discriminator := h.discriminator
        rawValues := tagsHaveMeaning_iff.mp h.tags
        nothing := bareUnits_length_iff.mp h.bareUnits }
  · intro h
    refine ⟨hfallback.mpr h.fallback, ⟨h.names, ?_, ?_, ?_, ?_⟩, h.discriminator, ?_, ?_⟩
    · exact fun entry hentry =>
        payloadAccepted_iff.mpr ⟨h.inline entry hentry, h.wrapped entry hentry⟩
    · intro entry hentry kind hkind
      cases kind with
      | string => exact fitsLiteral_string_iff.mpr (h.stringLiterals entry hentry hkind)
      | array => exact fitsLiteral_array_iff.mpr (h.arrayLiterals entry hentry hkind)
    · exact nodup_ownTags_iff.mpr h.tags
    · exact NameMap.nodup_filterMap_iff.mpr h.literals
    · exact tagsHaveMeaning_iff.mpr h.rawValues
    · exact bareUnits_length_iff.mpr h.nothing

end

/-! ## Schemas -/

def DefinitionWellFormed : TypeDef → Prop
  | .struct d => FieldsWellFormed d.fields
  | .stringEnum d => StringEnumWellFormed d
  | .union d => UnionWellFormed d
  | .typeAlias d => AliasWellFormed d

structure SchemaWellFormed (schema : Schema) : Prop where
  names : ∀ entry ∈ schema.types.entries, isIdentifier entry.1 = true
  unreserved : ∀ entry ∈ schema.types.entries, entry.1 ∉ reservedNames
  definitions : ∀ entry ∈ schema.types.entries, DefinitionWellFormed entry.2

theorem definitionAccepted_iff_wellFormed {definition : TypeDef} :
    DefinitionAccepted definition ↔ DefinitionWellFormed definition := by
  cases definition with
  | struct d => exact fieldsAccepted_iff_wellFormed
  | stringEnum d => exact stringEnumAccepted_iff_wellFormed
  | union d => exact unionAccepted_iff_wellFormed
  | typeAlias d => exact aliasAccepted_iff_wellFormed

/-- Verification accepts exactly the well-formed schemas. -/
theorem verify_eq_ok_iff_wellFormed (schema : Schema) :
    verify schema = .ok () ↔ SchemaWellFormed schema := by
  rw [verify_eq_ok_iff]
  constructor
  · intro h
    exact ⟨fun entry hentry => (h entry hentry).identifier,
      fun entry hentry => (h entry hentry).free,
      fun entry hentry => definitionAccepted_iff_wellFormed.mp (h entry hentry).definition⟩
  · intro h entry hentry
    exact ⟨h.names entry hentry, h.unreserved entry hentry,
      definitionAccepted_iff_wellFormed.mpr (h.definitions entry hentry)⟩

end Verification

end WireSchema
