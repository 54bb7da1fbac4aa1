import Mathlib.Data.List.Nodup
import WireSchema.Proofs.Document.Normalized
import WireSchema.Verification.Rules

/-!
# What verification accepts

Each check passes exactly under a condition that can be read without running it.
The recursive checks thread the names used so far; their conditions say that the
names are pairwise different and not among those used before.
-/

namespace WireSchema.Verification

open Text (isIdentifier)

theorem ensure_eq_ok_iff {condition : Bool} {violation : Violation} :
    ensure condition violation = .ok () ↔ condition = true := by
  cases condition <;> simp [ensure]

theorem checkType_eq_ok_iff {typeName place type : String} :
    checkType typeName place type = .ok () ↔ DenotesType type := by
  unfold checkType DenotesType
  cases TypeExpr.parse type <;> simp

theorem andThen_eq_ok_iff {α : Type} {first : Check Unit} {next : Unit → Check α} {a : α} :
    (first >>= next) = .ok a ↔ first = .ok () ∧ next () = .ok a := by
  rw [Outcome.bind_eq_ok_iff]
  exact ⟨fun ⟨_, hfirst, hnext⟩ => ⟨hfirst, hnext⟩, fun ⟨hfirst, hnext⟩ => ⟨(), hfirst, hnext⟩⟩

/-! ## Fresh values

The recursive checks hand on what is taken so far. Taking some values after others is to take
the first ones, and then the others with the first ones taken.
-/

section Fresh

variable {α : Type} {taken own later : List α}

/-- No value is taken before, and none is there twice. -/
def AreFresh (taken values : List α) : Prop :=
  values.Nodup ∧ ∀ value ∈ values, value ∉ taken

theorem areFresh_nil : AreFresh taken [] :=
  ⟨List.nodup_nil, by simp⟩

theorem areFresh_singleton {value : α} : AreFresh taken [value] ↔ value ∉ taken := by
  simp [AreFresh]

theorem areFresh_append :
    AreFresh taken (own ++ later) ↔ AreFresh taken own ∧ AreFresh (own ++ taken) later := by
  simp only [AreFresh, List.nodup_append', List.disjoint_left, List.mem_append, not_or]
  constructor
  · rintro ⟨⟨hown, hlater, hapart⟩, hfree⟩
    exact ⟨⟨hown, fun value hmem => hfree value (.inl hmem)⟩, hlater, fun value hmem =>
      ⟨fun hmine => hapart hmine hmem, hfree value (.inr hmem)⟩⟩
  · rintro ⟨⟨hown, hfirst⟩, hlater, hrest⟩
    exact ⟨⟨hown, hlater, fun value hmine hmem => (hrest value hmem).1 hmine⟩, fun value hmem =>
      hmem.elim (hfirst value) fun hmem => (hrest value hmem).2⟩

theorem areFresh_cons {value : α} :
    AreFresh taken (value :: later) ↔ value ∉ taken ∧ AreFresh (value :: taken) later := by
  rw [← List.singleton_append, areFresh_append, areFresh_singleton, List.singleton_append]

end Fresh

/-! ## Structs, string enums and aliases -/

def wireNames (fields : List (String × FieldDef)) : List String :=
  fields.map fun entry => entry.2.effectiveWireName entry.1

structure FieldsAccepted (fields : List (String × FieldDef)) : Prop where
  identifiers : ∀ entry ∈ fields, isIdentifier entry.1 = true
  typed : ∀ entry ∈ fields, DenotesType entry.2.type
  distinct : (wireNames fields).Nodup

theorem checkFields_eq_ok_iff {typeName : String} {used : List String}
    {fields : List (String × FieldDef)} :
    checkFields typeName used fields = .ok () ↔
      FieldsAccepted fields ∧ ∀ wire ∈ wireNames fields, wire ∉ used := by
  have hparts : checkFields typeName used fields = .ok () ↔
      (∀ entry ∈ fields, isIdentifier entry.1 = true) ∧
        (∀ entry ∈ fields, DenotesType entry.2.type) ∧ AreFresh used (wireNames fields) := by
    induction fields generalizing used with
    | nil => simp [checkFields, wireNames, areFresh_nil]
    | cons entry rest ih =>
      have hwires : wireNames (entry :: rest) =
          entry.2.effectiveWireName entry.1 :: wireNames rest := rfl
      rw [checkFields, hwires, areFresh_cons]
      simp only [andThen_eq_ok_iff, ensure_eq_ok_iff, checkType_eq_ok_iff, ih,
        List.forall_mem_cons, Bool.not_eq_true', List.contains_eq_mem, decide_eq_false_iff_not]
      tauto
  rw [hparts]
  exact ⟨fun ⟨hnames, htypes, hdistinct, hfree⟩ => ⟨⟨hnames, htypes, hdistinct⟩, hfree⟩,
    fun ⟨⟨hnames, htypes, hdistinct⟩, hfree⟩ => ⟨hnames, htypes, hdistinct, hfree⟩⟩

structure ValuesAccepted (values : List (String × String)) : Prop where
  identifiers : ∀ entry ∈ values, isIdentifier entry.1 = true
  distinct : (values.map Prod.snd).Nodup

theorem checkValues_eq_ok_iff {typeName : String} {used : List String}
    {values : List (String × String)} :
    checkValues typeName used values = .ok () ↔
      ValuesAccepted values ∧ ∀ entry ∈ values, entry.2 ∉ used := by
  have hparts : checkValues typeName used values = .ok () ↔
      (∀ entry ∈ values, isIdentifier entry.1 = true) ∧ AreFresh used (values.map Prod.snd) := by
    induction values generalizing used with
    | nil => simp [checkValues, areFresh_nil]
    | cons entry rest ih =>
      rw [checkValues, List.map_cons, areFresh_cons]
      simp only [andThen_eq_ok_iff, ensure_eq_ok_iff, ih, List.forall_mem_cons,
        Bool.not_eq_true', List.contains_eq_mem, decide_eq_false_iff_not]
      tauto
  rw [hparts, AreFresh, List.forall_mem_map]
  exact ⟨fun ⟨hnames, hdistinct, hfree⟩ => ⟨⟨hnames, hdistinct⟩, hfree⟩,
    fun ⟨⟨hnames, hdistinct⟩, hfree⟩ => ⟨hnames, hdistinct, hfree⟩⟩

structure StringEnumAccepted (d : StringEnumDef) : Prop where
  values : ValuesAccepted d.values.entries
  fallback : ∀ fallback ∈ d.fallbackCase, isIdentifier fallback = true

theorem checkStringEnum_eq_ok_iff {name : String} {d : StringEnumDef} :
    checkStringEnum name d = .ok () ↔ StringEnumAccepted d := by
  rw [checkStringEnum, andThen_eq_ok_iff, checkValues_eq_ok_iff]
  constructor
  · rintro ⟨⟨hvalues, -⟩, hfallback⟩
    refine ⟨hvalues, fun fallback hmem => ?_⟩
    rw [hmem] at hfallback
    exact ensure_eq_ok_iff.mp hfallback
  · rintro ⟨hvalues, hfallback⟩
    refine ⟨⟨hvalues, by simp⟩, ?_⟩
    cases hcase : d.fallbackCase with
    | none => rfl
    | some fallback => exact ensure_eq_ok_iff.mpr (hfallback fallback hcase)

structure AliasAccepted (d : AliasDef) : Prop where
  nonempty : Text.trimChars d.target.toList ≠ []
  typed : DenotesType d.target

theorem checkAlias_eq_ok_iff {name : String} {d : AliasDef} :
    checkAlias name d = .ok () ↔ AliasAccepted d := by
  rw [checkAlias, andThen_eq_ok_iff, ensure_eq_ok_iff, checkType_eq_ok_iff]
  simp only [Bool.not_eq_true', List.isEmpty_eq_false_iff]
  exact ⟨fun ⟨hne, htype⟩ => ⟨hne, htype⟩, fun ⟨hne, htype⟩ => ⟨hne, htype⟩⟩

/-! ## Unions -/

def PayloadAccepted (d : UnionDef) : VariantPayload → Prop
  | .unit => True
  | .wrapped type => DenotesType type
  | .inline fields => ∃ field, d.discriminator = some ⟨field, .inline⟩ ∧
      FieldsAccepted fields.entries ∧ field ∉ wireNames fields.entries

theorem checkPayload_eq_ok_iff {union name : String} {d : UnionDef} {variant : VariantDef} :
    checkPayload union d name variant = .ok () ↔ PayloadAccepted d variant.payload := by
  unfold checkPayload PayloadAccepted
  rcases variant.payload with _ | type | fields
  · simp
  · simpa using checkType_eq_ok_iff
  · rcases hdisc : d.discriminator with _ | ⟨field, _ | _⟩
    · simp
    · simp only [andThen_eq_ok_iff, checkFields_eq_ok_iff, ensure_eq_ok_iff, List.all_eq_true,
        bne_iff_ne, Option.some.injEq, Discriminator.mk.injEq, and_true, exists_eq_left',
        wireNames, List.mem_map, not_exists, not_and]
      simp
    · simp

/-- The tags of the variants that must have one of their own. -/
def ownTags (d : UnionDef) (variants : List (String × VariantDef)) : List String :=
  (variants.filter fun entry => isTagged d entry.1 entry.2).map fun entry =>
    entry.2.wireTag entry.1

def ownLiterals (variants : List (String × VariantDef)) : List LiteralSugar :=
  variants.filterMap fun entry => entry.2.literal

structure VariantsAccepted (d : UnionDef) (variants : List (String × VariantDef)) : Prop where
  identifiers : ∀ entry ∈ variants, isIdentifier entry.1 = true
  payloads : ∀ entry ∈ variants, PayloadAccepted d entry.2.payload
  literals : ∀ entry ∈ variants, ∀ literal ∈ entry.2.literal,
    fitsLiteral entry.2.payload literal = true
  distinctTags : (ownTags d variants).Nodup
  distinctLiterals : (ownLiterals variants).Nodup

theorem takeTag_eq_ok_iff {union name : String} {d : UnionDef} {tags tags' : List String}
    {variant : VariantDef} :
    takeTag union d tags name variant = .ok tags' ↔
      AreFresh tags (ownTags d [(name, variant)]) ∧
        tags' = ownTags d [(name, variant)] ++ tags := by
  unfold takeTag ownTags
  by_cases htagged : isTagged d name variant = true
  · simp only [htagged, if_true, andThen_eq_ok_iff, ensure_eq_ok_iff]
    simp [htagged, areFresh_singleton, pure, Except.pure, @eq_comm _ tags']
  · simp [htagged, areFresh_nil, pure, Except.pure, @eq_comm _ tags']

theorem takeLiteral_eq_ok_iff {union name : String} {literals literals' : List LiteralSugar}
    {variant : VariantDef} :
    takeLiteral union literals name variant = .ok literals' ↔
      (∀ literal ∈ variant.literal, fitsLiteral variant.payload literal = true) ∧
        AreFresh literals (ownLiterals [(name, variant)]) ∧
        literals' = ownLiterals [(name, variant)] ++ literals := by
  unfold takeLiteral ownLiterals
  rcases hliteral : variant.literal with _ | literal
  · simp [hliteral, areFresh_nil, pure, Except.pure, @eq_comm _ literals']
  · simp only [andThen_eq_ok_iff, ensure_eq_ok_iff]
    simp [hliteral, areFresh_singleton, pure, Except.pure, @eq_comm _ literals']

theorem ownTags_cons (d : UnionDef) (entry : String × VariantDef)
    (rest : List (String × VariantDef)) :
    ownTags d (entry :: rest) = ownTags d [entry] ++ ownTags d rest := by
  unfold ownTags
  by_cases htagged : isTagged d entry.1 entry.2 = true <;> simp [htagged]

theorem ownLiterals_cons (entry : String × VariantDef) (rest : List (String × VariantDef)) :
    ownLiterals (entry :: rest) = ownLiterals [entry] ++ ownLiterals rest := by
  unfold ownLiterals
  cases hliteral : entry.2.literal <;> simp [hliteral]

theorem checkVariants_eq_ok_iff {union : String} {d : UnionDef} {taken : Taken}
    {variants : List (String × VariantDef)} :
    checkVariants union d taken variants = .ok () ↔
      VariantsAccepted d variants ∧ (∀ tag ∈ ownTags d variants, tag ∉ taken.tags) ∧
        ∀ literal ∈ ownLiterals variants, literal ∉ taken.literals := by
  have hparts : checkVariants union d taken variants = .ok () ↔
      (∀ entry ∈ variants, isIdentifier entry.1 = true) ∧
        (∀ entry ∈ variants, PayloadAccepted d entry.2.payload) ∧
        (∀ entry ∈ variants, ∀ literal ∈ entry.2.literal,
          fitsLiteral entry.2.payload literal = true) ∧
        AreFresh taken.tags (ownTags d variants) ∧
        AreFresh taken.literals (ownLiterals variants) := by
    induction variants generalizing taken with
    | nil => simp [checkVariants, ownTags, ownLiterals, areFresh_nil]
    | cons entry rest ih =>
      rw [checkVariants, andThen_eq_ok_iff, andThen_eq_ok_iff, ensure_eq_ok_iff,
        checkPayload_eq_ok_iff, ownTags_cons, ownLiterals_cons, areFresh_append, areFresh_append]
      simp only [Outcome.bind_eq_ok_iff, takeTag_eq_ok_iff, takeLiteral_eq_ok_iff, ih,
        List.forall_mem_cons]
      constructor
      · rintro ⟨hname, hpayload, _, ⟨htag, rfl⟩, _, ⟨hfits, hliteral, rfl⟩, hnames, hpayloads,
          hfit, htags, hliterals⟩
        exact ⟨⟨hname, hnames⟩, ⟨hpayload, hpayloads⟩, ⟨hfits, hfit⟩, ⟨htag, htags⟩, hliteral,
          hliterals⟩
      · rintro ⟨⟨hname, hnames⟩, ⟨hpayload, hpayloads⟩, ⟨hfits, hfit⟩, ⟨htag, htags⟩, hliteral,
          hliterals⟩
        exact ⟨hname, hpayload, _, ⟨htag, rfl⟩, _, ⟨hfits, hliteral, rfl⟩, hnames, hpayloads,
          hfit, htags, hliterals⟩
  rw [hparts]
  constructor
  · rintro ⟨hnames, hpayloads, hfit, ⟨htags, hfreeTags⟩, hliterals, hfreeLiterals⟩
    exact ⟨⟨hnames, hpayloads, hfit, htags, hliterals⟩, hfreeTags, hfreeLiterals⟩
  · rintro ⟨⟨hnames, hpayloads, hfit, htags, hliterals⟩, hfreeTags, hfreeLiterals⟩
    exact ⟨hnames, hpayloads, hfit, ⟨htags, hfreeTags⟩, hliterals, hfreeLiterals⟩

structure UnionAccepted (d : UnionDef) : Prop where
  fallback : ∀ fallback ∈ d.fallbackVariant, ∃ variant ∈ d.variants.get? fallback,
    variant.isUnit = true
  variants : VariantsAccepted d d.variants.entries
  discriminator : ∀ disc ∈ d.discriminator, disc.field ≠ ""
  tags : tagsHaveMeaning d = true
  bareUnits : (d.variants.entries.filter fun entry => isBareUnit d entry.1 entry.2).length ≤ 1

theorem checkFallback_eq_ok_iff {name : String} {d : UnionDef} :
    checkFallback name d = .ok () ↔
      ∀ fallback ∈ d.fallbackVariant, ∃ variant ∈ d.variants.get? fallback,
        variant.isUnit = true := by
  unfold checkFallback
  cases d.fallbackVariant with
  | none => simp
  | some fallback =>
    cases hvariant : d.variants.get? fallback with
    | none => simp [hvariant]
    | some variant => simp [hvariant, ensure_eq_ok_iff]

theorem checkUnion_eq_ok_iff {name : String} {d : UnionDef} :
    checkUnion name d = .ok () ↔ UnionAccepted d := by
  rw [checkUnion]
  simp only [andThen_eq_ok_iff, ensure_eq_ok_iff, checkFallback_eq_ok_iff,
    checkVariants_eq_ok_iff]
  constructor
  · rintro ⟨hfallback, ⟨hvariants, -⟩, hdisc, htags, hunits⟩
    refine ⟨hfallback, hvariants, fun disc hmem => ?_, htags, by simpa using hunits⟩
    rw [hmem] at hdisc
    simpa using hdisc
  · rintro ⟨hfallback, hvariants, hdisc, htags, hunits⟩
    refine ⟨hfallback, ⟨hvariants, by simp, by simp⟩, ?_, htags, by simpa using hunits⟩
    cases hcase : d.discriminator with
    | none => rfl
    | some disc => simpa using hdisc disc hcase

/-! ## Schemas -/

def DefinitionAccepted : TypeDef → Prop
  | .struct d => FieldsAccepted d.fields.entries
  | .stringEnum d => StringEnumAccepted d
  | .union d => UnionAccepted d
  | .typeAlias d => AliasAccepted d

structure EntryAccepted (entry : String × TypeDef) : Prop where
  identifier : isIdentifier entry.1 = true
  free : entry.1 ∉ reservedNames
  definition : DefinitionAccepted entry.2

theorem checkDefinition_eq_ok_iff {name : String} {definition : TypeDef} :
    checkDefinition name definition = .ok () ↔ DefinitionAccepted definition := by
  cases definition with
  | struct d =>
    show checkFields name [] d.fields.entries = .ok () ↔ FieldsAccepted d.fields.entries
    rw [checkFields_eq_ok_iff]
    simp
  | stringEnum d => exact checkStringEnum_eq_ok_iff
  | union d => exact checkUnion_eq_ok_iff
  | typeAlias d => exact checkAlias_eq_ok_iff

theorem checkEntry_eq_ok_iff {entry : String × TypeDef} :
    checkEntry entry = .ok () ↔ EntryAccepted entry := by
  rw [checkEntry]
  simp only [andThen_eq_ok_iff, ensure_eq_ok_iff, checkDefinition_eq_ok_iff]
  constructor
  · rintro ⟨hname, hfree, hdefinition⟩
    exact ⟨hname, by simpa using hfree, hdefinition⟩
  · rintro ⟨hname, hfree, hdefinition⟩
    exact ⟨hname, by simpa using hfree, hdefinition⟩

theorem checkEntries_eq_ok_iff {entries : List (String × TypeDef)} :
    checkEntries entries = .ok () ↔ ∀ entry ∈ entries, EntryAccepted entry := by
  induction entries with
  | nil => simp [checkEntries]
  | cons entry rest ih =>
    rw [checkEntries, andThen_eq_ok_iff, checkEntry_eq_ok_iff, ih]
    simp

/-- A schema passes exactly if each of its definitions is accepted under its name. -/
theorem verify_eq_ok_iff {schema : Schema} :
    verify schema = .ok () ↔ ∀ entry ∈ schema.types.entries, EntryAccepted entry :=
  checkEntries_eq_ok_iff

end WireSchema.Verification
