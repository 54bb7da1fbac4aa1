import WireSchema.Proofs.Extraction.Alike
import WireSchema.Proofs.Extraction.Definitions
import WireSchema.Proofs.Extraction.Numbering
import WireSchema.Proofs.Generation.LastingTags

/-!
# Generated enums of numbers read back

A generated enum of numbers is lowered to a union with the numbers that its tags are read as. It
is the union that it was generated from, as far as names, tags and the kind of the numbers go,
exactly if every tag lasts.
-/

namespace WireSchema.Extraction

open Generation Swift Verification

/-! ## Numbers of the cases -/

/-- The number that is read where the tag of the case is written. -/
def IsReadAs (c : TaggedCase) (raw : String) : Prop :=
  numberText? (rawLiteralOf c.tag) = some raw

/-- Cases with tags are numbered by what these are read as, whatever the next number is. -/
theorem isNumbering_iff_forall₂ {implicit : Option Int} {cs : List TaggedCase}
    {raws : List String} :
    IsNumbering implicit (cs.map TaggedCase.enumCase) raws ↔ List.Forall₂ IsReadAs cs raws := by
  constructor
  · intro h
    induction cs generalizing implicit raws with
    | nil =>
      cases h
      exact .nil
    | cons c later ih =>
      cases h with
      | cons _ number rest => exact .cons number (ih rest)
  · intro h
    induction h generalizing implicit with
    | nil => exact .nil implicit
    | cons hread _ ih => exact .cons rfl hread ih

/-! ## Names of the cases -/

section

variable {d : UnionDef}

theorem names_taggedCases :
    (taggedCases d).map TaggedCase.name =
      (numberedVariants d).map Prod.fst ++ d.fallbackVariant.toList := by
  rw [taggedCases, List.map_append, List.map_map, List.map_map]
  simp [Function.comp_def, taggedVariant, taggedFallback]

theorem nodup_names_taggedCases : ((taggedCases d).map TaggedCase.name).Nodup := by
  rw [names_taggedCases]
  refine List.nodup_append.mpr ⟨?_, ?_, ?_⟩
  · exact d.variants.nodup_names.sublist (List.filter_sublist.map Prod.fst)
  · cases d.fallbackVariant <;> simp
  · rintro name hname fallback hfallback rfl
    obtain ⟨entry, hentry, rfl⟩ := List.mem_map.mp hname
    have hown : d.isFallback entry.1 = false := by simpa using (List.mem_filter.mp hentry).2
    have hname : d.fallbackVariant = some entry.1 := by simpa using hfallback
    rw [UnionDef.isFallback, hname, beq_self_eq_true] at hown
    cases hown

/-- There is a case for each variant. -/
theorem mem_names_taggedCases_iff (haccepted : UnionAccepted d) {name : String} :
    name ∈ (taggedCases d).map TaggedCase.name ↔ d.variants.contains name = true := by
  rw [names_taggedCases, List.mem_append, NameMap.contains_iff_mem_names]
  constructor
  · rintro (hname | hfallback)
    · obtain ⟨entry, hentry, rfl⟩ := List.mem_map.mp hname
      exact List.mem_map_of_mem (List.mem_filter.mp hentry).1
    · obtain ⟨variant, hvariant, -⟩ := haccepted.fallback name (by simpa using hfallback)
      exact List.mem_map_of_mem (f := Prod.fst) (mem_of_get? hvariant)
  · intro hname
    obtain ⟨entry, hentry, rfl⟩ := List.mem_map.mp hname
    by_cases hfallback : d.isFallback entry.1 = true
    · have hsome : d.fallbackVariant = some entry.1 := beq_iff_eq.mp hfallback
      exact .inr (by simp [hsome])
    · exact .inl (List.mem_map_of_mem (List.mem_filter.mpr ⟨hentry, by simpa using hfallback⟩))

end

/-! ## Tags of the cases -/

/-- The tags of the variants with one of their own are read as they are written. -/
def TagsLast (d : UnionDef) : Prop :=
  ∀ entry ∈ numberedVariants d, IsLasting (entry.2.wireTag entry.1)

instance (d : UnionDef) : Decidable (TagsLast d) :=
  inferInstanceAs (Decidable (∀ entry ∈ numberedVariants d, _))

section

variable {d : UnionDef} {raw : RawKind} {entry : String × VariantDef}

theorem isInt64_fallbackRawValue (d : UnionDef) : Number.isInt64 (fallbackRawValue d) = true := by
  unfold fallbackRawValue nextRawValue
  split
  · exact Number.isInt64_nextInt64 (Number.isInt64_clampInt64 _)
  · rfl

theorem isIntTag_taggedFallback (d : UnionDef) (fallback : String) :
    RawKind.isIntTag (taggedFallback d fallback).tag = true :=
  RawKind.isIntTag_iff.mpr ⟨_, isInt64_fallbackRawValue d, rfl⟩

theorem mem_taggedCases_iff {c : TaggedCase} :
    c ∈ taggedCases d ↔ (∃ entry ∈ numberedVariants d, taggedVariant entry = c) ∨
      ∃ fallback, d.fallbackVariant = some fallback ∧ taggedFallback d fallback = c := by
  simp [taggedCases]

theorem rawKindOf?_of_mem_numberedVariants (hraw : d.rawValueType = some raw)
    (hentry : entry ∈ numberedVariants d) :
    entry.2.tag = some (taggedVariant entry).tag ∧
      UnionDef.rawKindOf? entry.2 = RawKind.ofTag? (taggedVariant entry).tag := by
  obtain ⟨hunit, tag, htag, -⟩ :=
    UnionDef.isSome_rawKindOf?_iff.mp (isSome_rawKindOf?_of_rawValueType hraw hentry)
  rw [taggedVariant, VariantDef.wireTag, UnionDef.rawKindOf?, VariantDef.isUnit, hunit, htag]
  exact ⟨rfl, rfl⟩

/-- All tags that are written are numbers. -/
theorem isSome_ofTag?_of_mem_taggedCases (hraw : d.rawValueType = some raw) {c : TaggedCase}
    (hc : c ∈ taggedCases d) : (RawKind.ofTag? c.tag).isSome = true := by
  rcases mem_taggedCases_iff.mp hc with ⟨entry, hentry, rfl⟩ | ⟨fallback, -, rfl⟩
  · have hkind := (rawKindOf?_of_mem_numberedVariants hraw hentry).2
    exact hkind ▸ isSome_rawKindOf?_of_rawValueType hraw hentry
  · rw [RawKind.ofTag?_eq_int_iff.mpr (isIntTag_taggedFallback d fallback)]
    rfl

theorem isReadAs_self_iff (hraw : d.rawValueType = some raw) {c : TaggedCase}
    (hc : c ∈ taggedCases d) : IsReadAs c c.tag ↔ IsLasting c.tag :=
  numberText?_rawLiteralOf_eq_iff (isSome_ofTag?_of_mem_taggedCases hraw hc)

/-- The tag of the fallback always lasts. -/
theorem forall₂_isReadAs_tags (hraw : d.rawValueType = some raw) (h : TagsLast d) :
    List.Forall₂ IsReadAs (taggedCases d) ((taggedCases d).map TaggedCase.tag) := by
  refine List.forall₂_map_right_iff.mpr (List.forall₂_same.mpr fun c hc => ?_)
  refine (isReadAs_self_iff hraw hc).mpr ?_
  rcases mem_taggedCases_iff.mp hc with ⟨entry, hentry, rfl⟩ | ⟨fallback, -, rfl⟩
  · exact h entry hentry
  · exact isLasting_decimal (isInt64_fallbackRawValue d)

end

/-! ## The union that is read -/

def unionRead (usualFallback : String) (ctx : TypeContext) (cs : List TaggedCase)
    (raws : List String) : UnionDef where
  direction := ctx.direction
  doc := joinDocs ctx.decl.docs
  discriminator := none
  unknownHandling := sentinelHandling ctx usualFallback
  variants := .ofList ((cs.zip raws).map fun entry =>
    (entry.1.name, numberedVariant ctx usualFallback entry.1.enumCase entry.2))

theorem rawKindOf?_numberedVariant {usualFallback : String} {ctx : TypeContext} {c : TaggedCase}
    (hc : isSentinel ctx usualFallback c.enumCase = false) {read : String} :
    UnionDef.rawKindOf? (numberedVariant ctx usualFallback c.enumCase read) =
      RawKind.ofTag? read := by
  rw [numberedVariant, hc]
  rfl

section

variable {usualFallback : String} {ctx : TypeContext} {d : UnionDef} {raws : List String}
  (hraws : List.Forall₂ IsReadAs (taggedCases d) raws)

include hraws

/-- There is a variant for each case that is read. -/
theorem mem_unionRead_iff {entry : String × VariantDef} :
    entry ∈ (unionRead usualFallback ctx (taggedCases d) raws).variants.entries ↔
      ∃ pair ∈ (taggedCases d).zip raws,
        (pair.1.name, numberedVariant ctx usualFallback pair.1.enumCase pair.2) = entry := by
  have hnames := nodup_names_taggedCases (d := d)
  rw [← List.map_fst_zip hraws.length_eq.le, List.map_map] at hnames
  refine NameMap.get?_eq_some_iff.symm.trans ((NameMap.get?_ofList ?_).trans List.mem_map)
  rwa [List.map_map]

theorem contains_unionRead {name : String} :
    (unionRead usualFallback ctx (taggedCases d) raws).variants.contains name = true ↔
      name ∈ (taggedCases d).map TaggedCase.name := by
  rw [unionRead, NameMap.contains_ofList, List.map_map]
  conv_rhs => rw [← List.map_fst_zip hraws.length_eq.le, List.map_map]
  rfl

end

/-- The declaration is the one that is generated for a union of numbers. -/
structure IsNumberedContext (name : String) (d : UnionDef) (raw : RawKind) (ctx : TypeContext) :
    Prop where
  header : HasHeader ctx (typeHeader (docTexts d.doc) .enum name
    (.primitive (rawPrimitive raw) :: conformances d.direction))
  outline : outline ctx.decl.members = numberedOutline d raw
  alone : ctx.extensions = []

/-- The union has the names, tags and kind of numbers of another one. -/
structure KeepsNumbers (d back : UnionDef) : Prop where
  discriminator : back.discriminator = none
  names : ∀ name, back.variants.contains name = d.variants.contains name
  tags : ∀ entry ∈ numberedVariants d,
    (back.variants.get? entry.1).bind VariantDef.tag = entry.2.tag
  kind : back.rawValueType = d.rawValueType

namespace IsNumberedContext

variable {usualFallback name : String} {d : UnionDef} {raw : RawKind} {ctx : TypeContext}
  (h : IsNumberedContext name d raw ctx)

include h

theorem lowerType_eq :
    lowerType usualFallback ctx = some (lowerNumberedEnum usualFallback ctx) := by
  have hinherited : ctx.decl.inherited =
      (.primitive (rawPrimitive raw) :: conformances d.direction).map typeText :=
    congrArg TypeHeader.inherited h.header
  have hread : readType (typeText (.primitive (rawPrimitive raw))) =
      .ok (.primitive (rawPrimitive raw)) := readType_typeText trivial
  refine lowerType_numberedEnum (congrArg TypeHeader.kind h.header :)
    (congrArg TypeHeader.isGeneric h.header :) (by rw [hinherited]; rfl) ?_ usualFallback
  cases raw with
  | int => exact .inl hread
  | float => exact .inr hread

/-- Exactly the enums with a fallback have a decoder, if values are decoded. -/
theorem isSome_decoder? :
    ctx.decoder?.isSome = (d.fallbackVariant.isSome && d.direction.allowsDecode) := by
  rw [TypeContext.isSome_decoder?, functions_outline h.alone, h.outline]
  show (functionOf (fallbackFunctions d.direction (rawTypeName raw) d.fallbackVariant) _ _).isSome = _
  unfold fallbackFunctions
  cases d.fallbackVariant with
  | none => rfl
  | some fallback => cases d.direction.allowsDecode <;> rfl

/-- No variant with a tag of its own is taken for the fallback. -/
theorem isSentinel_taggedVariant (husual : ∀ fallback ∈ d.fallbackVariant, fallback = usualFallback)
    {entry : String × VariantDef} (hentry : entry ∈ numberedVariants d) :
    isSentinel ctx usualFallback (taggedVariant entry).enumCase = false := by
  have hown : d.isFallback entry.1 = false := by simpa using (List.mem_filter.mp hentry).2
  rw [isSentinel, h.isSome_decoder?]
  cases hfallback : d.fallbackVariant with
  | none => simp
  | some fallback =>
    have hne : entry.1 ≠ usualFallback := by
      rintro hsame
      rw [UnionDef.isFallback, hfallback, husual fallback hfallback, hsame, beq_self_eq_true] at hown
      cases hown
    have hname : (taggedVariant entry).enumCase.name = entry.1 := rfl
    rw [hname, beq_false_of_ne hne, Bool.false_and]

/-- The cases are lowered as they are written. -/
theorem lowerNumberedEnum_eq :
    lowerNumberedEnum usualFallback ctx = (do
      let numbered ← numberCases (some 0) ((taggedCases d).map TaggedCase.enumCase)
      return .union
        { direction := ctx.direction, doc := joinDocs ctx.decl.docs, discriminator := none
          unknownHandling := sentinelHandling ctx usualFallback
          variants := .ofList (numbered.map fun entry =>
            (entry.1.name, numberedVariant ctx usualFallback entry.1 entry.2)) }) := by
  have hcases : (casesOf ctx.decl.members).map EnumCase.unplaced =
      (taggedCases d).map TaggedCase.enumCase := congrArg Outline.cases h.outline
  rw [Extraction.lowerNumberedEnum_eq, hcases]

theorem lowerNumberedEnum_of_isReadAs {raws : List String}
    (hraws : List.Forall₂ IsReadAs (taggedCases d) raws) :
    lowerNumberedEnum usualFallback ctx =
      pure (.union (unionRead usualFallback ctx (taggedCases d) raws)) := by
  have hvariants : (((taggedCases d).map TaggedCase.enumCase).zip raws).map (fun entry =>
      (entry.1.name, numberedVariant ctx usualFallback entry.1 entry.2)) =
        ((taggedCases d).zip raws).map fun entry =>
          (entry.1.name, numberedVariant ctx usualFallback entry.1.enumCase entry.2) := by
    rw [List.zip_map_left, List.map_map]
    rfl
  rw [h.lowerNumberedEnum_eq, (isNumbering_iff_forall₂.mpr hraws).numberCases_eq, unionRead,
    ← hvariants]
  rfl

/-- Only such a union is read. -/
theorem exists_raws {definition : TypeDef}
    (hlower : (lowerNumberedEnum usualFallback ctx).result = .ok definition) :
    ∃ raws, List.Forall₂ IsReadAs (taggedCases d) raws ∧
      definition = .union (unionRead usualFallback ctx (taggedCases d) raws) := by
  have hlowered := hlower
  rw [h.lowerNumberedEnum_eq] at hlower
  obtain ⟨numbered, hnumbered, -⟩ := Logged.result_bind_eq_ok_iff.mp hlower
  obtain ⟨raws, hnumbering, -⟩ := exists_isNumbering hnumbered
  have hraws := isNumbering_iff_forall₂.mp hnumbering
  rw [h.lowerNumberedEnum_of_isReadAs hraws] at hlowered
  cases hlowered
  exact ⟨raws, hraws, rfl⟩

/-- The case that absorbs unknown values is the fallback of the union. -/
theorem isFallback_unionRead {raws : List String} {c : TaggedCase} (hc : c ∈ taggedCases d) :
    (unionRead usualFallback ctx (taggedCases d) raws).isFallback c.name =
      isSentinel ctx usualFallback c.enumCase := by
  have hcases : (casesOf ctx.decl.members).any (isSentinel ctx usualFallback) =
      (taggedCases d).any fun c => isSentinel ctx usualFallback c.enumCase := by
    have hunplaced : (casesOf ctx.decl.members).map EnumCase.unplaced =
        (taggedCases d).map TaggedCase.enumCase := congrArg Outline.cases h.outline
    have hany := congrArg (List.any · (isSentinel ctx usualFallback)) hunplaced
    rwa [List.any_map, List.any_map] at hany
  rw [UnionDef.isFallback, UnionDef.fallbackVariant, unionRead, sentinelHandling, hcases]
  by_cases hany : ((taggedCases d).any fun c => isSentinel ctx usualFallback c.enumCase) = true
  · obtain ⟨sentinel, -, hsentinel⟩ := List.any_eq_true.mp hany
    rw [isSentinel, Bool.and_eq_true] at hsentinel
    rw [if_pos hany, isSentinel, hsentinel.2, Bool.and_true]
    show (some usualFallback == some c.name) = (c.name == usualFallback)
    rw [Option.some_beq_some, Bool.beq_comm]
  · rw [if_neg hany]
    have hnone := List.any_eq_false.mp (Bool.not_eq_true _ ▸ hany) c hc
    rw [Bool.not_eq_true] at hnone
    rw [hnone]
    rfl

variable (hraw : d.rawValueType = some raw)
  (husual : ∀ fallback ∈ d.fallbackVariant, fallback = usualFallback)

include hraw husual

/-- The kind of the numbers is kept, also if the fallback is read as a case like the others. -/
theorem rawValueType_unionRead (hlast : TagsLast d) :
    (unionRead usualFallback ctx (taggedCases d)
      ((taggedCases d).map TaggedCase.tag)).rawValueType = some raw := by
  generalize hback : unionRead usualFallback ctx (taggedCases d)
    ((taggedCases d).map TaggedCase.tag) = back
  have hentries {entry : String × VariantDef} : entry ∈ back.variants.entries ↔
      ∃ c ∈ taggedCases d, (c.name, numberedVariant ctx usualFallback c.enumCase c.tag) = entry := by
    rw [← hback, mem_unionRead_iff (forall₂_isReadAs_tags hraw hlast),
      ← List.map_prod_left_eq_zip]
    simp
  have hsentinel {c : TaggedCase} (hc : c ∈ taggedCases d) :
      back.isFallback c.name = isSentinel ctx usualFallback c.enumCase := by
    rw [← hback, h.isFallback_unionRead hc]
  have hcovered := (UnionDef.rawValueType_eq_some_iff.mp hraw).2
  refine UnionDef.rawValueType_eq_some_iff.mpr ⟨by rw [← hback]; rfl,
    UnionDef.coveringKind?_of_subset hcovered (List.forall_mem_map.mpr fun entry hentry => ?_)
      (List.forall_mem_map.mpr fun found hfound => ?_)⟩
  · have hc := mem_taggedCases_iff.mpr (.inl ⟨entry, hentry, rfl⟩)
    have hown := h.isSentinel_taggedVariant husual hentry
    rw [(rawKindOf?_of_mem_numberedVariants hraw hentry).2, ← rawKindOf?_numberedVariant hown]
    exact List.mem_map.mpr ⟨_, List.mem_filter.mpr ⟨hentries.mpr ⟨_, hc, rfl⟩,
      by rw [hsentinel hc, hown, Bool.not_false]⟩, rfl⟩
  · -- a fallback that is only encoded is read as one more case, whose number is an integer
    obtain ⟨hmem, hfallback⟩ := List.mem_filter.mp hfound
    obtain ⟨c, hc, rfl⟩ := hentries.mp hmem
    rw [hsentinel hc, Bool.not_eq_true'] at hfallback
    rw [rawKindOf?_numberedVariant hfallback]
    rcases mem_taggedCases_iff.mp hc with ⟨entry, hentry, rfl⟩ | ⟨fallback, -, rfl⟩
    · exact .inl (List.mem_map.mpr
        ⟨entry, hentry, (rawKindOf?_of_mem_numberedVariants hraw hentry).2⟩)
    · exact .inr (RawKind.ofTag?_eq_int_iff.mpr (isIntTag_taggedFallback d fallback))

omit hraw in
/-- A variant with a tag of its own has what is read for its tag. -/
theorem exists_tag_unionRead {raws : List String}
    (hraws : List.Forall₂ IsReadAs (taggedCases d) raws) {entry : String × VariantDef}
    (hentry : entry ∈ numberedVariants d) :
    ∃ read, IsReadAs (taggedVariant entry) read ∧
      ((unionRead usualFallback ctx (taggedCases d) raws).variants.get? entry.1).bind
        VariantDef.tag = some read := by
  have hc : taggedVariant entry ∈ ((taggedCases d).zip raws).map Prod.fst := by
    rw [List.map_fst_zip hraws.length_eq.le]
    exact mem_taggedCases_iff.mpr (.inl ⟨entry, hentry, rfl⟩)
  obtain ⟨⟨_, read⟩, hpair, rfl⟩ := List.mem_map.mp hc
  have hget : (unionRead usualFallback ctx (taggedCases d) raws).variants.get? entry.1 =
      some (numberedVariant ctx usualFallback (taggedVariant entry).enumCase read) :=
    NameMap.get?_eq_some_iff.mpr ((mem_unionRead_iff hraws).mpr ⟨_, hpair, rfl⟩)
  refine ⟨read, List.forall₂_zip hraws hpair, ?_⟩
  rw [hget, Option.bind_some, numberedVariant, h.isSentinel_taggedVariant husual hentry]
  rfl

/-- All is kept if the tags last. -/
theorem exists_keepsNumbers (haccepted : UnionAccepted d) (hlast : TagsLast d) :
    ∃ back, lowerType usualFallback ctx = some (pure (.union back)) ∧ KeepsNumbers d back := by
  have hraws := forall₂_isReadAs_tags hraw hlast
  refine ⟨_, by rw [h.lowerType_eq, h.lowerNumberedEnum_of_isReadAs hraws], rfl, fun name => ?_,
    fun entry hentry => ?_, (h.rawValueType_unionRead hraw husual hlast).trans hraw.symm⟩
  · exact Bool.eq_iff_iff.mpr
      ((contains_unionRead hraws).trans (mem_names_taggedCases_iff haccepted))
  · obtain ⟨read, hread, htag⟩ := h.exists_tag_unionRead husual hraws hentry
    have hself := (isReadAs_self_iff hraw (mem_taggedCases_iff.mpr (.inl ⟨entry, hentry, rfl⟩))).mpr
      (hlast entry hentry)
    rw [htag, (rawKindOf?_of_mem_numberedVariants hraw hentry).1]
    exact hread.symm.trans hself

/-- If the tags are kept, they last. -/
theorem tagsLast_of_keepsNumbers {lowered : Lowering TypeDef} {back : UnionDef}
    (hlower : lowerType usualFallback ctx = some lowered)
    (hback : lowered.result = .ok (.union back)) (hkept : KeepsNumbers d back) : TagsLast d := by
  intro entry hentry
  rw [h.lowerType_eq] at hlower
  cases hlower
  obtain ⟨raws, hraws, hunion⟩ := h.exists_raws hback
  cases hunion
  obtain ⟨read, hread, htag⟩ := h.exists_tag_unionRead husual hraws hentry
  have hsame := hkept.tags entry hentry
  rw [htag, (rawKindOf?_of_mem_numberedVariants hraw hentry).1] at hsame
  refine (isReadAs_self_iff hraw (mem_taggedCases_iff.mpr (.inl ⟨entry, hentry, rfl⟩))).mp ?_
  exact hread.trans hsame

end IsNumberedContext

end WireSchema.Extraction
