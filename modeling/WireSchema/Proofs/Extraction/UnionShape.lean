import WireSchema.Proofs.Extraction.EncodeEvidence
import WireSchema.Proofs.Extraction.TagRecovery
import WireSchema.Proofs.Generation.CodingKeys
import WireSchema.Proofs.Generation.Parses

/-!
# The shape of a generated union

What the initializer and the encoder of a generated union show is put together to the
discriminator and the tags that the code was generated from. The tags come from either,
the style from the payloads of one value that either shows.
-/

namespace WireSchema.Extraction

open Generation Swift

/-! ## Tags -/

/-- Pairs of which neither part is in two different ones. -/
def IsMatching (pairs : List (String × String)) : Prop :=
  ∀ a ∈ pairs, ∀ b ∈ pairs, a.1 = b.1 ↔ a.2 = b.2

/-- Claims that do not exclude each other are all kept. -/
theorem get?_claimTags {cases : List String} {pairs claims : List (String × String)}
    (hmatching : IsMatching pairs) (hcases : ∀ pair ∈ pairs, pair.2 ∈ cases)
    (hclaims : ∀ claim ∈ claims, claim ∈ pairs) (name tag : String) :
    (claimTags cases claims).get? name = some tag ↔ (tag, name) ∈ claims := by
  have hsettled := settled_claimTags cases claims
  have hpair {case_ tag : String} (hget : (claimTags cases claims).get? case_ = some tag) :
      (tag, case_) ∈ pairs := hclaims _ (hsettled.claimed hget)
  refine ⟨hsettled.claimed, fun hclaim => ?_⟩
  have hthis := hclaims _ hclaim
  -- what would pass the claim over is this very pair
  rcases hsettled.settled _ hclaim (hcases _ hthis) with ⟨other, hget⟩ | ⟨other, hget⟩
  · have htag : other = tag := (hmatching _ (hpair hget) _ hthis).mpr rfl
    exact htag ▸ hget
  · have hname : other = name := (hmatching _ (hpair hget) _ hthis).mp rfl
    exact hname ▸ hget

/-! ## Evidence of either direction -/

theorem Tells.of_iff {variants : List VariantForm} {shown shown' : VariantForm → Prop}
    {inline_ wrapped : VariantForm → Bool} {tags : List (String × String)}
    {inlineCases wrappedCases : NameSet}
    (h : Tells variants shown inline_ wrapped tags inlineCases wrappedCases)
    (hshown : ∀ variant, shown variant ↔ shown' variant) :
    Tells variants shown' inline_ wrapped tags inlineCases wrappedCases := by
  have hsame : shown = shown' := funext fun variant => propext (hshown variant)
  exact hsame ▸ h

/-- Without a body no variant is shown. -/
theorem tells_nothing (variants : List VariantForm) (inline_ wrapped : VariantForm → Bool) :
    Tells variants (fun _ => False) inline_ wrapped [] .empty .empty := by
  constructor <;> intro _ <;> simp [NameMap.contains, NameMap.empty]

def shownDecoding (name : String) (d : UnionDef) (variants : List VariantForm) : DecodeEvidence :=
  if d.direction.allowsDecode then decodeEvidence (placed (unionDecodeFaces name d variants))
  else .empty

def shownEncoding (d : UnionDef) (variants : List VariantForm) : EncodeEvidence :=
  if d.direction.allowsEncode then encodeEvidence (placed (unionEncodeFaces d variants))
  else .empty

section

variable {name : String} {d : UnionDef} {variants : List VariantForm}
  (h : IsWritableUnion name d variants)

include h

theorem tells_shownDecoding {disc : Discriminator} (hdisc : d.discriminator = some disc) :
    (shownDecoding name d variants).tagKey =
        (if d.direction.allowsDecode then some (tagKey disc) else none) ∧
      Tells variants (fun variant => d.direction.allowsDecode = true ∧ variant.name ≠ "case")
        (decodesInline disc.style) (decodesWrapped disc.style)
        (shownDecoding name d variants).tags (shownDecoding name d variants).inlineCases
        (shownDecoding name d variants).wrappedCases := by
  unfold shownDecoding unionDecodeFaces
  rw [hdisc]
  cases d.direction.allowsDecode with
  | false => exact ⟨rfl, (tells_nothing variants _ _).of_iff (by simp)⟩
  | true =>
    obtain ⟨hkey, htells⟩ := decodeEvidence_tagged disc h.fallback h.variants rfl
    exact ⟨hkey, htells.of_iff (by simp)⟩

theorem tells_shownEncoding {disc : Discriminator} (hdisc : d.discriminator = some disc) :
    (shownEncoding d variants).tagKey =
        (if d.direction.allowsEncode && variants.any fun variant => !variant.isFallback then
          some (tagKey disc) else none) ∧
      Tells variants (fun _ => d.direction.allowsEncode = true) (encodesInline disc)
        (encodesWrapped disc) (shownEncoding d variants).tags
        (shownEncoding d variants).inlineCases (shownEncoding d variants).wrappedCases := by
  unfold shownEncoding unionEncodeFaces
  rw [hdisc]
  cases d.direction.allowsEncode with
  | false => exact ⟨rfl, (tells_nothing variants _ _).of_iff (by simp)⟩
  | true =>
    obtain ⟨hkey, htells⟩ := encodeEvidence_tagged h.variants rfl
    exact ⟨hkey, htells.of_iff (by simp)⟩

theorem tagKey_shownDecoding_untagged (hdisc : d.discriminator = none) :
    (shownDecoding name d variants).tagKey = none := by
  unfold shownDecoding
  split
  · exact decodeEvidence_untagged name hdisc h.variants h.fallback
  · rfl

theorem tagKey_shownEncoding_untagged (hdisc : d.discriminator = none) :
    (shownEncoding d variants).tagKey = none := by
  unfold shownEncoding unionEncodeFaces
  rw [hdisc]
  split
  · exact encodeEvidence_untagged fun variant hvariant => (h.variants variant hvariant).name
  · rfl

/-- The key of the tag is shown if there is any variant with a tag to it. -/
theorem tagKey_shown {disc : Discriminator} (hdisc : d.discriminator = some disc)
    (hsome : ∃ variant ∈ variants, variant.isFallback = false) :
    (shownDecoding name d variants).tagKey.or (shownEncoding d variants).tagKey =
      some (tagKey disc) := by
  have hany : (variants.any fun variant => !variant.isFallback) = true := by
    obtain ⟨variant, hvariant, hkept⟩ := hsome
    exact List.any_eq_true.mpr ⟨variant, hvariant, by simp [hkept]⟩
  rw [(tells_shownDecoding h hdisc).1, (tells_shownEncoding h hdisc).1, hany]
  cases d.direction <;> rfl

/-- Claims are made for the variants of which either body tells. -/
theorem mem_shownTags {disc : Discriminator} (hdisc : d.discriminator = some disc)
    (claim : String × String) :
    claim ∈ (shownDecoding name d variants).tags ++ (shownEncoding d variants).tags ↔
      ∃ variant ∈ variants, variant.isFallback = false ∧
        (d.direction.allowsEncode = true ∨ variant.name ≠ "case") ∧
        claim = (variant.tag, variant.name) := by
  have hdirection : d.direction.allowsEncode = false → d.direction.allowsDecode = true := by
    cases d.direction <;> simp [Direction.allowsEncode, Direction.allowsDecode]
  rw [List.mem_append, (tells_shownDecoding h hdisc).2.tags, (tells_shownEncoding h hdisc).2.tags]
  constructor
  · rintro (⟨variant, hvariant, hkept, ⟨-, hname⟩, rfl⟩ | ⟨variant, hvariant, hkept, hencodes, rfl⟩)
    · exact ⟨variant, hvariant, hkept, .inr hname, rfl⟩
    · exact ⟨variant, hvariant, hkept, .inl hencodes, rfl⟩
  · rintro ⟨variant, hvariant, hkept, hshown, rfl⟩
    cases hencodes : d.direction.allowsEncode with
    | true => exact .inr ⟨variant, hvariant, hkept, rfl, rfl⟩
    | false =>
      rw [hencodes] at hshown
      have hname := hshown.resolve_left (by simp)
      exact .inl ⟨variant, hvariant, hkept, ⟨hdirection hencodes, hname⟩, rfl⟩

end

/-! ## What code tells of a definition -/

/-- Is a payload that lies under a key of its own seen to lie there? An encoder shows only one
that is always there, and an initializer only one whose type does not mislead. -/
def showsKey (direction : Direction) (name : String) : VariantPayload → Bool
  | .wrapped type =>
    direction.allowsDecode && name != "case" && !decide (NamesDecoder (denoted type)) ||
      direction.allowsEncode && !(denoted type).isOptional
  | _ => false

/-- Is a payload that lies under a key of its own taken for the whole value? -/
def showsWhole (direction : Direction) (name : String) : VariantPayload → Bool
  | .wrapped type => direction.allowsDecode && name != "case" && decide (NamesDecoder (denoted type))
  | _ => false

def shownTag? (d : UnionDef) (entry : String × VariantDef) : Option String :=
  if !d.isFallback entry.1 && (d.direction.allowsEncode || entry.1 != "case") then
    some (entry.2.wireTag entry.1)
  else none

def shownStyle (d : UnionDef) : DiscriminatorStyle → DiscriminatorStyle
  | .inline => .inline
  | .wrapped =>
    if (d.variants.entries.any fun entry => showsKey d.direction entry.1 entry.2.payload) &&
        !(d.variants.entries.any fun entry => showsWhole d.direction entry.1 entry.2.payload) then
      .wrapped
    else .inline

theorem showsKey_iff {direction : Direction} {name : String} {payload : VariantPayload} :
    showsKey direction name payload = true ↔ ∃ type, payload = .wrapped type ∧
      ((direction.allowsDecode = true ∧ name ≠ "case") ∧ ¬ NamesDecoder (denoted type) ∨
        direction.allowsEncode = true ∧ (denoted type).isOptional = false) := by
  cases payload <;> simp [showsKey]

theorem showsWhole_iff {direction : Direction} {name : String} {payload : VariantPayload} :
    showsWhole direction name payload = true ↔ ∃ type, payload = .wrapped type ∧
      (direction.allowsDecode = true ∧ name ≠ "case") ∧ NamesDecoder (denoted type) := by
  cases payload <;> simp [showsWhole]

theorem mem_unionForms {namer : Namer} {d : UnionDef} {variant : VariantForm} :
    variant ∈ namer.unionForms d ↔
      ∃ entry ∈ d.variants.entries, namer.variantForm d entry = variant := by
  simp only [Namer.unionForms, List.mem_map, mem_orderedVariants]

def wireTags (d : UnionDef) : List (String × String) :=
  (d.variants.entries.filter fun entry => !d.isFallback entry.1).map fun entry =>
    (entry.2.wireTag entry.1, entry.1)

theorem mem_wireTags {d : UnionDef} {pair : String × String} :
    pair ∈ wireTags d ↔ ∃ entry ∈ d.variants.entries, d.isFallback entry.1 = false ∧
      (entry.2.wireTag entry.1, entry.1) = pair := by
  simp [wireTags, and_assoc]

theorem mem_names_of_mem_wireTags {d : UnionDef} :
    ∀ pair ∈ wireTags d, pair.2 ∈ d.variants.names := by
  intro pair hpair
  obtain ⟨entry, hentry, -, rfl⟩ := mem_wireTags.mp hpair
  exact List.mem_map_of_mem hentry

/-- A discriminator tells the variants apart. -/
theorem isMatching_wireTags {d : UnionDef} {disc : Discriminator}
    (haccepted : Verification.UnionAccepted d) (hdisc : d.discriminator = some disc) :
    IsMatching (wireTags d) := by
  have htagged : ∀ entry ∈ d.variants.entries, d.isFallback entry.1 = false →
      entry ∈ d.variants.entries.filter fun entry => Verification.isTagged d entry.1 entry.2 := by
    intro entry hentry hkept
    exact List.mem_filter.mpr ⟨hentry, by simp [Verification.isTagged, hdisc, hkept]⟩
  intro a ha b hb
  obtain ⟨first, hfirst, hkept, rfl⟩ := mem_wireTags.mp ha
  obtain ⟨second, hsecond, hkept', rfl⟩ := mem_wireTags.mp hb
  constructor
  · intro htag
    rw [List.inj_on_of_nodup_map haccepted.variants.distinctTags (htagged first hfirst hkept)
      (htagged second hsecond hkept') htag]
  · intro hname
    rw [NameMap.eq_of_name_eq hfirst hsecond hname]

section

variable {name : String} {namer : Namer} {d : UnionDef} {disc : Discriminator}
  (h : IsWritableUnion name d (namer.unionForms d)) (haccepted : Verification.UnionAccepted d)
  (hdisc : d.discriminator = some disc)

include h haccepted hdisc

/-- Each variant of which code tells has the tag that it was generated with. -/
theorem get?_shownTags {entry : String × VariantDef} (hentry : entry ∈ d.variants.entries) :
    (claimTags d.variants.names ((shownDecoding name d (namer.unionForms d)).tags ++
      (shownEncoding d (namer.unionForms d)).tags)).get? entry.1 = shownTag? d entry := by
  have hclaims : ∀ claim ∈ (shownDecoding name d (namer.unionForms d)).tags ++
      (shownEncoding d (namer.unionForms d)).tags, claim ∈ wireTags d := by
    intro claim hclaim
    obtain ⟨variant, hvariant, hkept, -, rfl⟩ := (mem_shownTags h hdisc claim).mp hclaim
    obtain ⟨other, hother, rfl⟩ := mem_unionForms.mp hvariant
    exact mem_wireTags.mpr ⟨other, hother, hkept, rfl⟩
  refine Option.ext fun tag => ?_
  rw [get?_claimTags (isMatching_wireTags haccepted hdisc) mem_names_of_mem_wireTags hclaims,
    mem_shownTags h hdisc, shownTag?]
  constructor
  · rintro ⟨variant, hvariant, hkept, hshown, hclaim⟩
    obtain ⟨other, hother, rfl⟩ := mem_unionForms.mp hvariant
    have hsame := NameMap.eq_of_name_eq hentry hother (congrArg Prod.snd hclaim)
    subst hsame
    have hkept : d.isFallback entry.1 = false := hkept
    have hshown : d.direction.allowsEncode = true ∨ entry.1 ≠ "case" := hshown
    have htag : tag = entry.2.wireTag entry.1 := congrArg Prod.fst hclaim
    rw [hkept, htag, if_pos (by simpa using hshown)]
  · intro htag
    split at htag
    · next hshown =>
      obtain ⟨hkept, hshown⟩ := (Bool.and_eq_true _ _).mp hshown
      have hkept : d.isFallback entry.1 = false := by simpa using hkept
      have hshown : d.direction.allowsEncode = true ∨ entry.1 ≠ "case" := by simpa using hshown
      refine ⟨namer.variantForm d entry, mem_unionForms.mpr ⟨entry, hentry, rfl⟩, hkept,
        hshown, ?_⟩
      rw [← Option.some.inj htag]
      rfl
    · cases htag

end

/-! ## Where payloads lie -/

/-- The names in a set are those of the variants that carry one value. -/
def ArePayloadCases (d : UnionDef) (payloadCases : NameSet) : Prop :=
  ∀ name, payloadCases.contains name = true ↔
    ∃ entry ∈ d.variants.entries, entry.1 = name ∧ ∃ type, entry.2.payload = .wrapped type

theorem anyIn_iff {set names : NameSet} :
    anyIn set names = true ↔ ∃ name, set.contains name = true ∧ names.contains name = true := by
  rw [anyIn, List.any_eq_true]
  constructor
  · rintro ⟨name, hname, hset⟩
    exact ⟨name, hset, NameMap.contains_iff_mem_names.mpr hname⟩
  · rintro ⟨name, hset, hname⟩
    exact ⟨name, NameMap.contains_iff_mem_names.mp hname, hset⟩

section

variable {name : String} {namer : Namer} {d : UnionDef} {disc : Discriminator}
  (haccepted : Verification.UnionAccepted d)

include haccepted

theorem isFallback_of_payload {entry : String × VariantDef} (hentry : entry ∈ d.variants.entries)
    (hpayload : entry.2.payload ≠ .unit) : d.isFallback entry.1 = false := by
  refine Bool.eq_false_iff.mpr fun hfallback => ?_
  obtain ⟨variant, hvariant, hunit⟩ := haccepted.fallback entry.1 (beq_iff_eq.mp hfallback)
  cases (NameMap.get?_eq_some hentry).symm.trans hvariant
  exact hpayload (beq_iff_eq.mp hunit)

theorem isFallback_of_wrapped {entry : String × VariantDef} (hentry : entry ∈ d.variants.entries)
    {type : String} (htype : entry.2.payload = .wrapped type) : d.isFallback entry.1 = false :=
  isFallback_of_payload haccepted hentry (by simp [htype])

theorem payload_of_wrapped (hlead : namer.lead = "") {entry : String × VariantDef}
    (hentry : entry ∈ d.variants.entries) {type : String} (htype : entry.2.payload = .wrapped type) :
    (namer.variantForm d entry).payload = .wrapped (denoted type) := by
  have htyped : DenotesType type := by
    have hpayload := haccepted.variants.payloads entry hentry
    rwa [htype] at hpayload
  rw [Namer.variantForm, htype, Namer.payloadForm,
    TypeExpr.rename_eq_self (Namer.reference_of_lead hlead) (wellFormed_denoted htyped)]

/-- Evidence is counted for variants that carry one value. -/
theorem anyIn_shown {payloadCases set : NameSet} (hcases : ArePayloadCases d payloadCases)
    {shown : VariantForm → Prop} {p : VariantForm → Bool}
    (hset : ∀ name, set.contains name = true ↔ ∃ variant ∈ namer.unionForms d,
      variant.isFallback = false ∧ shown variant ∧ variant.name = name ∧ p variant = true) :
    anyIn payloadCases set = true ↔ ∃ entry ∈ d.variants.entries, ∃ type,
      entry.2.payload = .wrapped type ∧ shown (namer.variantForm d entry) ∧
        p (namer.variantForm d entry) = true := by
  rw [anyIn_iff]
  constructor
  · rintro ⟨name, hcase, hmem⟩
    obtain ⟨entry, hentry, rfl, type, htype⟩ := (hcases name).mp hcase
    obtain ⟨variant, hvariant, -, hshown, hname, hp⟩ := (hset _).mp hmem
    obtain ⟨other, hother, rfl⟩ := mem_unionForms.mp hvariant
    cases NameMap.eq_of_name_eq hother hentry hname
    exact ⟨entry, hentry, type, htype, hshown, hp⟩
  · rintro ⟨entry, hentry, type, htype, hshown, hp⟩
    refine ⟨entry.1, (hcases _).mpr ⟨entry, hentry, rfl, type, htype⟩, (hset _).mpr ?_⟩
    exact ⟨_, mem_unionForms.mpr ⟨entry, hentry, rfl⟩, isFallback_of_wrapped haccepted hentry htype,
      hshown, rfl, hp⟩

section

variable (hlead : namer.lead = "") (h : IsWritableUnion name d (namer.unionForms d))
  (hdisc : d.discriminator = some disc) {payloadCases : NameSet}
  (hcases : ArePayloadCases d payloadCases)

include hlead h hdisc hcases

/-- Payloads next to the tag are not taken for ones under keys. -/
theorem anyIn_wrappedCases_inline (hstyle : disc.style = .inline) :
    (anyIn payloadCases (shownDecoding name d (namer.unionForms d)).wrappedCases ||
      anyIn payloadCases (shownEncoding d (namer.unionForms d)).wrappedCases) = false := by
  have hdecoding := (tells_shownDecoding h hdisc).2.wrappedCases
  have hencoding := (tells_shownEncoding h hdisc).2.wrappedCases
  refine Bool.or_eq_false_iff.mpr ⟨Bool.eq_false_iff.mpr fun hany => ?_,
    Bool.eq_false_iff.mpr fun hany => ?_⟩
  · obtain ⟨entry, hentry, type, htype, -, hp⟩ := (anyIn_shown haccepted hcases hdecoding).mp hany
    rw [hstyle, decodesWrapped_inline (payload_of_wrapped haccepted hlead hentry htype)] at hp
    cases hp
  · obtain ⟨entry, hentry, type, htype, -, hp⟩ := (anyIn_shown haccepted hcases hencoding).mp hany
    rw [encodesWrapped_inline (isFallback_of_wrapped haccepted hentry htype)
      (payload_of_wrapped haccepted hlead hentry htype) hstyle] at hp
    cases hp

theorem anyIn_wrappedCases (hstyle : disc.style = .wrapped) :
    (anyIn payloadCases (shownDecoding name d (namer.unionForms d)).wrappedCases ||
      anyIn payloadCases (shownEncoding d (namer.unionForms d)).wrappedCases) =
      d.variants.entries.any fun entry => showsKey d.direction entry.1 entry.2.payload := by
  have hdecoding := (tells_shownDecoding h hdisc).2.wrappedCases
  have hencoding := (tells_shownEncoding h hdisc).2.wrappedCases
  have hdecodes : ∀ entry ∈ d.variants.entries, ∀ type, entry.2.payload = .wrapped type →
      decodesWrapped disc.style (namer.variantForm d entry) =
        !decide (NamesDecoder (denoted type)) := by
    intro entry hentry type htype
    rw [hstyle, decodesWrapped_wrapped (haccepted.variants.identifiers entry hentry)
      (payload_of_wrapped haccepted hlead hentry htype)]
  have hencodes : ∀ entry ∈ d.variants.entries, ∀ type, entry.2.payload = .wrapped type →
      encodesWrapped disc (namer.variantForm d entry) = !(denoted type).isOptional :=
    fun entry hentry type htype => encodesWrapped_wrapped
      (isFallback_of_wrapped haccepted hentry htype)
      (payload_of_wrapped haccepted hlead hentry htype) hstyle
  rw [Bool.eq_iff_iff, Bool.or_eq_true, anyIn_shown haccepted hcases hdecoding,
    anyIn_shown haccepted hcases hencoding, List.any_eq_true]
  constructor
  · rintro (⟨entry, hentry, type, htype, hshown, hp⟩ | ⟨entry, hentry, type, htype, hshown, hp⟩)
    · rw [hdecodes entry hentry type htype] at hp
      exact ⟨entry, hentry, showsKey_iff.mpr ⟨type, htype, .inl ⟨hshown, by simpa using hp⟩⟩⟩
    · rw [hencodes entry hentry type htype] at hp
      exact ⟨entry, hentry, showsKey_iff.mpr ⟨type, htype, .inr ⟨hshown, by simpa using hp⟩⟩⟩
  · rintro ⟨entry, hentry, hshows⟩
    obtain ⟨type, htype, ⟨hshown, hp⟩ | ⟨hshown, hp⟩⟩ := showsKey_iff.mp hshows
    · refine .inl ⟨entry, hentry, type, htype, hshown, ?_⟩
      rw [hdecodes entry hentry type htype]
      simpa using hp
    · refine .inr ⟨entry, hentry, type, htype, hshown, ?_⟩
      rw [hencodes entry hentry type htype, hp]
      rfl

theorem anyIn_inlineCases (hstyle : disc.style = .wrapped) :
    (anyIn payloadCases (shownDecoding name d (namer.unionForms d)).inlineCases ||
      anyIn payloadCases (shownEncoding d (namer.unionForms d)).inlineCases) =
      d.variants.entries.any fun entry => showsWhole d.direction entry.1 entry.2.payload := by
  have hdecoding := (tells_shownDecoding h hdisc).2.inlineCases
  have hencoding := (tells_shownEncoding h hdisc).2.inlineCases
  have hdecodes : ∀ entry ∈ d.variants.entries, ∀ type, entry.2.payload = .wrapped type →
      decodesInline disc.style (namer.variantForm d entry) =
        decide (NamesDecoder (denoted type)) := by
    intro entry hentry type htype
    rw [hstyle, decodesInline_wrapped (haccepted.variants.identifiers entry hentry)
      (payload_of_wrapped haccepted hlead hentry htype)]
  rw [Bool.eq_iff_iff, Bool.or_eq_true, anyIn_shown haccepted hcases hdecoding,
    anyIn_shown haccepted hcases hencoding, List.any_eq_true]
  constructor
  · rintro (⟨entry, hentry, type, htype, hshown, hp⟩ | ⟨entry, hentry, type, htype, -, hp⟩)
    · rw [hdecodes entry hentry type htype] at hp
      exact ⟨entry, hentry, showsWhole_iff.mpr ⟨type, htype, hshown, by simpa using hp⟩⟩
    · rw [encodesInline_wrapped (isFallback_of_wrapped haccepted hentry htype)
        (payload_of_wrapped haccepted hlead hentry htype) hstyle] at hp
      cases hp
  · rintro ⟨entry, hentry, hshows⟩
    obtain ⟨type, htype, hshown, hp⟩ := showsWhole_iff.mp hshows
    refine .inl ⟨entry, hentry, type, htype, hshown, ?_⟩
    rw [hdecodes entry hentry type htype]
    simpa using hp

/-- The style that code shows, whatever it was generated with. -/
theorem payloadStyle_shown :
    payloadStyle payloadCases (shownDecoding name d (namer.unionForms d))
      (shownEncoding d (namer.unionForms d)) = shownStyle d disc.style := by
  unfold payloadStyle
  cases hstyle : disc.style with
  | inline =>
    have hkey := anyIn_wrappedCases_inline haccepted hlead h hdisc hcases hstyle
    simp only [hkey, Bool.false_and]
    rfl
  | wrapped =>
    have hkey := anyIn_wrappedCases haccepted hlead h hdisc hcases hstyle
    have hwhole := anyIn_inlineCases haccepted hlead h hdisc hcases hstyle
    simp only [hkey, hwhole]
    rfl

end

end

/-! ## Both together -/

/-- The evidence that a generated union holds. -/
structure IsEvidenceOf (name : String) (namer : Namer) (d : UnionDef) (union : UnionEvidence) :
    Prop where
  cases : union.cases = d.variants.names
  payloadCases : ArePayloadCases d union.payloadCases
  decoding : (union.decodeBody.map decodeEvidence).getD .empty =
    shownDecoding name d (namer.unionForms d)
  encoding : (union.encodeBody.map encodeEvidence).getD .empty =
    shownEncoding d (namer.unionForms d)
  tagKey : ∀ disc ∈ d.discriminator, union.codingKeys.get? (tagKey disc) = some disc.field

def shownDiscriminator (d : UnionDef) : Option Discriminator :=
  d.discriminator.map fun disc => ⟨disc.field, shownStyle d disc.style⟩

def extractedTag? (d : UnionDef) (entry : String × VariantDef) : Option String :=
  if d.discriminator.isSome then shownTag? d entry else none

section

variable {name : String} {namer : Namer} {d : UnionDef} {union : UnionEvidence}
  (hlead : namer.lead = "") (h : IsWritableUnion name d (namer.unionForms d))
  (haccepted : Verification.UnionAccepted d) (hevidence : IsEvidenceOf name namer d union)

include hlead h haccepted hevidence

/-- The shape of a generated union is told by its definition. -/
theorem unionShape_generated
    (htagged : d.discriminator.isSome = true → ∃ entry ∈ d.variants.entries,
      d.isFallback entry.1 = false) :
    (unionShape union).discriminator = shownDiscriminator d ∧
      ∀ entry ∈ d.variants.entries,
        (unionShape union).tags.get? entry.1 = extractedTag? d entry := by
  unfold shownDiscriminator extractedTag?
  rw [unionShape]
  dsimp only
  rw [hevidence.decoding, hevidence.encoding]
  cases hdisc : d.discriminator with
  | none =>
    rw [tagKey_shownDecoding_untagged h hdisc, tagKey_shownEncoding_untagged h hdisc]
    exact ⟨rfl, fun _ _ => rfl⟩
  | some disc =>
    obtain ⟨entry, hentry, hkept⟩ := htagged (by rw [hdisc]; rfl)
    have hkey := tagKey_shown h hdisc ⟨_, mem_unionForms.mpr ⟨entry, hentry, rfl⟩, hkept⟩
    rw [hkey]
    dsimp only
    rw [hevidence.cases, hevidence.tagKey disc (by rw [hdisc]; rfl),
      payloadStyle_shown haccepted hlead h hdisc hevidence.payloadCases]
    exact ⟨rfl, fun entry hentry => get?_shownTags h haccepted hdisc hentry⟩

end

end WireSchema.Extraction
