import Mathlib.Tactic.MkIffOfInductiveProp
import WireSchema.Proofs.Extraction.UnionContext
import WireSchema.Proofs.Extraction.UnionShape

/-!
# Unions read back

A generated union is lowered to a definition that has everything from the one it was
generated from, but for the tags and the place of payloads: of these it has what the
bodies of its functions show.
-/

namespace WireSchema

open Swift

/-! ## Variants -/

def VariantPayload.extracted : VariantPayload → VariantPayload
  | .unit => .unit
  | .wrapped type => .wrapped type
  | .inline fields => .inline (fields.mapValues fun _ => FieldDef.extracted)

def VariantDef.extracted (variant : VariantDef) : VariantDef :=
  { VariantDef.ofPayload variant.payload.extracted with doc := variant.doc }

namespace Extraction

open Generation Verification

section

variable {d : UnionDef} {disc : Discriminator}

/-- The key of the tag is the first of all, so no other one takes its place. -/
theorem get?_codingKeys_tag (d : UnionDef) (disc : Discriminator) :
    (NameMap.ofList (codingKeys d disc)).get? (tagKey disc) = some disc.field :=
  (NameMap.get?_ofList (nodup_firstKeys _ _)).mpr List.mem_cons_self

/-- The key of a field may be that of another field of its name, but this is the same. -/
theorem get?_codingKeys_field (haccepted : UnionAccepted d) {usualFallback : String}
    (h : d.IsPlain usualFallback) (hdisc : d.discriminator = some disc)
    {entry : String × VariantDef} (hentry : entry ∈ d.variants.entries)
    {fields : NameMap FieldDef} (hpayload : entry.2.payload = .inline fields)
    {field : String × FieldDef} (hfield : field ∈ fields.entries) :
    (NameMap.ofList (codingKeys d disc)).get? field.1 =
      some (field.2.effectiveWireName field.1) := by
  have hkept := isFallback_of_payload haccepted hentry (by simp [hpayload])
  have hmem : field ∈ d.payloadFields :=
    List.mem_flatMap.mpr ⟨entry, hentry, by rw [hpayload]; exact hfield⟩
  have hstyle : disc.style = .inline := by
    have hpayloadAccepted := haccepted.variants.payloads entry hentry
    rw [hpayload] at hpayloadAccepted
    obtain ⟨_, hinline, -, -⟩ := hpayloadAccepted
    rw [Option.some.inj (hdisc.symm.trans hinline)]
  have hneeded : (field.1, field.2.effectiveWireName field.1) ∈ neededKeys d disc :=
    mem_neededKeys_of_inline hentry hkept hpayload hfield
  obtain ⟨kept, hfirst, hname⟩ := exists_mem_firstKeys hneeded (List.not_mem_nil (a := field.1))
  have hwire : kept.2 = field.2.effectiveWireName field.1 := by
    rcases List.mem_cons.mp (mem_of_mem_firstKeys hfirst).1 with rfl | hpayloadKey
    · exact absurd hname.symm (h.tagAside disc (by rw [hdisc]; rfl) field hmem)
    · obtain ⟨other, hother, hkey⟩ := List.mem_flatMap.mp hpayloadKey
      unfold neededPayloadKeys at hkey
      split at hkey
      · cases hkey
      · split at hkey
        · next hwrapped =>
          rw [hstyle] at hwrapped
          cases hwrapped
        · next more hmore =>
          obtain ⟨same, hsame, rfl⟩ := List.mem_map.mp hkey
          have hsameMem : same ∈ d.payloadFields := List.mem_flatMap.mpr
            ⟨other, mem_orderedVariants.mp hother, by rw [hmore]; exact hsame⟩
          exact h.sameKeys same hsameMem field hmem hname
        · cases hkey
  refine (NameMap.get?_ofList (nodup_firstKeys _ _)).mpr ?_
  have hsame : kept = (field.1, field.2.effectiveWireName field.1) := Prod.ext hname hwire
  exact hsame ▸ hfirst

end

/-! ### Payloads -/

def KeysTellFields (keys : NameMap String) (payload : VariantPayload) : Prop :=
  ∀ field ∈ payload.fields, remappedKey? keys field.1 = field.2.wireName

theorem lowerLabeledValues_generated {keys : NameMap String} (caseName : String)
    {fields : List (String × FieldDef)}
    (hplain : ∀ field ∈ fields, field.2.IsLabeled field.1)
    (hkeys : ∀ field ∈ fields, remappedKey? keys field.1 = field.2.wireName) :
    lowerLabeledValues keys caseName (fields.map fun field =>
        ⟨some field.1, typeText field.2.codeType⟩) =
      pure (fields.map fun field => (field.1, field.2.extracted)) := by
  induction fields with
  | nil => rfl
  | cons field later ih =>
    have hfield := hplain field List.mem_cons_self
    have hlater := ih (fun other hother => hplain other (List.mem_cons_of_mem _ hother))
      fun other hother => hkeys other (List.mem_cons_of_mem _ hother)
    have hread := readType_typeText (FieldDef.isPlain_codeType hfield.type)
    have hlabeled : lowerLabeled keys caseName field.1 (typeText field.2.codeType) =
        pure (field.1, field.2.extracted) := by
      rw [lowerLabeled, hread]
      dsimp only
      rw [hkeys field List.mem_cons_self, FieldDef.extracted, hfield.doc]
      rfl
    rw [List.map_cons, lowerLabeledValues, Option.getD_some, hlabeled, Logged.pure_bind, hlater]
    rfl

/-- Values that all have labels are fields. -/
theorem lowerPayload_labeled {keys : NameMap String} {case_ : EnumCase}
    (hne : case_.associated ≠ [])
    (hlabeled : ∀ value ∈ case_.associated, value.label.isSome = true) :
    lowerPayload keys case_ = (do
      let fields ← lowerLabeledValues keys case_.name case_.associated
      return .inline (.ofList fields)) := by
  unfold lowerPayload
  split
  · next hnone => exact absurd hnone hne
  · next type hone =>
    have hlabel := hlabeled ⟨none, type⟩ (by rw [hone]; exact List.mem_cons_self)
    cases hlabel
  · rw [if_pos (List.all_eq_true.mpr hlabeled)]

section

variable {namer : Namer} (hlead : namer.lead = "")

include hlead

theorem lowerPayload_generated {payload : VariantPayload} (hplain : payload.IsPlain)
    {keys : NameMap String} (hkeys : KeysTellFields keys payload) (docs : List String)
    (name : String) :
    lowerPayload keys (enumCase docs name (namer.payloadForm payload).values none) =
      pure payload.extracted := by
  cases payload with
  | unit => rfl
  | wrapped type =>
    have hmeans : MeansItself type := hplain
    have hform : namer.payloadForm (.wrapped type) = .wrapped (denoted type) := by
      rw [Namer.payloadForm, TypeExpr.rename_eq_self (Namer.reference_of_lead hlead)
        (wellFormed_denoted hmeans.denotesType)]
    have hread := readType_typeText hmeans.isPlain_denoted
    rw [hform]
    simp only [lowerPayload, enumCase, PayloadForm.values, List.map_cons, List.map_nil,
      associatedValue, Option.filter_none, hread, hmeans.text_denoted]
    rfl
  | inline fields =>
    obtain ⟨hne, hlabeled⟩ := hplain
    have hvalues : (enumCase docs name (namer.payloadForm (.inline fields)).values none).associated =
        fields.entries.map fun field => ⟨some field.1, typeText field.2.codeType⟩ := by
      have hempty : fields.isEmpty = false := by simpa [NameMap.isEmpty] using hne
      rw [Namer.payloadForm, hempty, if_neg (by simp)]
      simp only [enumCase, PayloadForm.values, List.map_map]
      refine List.map_congr_left fun field hfield => ?_
      have hform := Namer.fieldForm_of_lead hlead (hlabeled field hfield).type.denotesType
      simp [hform, associatedValue, (hlabeled field hfield).label]
    have hfields := lowerLabeledValues_generated name hlabeled hkeys
    have hmap : NameMap.ofList (fields.entries.map fun field => (field.1, field.2.extracted)) =
        fields.mapValues fun _ => FieldDef.extracted :=
      NameMap.ext (NameMap.entries_ofList (fields.mapValues fun _ => FieldDef.extracted).ascending)
    have hlabels : ∀ value ∈ fields.entries.map (fun field =>
        (⟨some field.1, typeText field.2.codeType⟩ : AssociatedValue)),
        value.label.isSome = true := by
      intro value hvalue
      obtain ⟨field, -, rfl⟩ := List.mem_map.mp hvalue
      rfl
    have hname : (enumCase docs name (namer.payloadForm (.inline fields)).values none).name = name :=
      rfl
    rw [lowerPayload_labeled (by rw [hvalues]; simpa using hne) (by rw [hvalues]; exact hlabels),
      hvalues, hname, hfields, Logged.pure_bind, hmap]
    rfl

/-- The case of a variant is read as the variant without its tag and its literal. -/
theorem lowerVariant_generated {d : UnionDef} {entry : String × VariantDef}
    (hplain : entry.2.payload.IsPlain) (hdoc : ∀ doc ∈ entry.2.doc, IsPlainDoc doc)
    {keys : NameMap String} (hkeys : KeysTellFields keys entry.2.payload) :
    lowerVariant keys (namer.variantForm d entry).enumCase =
      pure (some (entry.1, entry.2.extracted)) := by
  have hpayload := lowerPayload_generated hlead hplain hkeys (docTexts entry.2.doc) entry.1
  have hdocs : joinDocs (namer.variantForm d entry).enumCase.docs = entry.2.doc :=
    joinDocs_docTexts hdoc
  rw [lowerVariant, hdocs]
  have hcase : lowerPayload keys (namer.variantForm d entry).enumCase =
      pure entry.2.payload.extracted := hpayload
  rw [hcase]
  rfl

end

/-- Bringing the fallback to the end leaves no trace in a map. -/
theorem ofList_orderedVariants {α : Type} (d : UnionDef) (f : String → VariantDef → α) :
    NameMap.ofList ((orderedVariants d).map fun entry => (entry.1, f entry.1 entry.2)) =
      d.variants.mapValues f := by
  have hperm : (orderedVariants d).Perm d.variants.entries := by
    have hsplit := List.filter_append_perm (fun entry => !d.isFallback entry.1) d.variants.entries
    simpa [orderedVariants] using hsplit
  have hnodup : (((orderedVariants d).map fun entry => (entry.1, f entry.1 entry.2)).map
      Prod.fst).Nodup := by
    rw [List.map_map]
    exact (hperm.map Prod.fst).nodup_iff.mpr d.variants.nodup_names
  rw [NameMap.ofList_eq_of_perm (hperm.map _) hnodup]
  exact NameMap.ext (NameMap.entries_ofList (d.variants.mapValues f).ascending)

/-! ## Evidence -/

/-- What does not depend on where tokens stand is told by the outline of a function. -/
theorem map_body {α : Type} {g : List Token → α}
    (hg : ∀ body, g (body.map Token.unplaced) = g body) (f? : Option FunctionDecl) :
    (f?.map FunctionDecl.body).map g =
      (f?.map FunctionDecl.outline).map fun f => g (placed f.body) := by
  cases f? with
  | none => rfl
  | some f =>
    have hbody : placed (f.body.map Token.face) = f.body.map Token.unplaced :=
      placed_map_face f.body
    simp only [Option.map_some, FunctionDecl.outline, hbody, hg]

section

variable {usualFallback name : String} {namer : Namer} {d : UnionDef} {ctx : TypeContext}
  (hctx : IsUnionContext name namer d ctx)

include hctx

theorem codingKeys_generated {disc : Discriminator} (hdisc : d.discriminator = some disc) :
    ctx.codingKeys?.getD .empty = .ofList (codingKeys d disc) := by
  have htypes : (unionOutline name d (namer.unionForms d)).types =
      [("CodingKeys", stringCases (codingKeys d disc))] := by
    rw [unionOutline, hdisc, ← unionKeys_unionForms namer]
    rfl
  rw [ctx.codingKeys?_eq, hctx.outline, codingKeysOf_stringCases htypes, Option.getD_some]

theorem keysTellFields (haccepted : UnionAccepted d) (h : d.IsPlain usualFallback)
    {entry : String × VariantDef} (hentry : entry ∈ d.variants.entries) :
    KeysTellFields (ctx.codingKeys?.getD .empty) entry.2.payload := by
  intro field hfield
  have hplain := h.payloads entry hentry
  have haccepts := haccepted.variants.payloads entry hentry
  cases hpayload : entry.2.payload with
  | unit =>
    rw [hpayload] at hfield
    cases hfield
  | wrapped type =>
    rw [hpayload] at hfield
    cases hfield
  | inline fields =>
    rw [hpayload] at hfield hplain haccepts
    obtain ⟨_, hdisc, -⟩ := haccepts
    rw [codingKeys_generated hctx hdisc]
    exact remappedKey?_of_get? (hplain.2 field hfield).wireName
      (get?_codingKeys_field haccepted h hdisc hentry hpayload hfield)

theorem isSome_decoder?_union : ctx.decoder?.isSome = d.direction.allowsDecode := by
  rw [← Option.isSome_map (f := FunctionDecl.outline), hctx.decoder?]
  cases d.direction.allowsDecode <;> rfl

theorem unionFallback_generated (h : d.IsPlain usualFallback) :
    unionFallback usualFallback ctx (d.variants.mapValues fun _ => VariantDef.extracted) =
      d.fallbackVariant.map .fallback := by
  have hunit : ∀ variant : VariantDef, variant.extracted.isUnit = variant.isUnit := by
    rintro ⟨_, _ | _ | _, _, _⟩ <;> rfl
  have hany : ((d.variants.mapValues fun _ => VariantDef.extracted).get? usualFallback).any
      VariantDef.isUnit = (d.variants.get? usualFallback).any VariantDef.isUnit := by
    rw [NameMap.get?_mapValues, Option.any_map]
    exact congrArg (fun p => (d.variants.get? usualFallback).any p) (funext hunit)
  rw [h.fallback, unionFallback, UnionDef.usualFallback?, hany, isSome_decoder?_union hctx]
  split <;> rfl

theorem isEvidenceOf_generated (handling : Option UnknownHandling) :
    IsEvidenceOf name namer d (evidenceOf ctx (ctx.codingKeys?.getD .empty) handling
      (d.variants.mapValues fun _ => VariantDef.extracted)) where
  cases := by simp [evidenceOf, NameMap.names]
  payloadCases := by
    intro case_
    simp only [evidenceOf, NameSet.contains_ofNames, NameMap.names, NameMap.filter, List.mem_map,
      List.mem_filter, NameMap.entries_mapValues]
    constructor
    · rintro ⟨_, ⟨⟨entry, hentry, rfl⟩, hwrapped⟩, rfl⟩
      refine ⟨entry, hentry, rfl, ?_⟩
      cases hpayload : entry.2.payload with
      | wrapped type => exact ⟨type, rfl⟩
      | unit => simp [hasWrappedPayload, VariantDef.extracted, VariantDef.ofPayload, hpayload,
          VariantPayload.extracted] at hwrapped
      | inline fields => simp [hasWrappedPayload, VariantDef.extracted, VariantDef.ofPayload,
          hpayload, VariantPayload.extracted] at hwrapped
    · rintro ⟨entry, hentry, rfl, type, htype⟩
      refine ⟨_, ⟨⟨entry, hentry, rfl⟩, ?_⟩, rfl⟩
      simp [hasWrappedPayload, VariantDef.extracted, VariantDef.ofPayload, htype,
        VariantPayload.extracted]
  decoding := by
    have hbody : (evidenceOf ctx (ctx.codingKeys?.getD .empty) handling
        (d.variants.mapValues fun _ => VariantDef.extracted)).decodeBody =
      ctx.decoder?.map FunctionDecl.body := rfl
    rw [hbody, map_body decodeEvidence_unplaced, hctx.decoder?, shownDecoding]
    cases d.direction.allowsDecode <;> rfl
  encoding := by
    have hbody : (evidenceOf ctx (ctx.codingKeys?.getD .empty) handling
        (d.variants.mapValues fun _ => VariantDef.extracted)).encodeBody =
      ctx.encoder?.map FunctionDecl.body := rfl
    rw [hbody, map_body encodeEvidence_unplaced, hctx.encoder?, shownEncoding]
    cases d.direction.allowsEncode <;> rfl
  tagKey := by
    intro disc hdisc
    have hkeys := codingKeys_generated hctx hdisc
    have hcoding : (evidenceOf ctx (ctx.codingKeys?.getD .empty) handling
        (d.variants.mapValues fun _ => VariantDef.extracted)).codingKeys =
      ctx.codingKeys?.getD .empty := rfl
    rw [hcoding, hkeys, get?_codingKeys_tag]

end

/-! ## Literals -/

def extractedVariant (d : UnionDef) (name : String) (variant : VariantDef) : VariantDef :=
  { variant.extracted with
    tag := (extractedTag? d (name, variant)).filter (· != name)
    literal := variant.literal }

/-- What a variant is after its code was read, if only the given kinds of literals were
looked for. -/
def markedVariant (d : UnionDef) (kinds : List LiteralSugar) (name : String)
    (variant : VariantDef) : VariantDef :=
  { extractedVariant d name variant with literal := variant.literal.filter (kinds.contains ·) }

theorem markedVariant_of_ne {d : UnionDef} {kind : LiteralSugar} {variant : VariantDef}
    (h : variant.literal ≠ some kind) (kinds : List LiteralSugar) (name : String) :
    markedVariant d (kind :: kinds) name variant = markedVariant d kinds name variant := by
  unfold markedVariant
  cases hliteral : variant.literal with
  | none => rfl
  | some kind' =>
    have hne : kind' ≠ kind := fun hsame => h (hsame ▸ hliteral)
    simp [Option.filter_some, hne]

theorem markedVariant_of_eq {d : UnionDef} {kind : LiteralSugar} {variant : VariantDef}
    (h : variant.literal = some kind) (kinds : List LiteralSugar) (name : String) :
    markedVariant d (kind :: kinds) name variant =
      { markedVariant d kinds name variant with literal := some kind } := by
  simp [markedVariant, h, Option.filter_some]

theorem mapValues_withEvidentTag {d : UnionDef} {tags : NameMap String}
    (htags : ∀ entry ∈ d.variants.entries, tags.get? entry.1 = extractedTag? d entry) :
    (d.variants.mapValues fun _ => VariantDef.extracted).mapValues (withEvidentTag tags) =
      d.variants.mapValues (markedVariant d []) := by
  refine NameMap.ext ?_
  simp only [NameMap.entries_mapValues, List.map_map]
  refine List.map_congr_left fun entry hentry => Prod.ext rfl ?_
  have hnone : entry.2.literal.filter (fun kind => ([] : List LiteralSugar).contains kind) = none := by
    cases entry.2.literal <;> rfl
  have htag := htags entry hentry
  simp only [Function.comp_apply, withEvidentTag, htag, markedVariant, extractedVariant, hnone]
  cases extractedTag? d entry with
  | none => rfl
  | some tag =>
    by_cases hsame : tag = entry.1
    · simp [hsame, VariantDef.extracted, VariantDef.ofPayload, Option.filter_some]
    · simp [hsame, VariantDef.extracted, VariantDef.ofPayload, Option.filter_some]

section

variable {name : String} {namer : Namer} {d : UnionDef} {ctx : TypeContext}
  (hctx : IsUnionContext name namer d ctx) (haccepted : UnionAccepted d)

include hctx haccepted

theorem literalCase?_generated {entry : String × VariantDef} (hentry : entry ∈ d.variants.entries)
    {kind : LiteralSugar} (hkind : entry.2.literal = some kind) :
    literalCase? ctx ⟨kind, literalProtocol kind, literalLabel kind⟩ = some entry.1 := by
  have hbody := map_body assignedCase?_unplaced (ctx.function? "init" (literalLabel kind))
  rw [hctx.literalFunction? haccepted hentry hkind] at hbody
  obtain ⟨f, hf, hassigned⟩ : ∃ f, ctx.function? "init" (literalLabel kind) = some f ∧
      assignedCase? f.body = some entry.1 := by
    cases hf : ctx.function? "init" (literalLabel kind) with
    | none =>
      rw [hf] at hbody
      cases hbody
    | some f =>
      rw [hf] at hbody
      exact ⟨f, rfl, Option.some.inj hbody⟩
  rw [literalCase?, hf, Option.bind_some, hassigned]

/-- One more kind of literals marks the variant that is written by them, if there is one. -/
theorem markLiteral_generated (kinds : List LiteralSugar) (kind : LiteralSugar) :
    markLiteral ctx (d.variants.mapValues (markedVariant d kinds))
        ⟨kind, literalProtocol kind, literalLabel kind⟩ =
      pure (d.variants.mapValues (markedVariant d (kind :: kinds))) := by
  rw [markLiteral, hctx.conformsTo]
  cases hany : (literalVariants d).any fun literal => literal.2 == kind with
  | false =>
    have hsame : d.variants.mapValues (markedVariant d (kind :: kinds)) =
        d.variants.mapValues (markedVariant d kinds) := by
      refine NameMap.ext (List.map_congr_left fun entry hentry => Prod.ext rfl ?_)
      refine markedVariant_of_ne (fun hliteral => ?_) kinds entry.1
      have hmem : (entry.1, kind) ∈ literalVariants d :=
        mem_literalVariants.mpr ⟨entry, hentry, rfl, hliteral⟩
      exact List.any_eq_false.mp hany _ hmem (beq_self_eq_true kind)
    rw [hsame]
    rfl
  | true =>
    obtain ⟨literal, hliteral, hkind⟩ := List.any_eq_true.mp hany
    obtain ⟨entry, hentry, hname, hmarked⟩ := mem_literalVariants.mp hliteral
    rw [beq_iff_eq.mp hkind] at hmarked
    have hget : (d.variants.mapValues (markedVariant d kinds)).get? entry.1 =
        some (markedVariant d kinds entry.1 entry.2) := by
      rw [NameMap.get?_mapValues, NameMap.get?_eq_some hentry]
      rfl
    rw [literalCase?_generated hctx haccepted hentry hmarked, Option.bind_some, hget]
    refine congrArg pure (NameMap.ext_get? fun other => ?_)
    rw [NameMap.get?_insert, NameMap.get?_mapValues, NameMap.get?_mapValues]
    by_cases hother : other = entry.1
    · rw [if_pos hother, hother, NameMap.get?_eq_some hentry, Option.map_some,
        markedVariant_of_eq hmarked]
    · rw [if_neg hother]
      refine Option.map_congr fun variant hvariant => (markedVariant_of_ne (fun hsame => ?_) _ _).symm
      exact hother (congrArg Prod.fst
        (literal_inj haccepted (mem_of_get? hvariant) hentry hsame hmarked))

theorem markLiterals_generated :
    markLiterals ctx (d.variants.mapValues (markedVariant d [])) literalProtocols =
      pure (d.variants.mapValues (extractedVariant d)) := by
  have hall : d.variants.mapValues (markedVariant d [.array, .string]) =
      d.variants.mapValues (extractedVariant d) := by
    refine NameMap.ext (List.map_congr_left fun entry _ => Prod.ext rfl ?_)
    cases hliteral : entry.2.literal with
    | none => simp [markedVariant, extractedVariant, hliteral]
    | some kind => cases kind <;>
        simp [markedVariant, extractedVariant, hliteral, Option.filter_some]
  have hstring := markLiteral_generated hctx haccepted [] .string
  have harray := markLiteral_generated hctx haccepted [.string] .array
  have hprotocols : literalProtocols =
      [⟨.string, literalProtocol .string, literalLabel .string⟩,
        ⟨.array, literalProtocol .array, literalLabel .array⟩] := rfl
  rw [hprotocols, markLiterals, hstring, Logged.pure_bind, markLiterals, harray, Logged.pure_bind,
    markLiterals, hall]

end

/-! ## Unions -/

/-- What a union is after its code was read; `rejects` tells whether the code was seen to
refuse unknown values. -/
def unionExtracted (d : UnionDef) (rejects : Bool) : UnionDef :=
  { direction := d.direction
    doc := d.doc
    discriminator := shownDiscriminator d
    unknownHandling := (d.fallbackVariant.map .fallback).or (if rejects then some .error else none)
    variants := d.variants.mapValues (extractedVariant d) }

section

variable {usualFallback name : String} {namer : Namer} {d : UnionDef} {ctx : TypeContext}

/-- Labeled payloads lie next to a tag, and this is seen of any payload that does. -/
theorem checkInline_generated (haccepted : UnionAccepted d) :
    checkInline (d.variants.mapValues fun _ => VariantDef.extracted) (shownDiscriminator d) =
      pure () := by
  unfold checkInline
  cases hany : (d.variants.mapValues fun _ => VariantDef.extracted).values.any hasInlinePayload with
  | false => rfl
  | true =>
    obtain ⟨variant, hvariant, hinline⟩ := List.any_eq_true.mp hany
    simp only [NameMap.values, NameMap.entries_mapValues, List.map_map, List.mem_map] at hvariant
    obtain ⟨entry, hentry, rfl⟩ := hvariant
    have haccepts := haccepted.variants.payloads entry hentry
    cases hpayload : entry.2.payload with
    | unit => simp [hasInlinePayload, VariantDef.extracted, VariantDef.ofPayload, hpayload,
        VariantPayload.extracted] at hinline
    | wrapped type => simp [hasInlinePayload, VariantDef.extracted, VariantDef.ofPayload, hpayload,
        VariantPayload.extracted] at hinline
    | inline fields =>
      rw [hpayload] at haccepts
      obtain ⟨field, hdisc, -⟩ := haccepts
      rw [shownDiscriminator, hdisc]
      rfl

/-- The code of a union is read as what it shows of the union. -/
theorem lowerUnion_generated (hlead : namer.lead = "") (haccepted : EntryAccepted (name, .union d))
    (h : d.IsPlain usualFallback) (hwritable : IsWritableUnion name d (namer.unionForms d))
    (hctx : IsUnionContext name namer d ctx) :
    ∃ log rejects, lowerUnion usualFallback ctx = ⟨log, .ok (.union (unionExtracted d rejects))⟩ := by
  have hunion : UnionAccepted d := haccepted.definition
  have hcases : (casesOf ctx.decl.members).map EnumCase.unplaced =
      (orderedVariants d).map fun entry => (namer.variantForm d entry).enumCase := by
    have houtline := congrArg Outline.cases hctx.outline
    rw [unionOutline, Namer.unionForms, List.map_map] at houtline
    exact houtline
  have hcollect : Logged.collect (lowerVariant (ctx.codingKeys?.getD .empty))
      (casesOf ctx.decl.members) =
        pure ((orderedVariants d).map fun entry => (entry.1, entry.2.extracted)) := by
    have hplace : Logged.collect (lowerVariant (ctx.codingKeys?.getD .empty))
        ((casesOf ctx.decl.members).map EnumCase.unplaced) =
      Logged.collect (lowerVariant (ctx.codingKeys?.getD .empty)) (casesOf ctx.decl.members) :=
      Logged.collect_map _ _ _
    rw [← hplace, hcases, Logged.collect_map, Logged.collect_eq_pure fun entry hordered =>
      lowerVariant_generated hlead (h.payloads entry (mem_of_mem_orderedVariants hordered))
        (h.docs entry (mem_of_mem_orderedVariants hordered))
        (keysTellFields hctx hunion h (mem_of_mem_orderedVariants hordered)),
      List.filterMap_eq_map']
  have hvariants := ofList_orderedVariants d fun _ => VariantDef.extracted
  obtain ⟨hdiscriminator, htags⟩ := unionShape_generated hlead hwritable hunion
    (isEvidenceOf_generated hctx (d.fallbackVariant.map .fallback)) h.tagged
  have hdocs : ctx.decl.docs = docTexts d.doc := congrArg TypeHeader.docs hctx.header
  rw [lowerUnion, hcollect, Logged.pure_bind, hvariants]
  dsimp only
  rw [unionFallback_generated hctx h, hdiscriminator, checkInline_generated hunion,
    mapValues_withEvidentTag htags, markLiterals_generated hctx hunion, hctx.direction, hdocs,
    joinDocs_docTexts h.doc]
  -- a warning may have been logged before, of variants for which no tag was seen
  split
  · exact ⟨_, _, rfl⟩
  · exact ⟨_, _, rfl⟩

end

/-! ## When nothing is lost -/

/-- Does the code of a union with a discriminator tell its tags and the place of payloads? -/
@[mk_iff]
structure TellsWire (d : UnionDef) (disc : Discriminator) : Prop where
  /-- An initializer alone does not show the tag of a case named like the word that starts an
  arm. -/
  tags : ∀ entry ∈ d.variants.entries, entry.1 = "case" →
    d.direction.allowsEncode = true ∨ entry.2.wireTag entry.1 = entry.1
  /-- One payload under a key is seen to lie there, and none is taken for the whole value. -/
  style : disc.style = .wrapped →
    (∃ entry ∈ d.variants.entries, showsKey d.direction entry.1 entry.2.payload = true) ∧
      ∀ entry ∈ d.variants.entries, showsWhole d.direction entry.1 entry.2.payload = false

instance (d : UnionDef) (disc : Discriminator) : Decidable (TellsWire d disc) :=
  decidable_of_iff' _ (tellsWire_iff ..)

theorem shownStyle_eq_iff {d : UnionDef} {style : DiscriminatorStyle} :
    shownStyle d style = style ↔ (style = .wrapped →
      (∃ entry ∈ d.variants.entries, showsKey d.direction entry.1 entry.2.payload = true) ∧
        ∀ entry ∈ d.variants.entries, showsWhole d.direction entry.1 entry.2.payload = false) := by
  cases style with
  | inline => simp [shownStyle]
  | wrapped =>
    have hboth : shownStyle d .wrapped = .wrapped ↔
        (d.variants.entries.any fun entry => showsKey d.direction entry.1 entry.2.payload) = true ∧
          (d.variants.entries.any fun entry =>
            showsWhole d.direction entry.1 entry.2.payload) = false := by
      rw [shownStyle]
      split
      · next hshown => simpa using hshown
      · next hhidden => simpa using hhidden
    rw [hboth, List.any_eq_true, List.any_eq_false]
    simp only [forall_const, Bool.not_eq_true]

theorem shownDiscriminator_eq_iff {d : UnionDef} :
    shownDiscriminator d = d.discriminator ↔
      ∀ disc ∈ d.discriminator, shownStyle d disc.style = disc.style := by
  rw [shownDiscriminator]
  cases d.discriminator with
  | none => simp
  | some disc =>
    have hstyle : (⟨disc.field, shownStyle d disc.style⟩ : Discriminator) = disc ↔
        shownStyle d disc.style = disc.style :=
      ⟨fun hsame => congrArg Discriminator.style hsame, fun hsame => by rw [hsame]⟩
    simpa using hstyle

theorem agrees_extracted {payload : VariantPayload} (h : payload.IsPlain) :
    payload.extracted.agrees payload = true := by
  cases payload with
  | unit => rfl
  | wrapped type => exact beq_self_eq_true type
  | inline fields =>
    exact entriesAgree_mapValues (fun _ => FieldDef.extracted) fun entry hentry =>
      FieldDef.agrees_extracted (h.2 entry hentry).type

section

variable {usualFallback : String} {d : UnionDef} (haccepted : UnionAccepted d)
  (h : d.IsPlain usualFallback)

include haccepted h

/-- Without a discriminator variants have no tags, and nothing is lost. -/
theorem wireTag_of_untagged (hdisc : d.discriminator = none) (hraw : d.rawValueType = none)
    {entry : String × VariantDef} (hentry : entry ∈ d.variants.entries) :
    entry.2.wireTag entry.1 = entry.1 := by
  have htags := haccepted.tags
  rw [tagsHaveMeaning, hdisc, hraw] at htags
  have hone := List.all_eq_true.mp htags entry hentry
  rcases (Bool.or_eq_true _ _).mp hone with hnone | hfallback
  · rw [VariantDef.wireTag, Option.isNone_iff_eq_none.mp hnone, Option.getD_none]
  · exact h.fallbackTag entry hentry hfallback

/-- The tag that is read is the right one unless it is not seen and not the name either. -/
theorem wireTag_extractedVariant (hraw : d.rawValueType = none) {entry : String × VariantDef}
    (hentry : entry ∈ d.variants.entries) :
    (extractedVariant d entry.1 entry.2).wireTag entry.1 = entry.2.wireTag entry.1 ↔
      (d.discriminator.isSome = true → entry.1 = "case" →
        d.direction.allowsEncode = true ∨ entry.2.wireTag entry.1 = entry.1) := by
  have hself : ∀ tag : String, ((some tag).filter (· != entry.1)).getD entry.1 = tag := by
    intro tag
    by_cases hsame : tag = entry.1 <;> simp [Option.filter_some, hsame]
  have htag : (extractedVariant d entry.1 entry.2).wireTag entry.1 =
      ((extractedTag? d entry).filter (· != entry.1)).getD entry.1 := rfl
  rw [htag, extractedTag?]
  cases hdisc : d.discriminator with
  | none =>
    have hname := wireTag_of_untagged haccepted h hdisc hraw hentry
    simp [hname]
  | some disc =>
    rw [Option.isSome_some, if_pos rfl, shownTag?]
    cases hfallback : d.isFallback entry.1 with
    | true =>
      have hname := h.fallbackTag entry hentry hfallback
      simp [hname]
    | false =>
      by_cases hshown : d.direction.allowsEncode = true ∨ entry.1 ≠ "case"
      · rw [if_pos (by simpa using hshown), hself]
        simp only [true_iff]
        exact fun _ hname => .inl (hshown.resolve_right fun hne => hne hname)
      · have hhidden := not_or.mp hshown
        rw [if_neg (by simpa using hshown)]
        simp [hhidden.1, Classical.not_not.mp hhidden.2, @eq_comm _ "case"]

theorem variantsAgree_unionExtracted_iff (hraw : d.rawValueType = none) (rejects : Bool) :
    entriesAgree VariantDef.agrees (unionExtracted d rejects).variants.entries
        d.variants.entries = true ↔
      ∀ entry ∈ d.variants.entries, d.discriminator.isSome = true → entry.1 = "case" →
        d.direction.allowsEncode = true ∨ entry.2.wireTag entry.1 = entry.1 := by
  refine (entriesAgree_mapValues_iff _).trans (forall₂_congr fun entry hentry => ?_)
  rw [← wireTag_extractedVariant haccepted h hraw hentry]
  have hpayload : (extractedVariant d entry.1 entry.2).payload.agrees entry.2.payload = true :=
    agrees_extracted (h.payloads entry hentry)
  have hliteral : (extractedVariant d entry.1 entry.2).literal = entry.2.literal := rfl
  have hdoc : (extractedVariant d entry.1 entry.2).doc = entry.2.doc := rfl
  simp [VariantDef.agrees, hpayload, hliteral, hdoc]

/-- What is read back is the same union exactly if its code tells the tags and the place of
payloads. -/
theorem agrees_unionExtracted_iff (hraw : d.rawValueType = none) (rejects : Bool) :
    (unionExtracted d rejects).agrees d = true ↔ ∀ disc ∈ d.discriminator, TellsWire d disc := by
  have hfallback : (unionExtracted d rejects).fallbackVariant = d.fallbackVariant := by
    rw [UnionDef.fallbackVariant, unionExtracted]
    cases d.fallbackVariant <;> cases rejects <;> rfl
  have hdirection : (unionExtracted d rejects).direction = d.direction := rfl
  have hdoc : (unionExtracted d rejects).doc = d.doc := rfl
  have hdiscriminator : (unionExtracted d rejects).discriminator = shownDiscriminator d := rfl
  have hparts : (unionExtracted d rejects).agrees d = true ↔
      shownDiscriminator d = d.discriminator ∧ entriesAgree VariantDef.agrees
        (unionExtracted d rejects).variants.entries d.variants.entries = true := by
    simp only [UnionDef.agrees, hfallback, hdirection, hdoc, hdiscriminator, beq_self_eq_true,
      Bool.true_and, Bool.and_true, Bool.and_eq_true, beq_iff_eq]
  rw [hparts, shownDiscriminator_eq_iff, variantsAgree_unionExtracted_iff haccepted h hraw]
  cases hdisc : d.discriminator with
  | none => simp
  | some disc =>
    simp only [Option.mem_some_iff, forall_eq', Option.isSome_some, forall_const]
    constructor
    · rintro ⟨hstyle, htags⟩
      exact ⟨htags, shownStyle_eq_iff.mp hstyle⟩
    · exact fun htells => ⟨shownStyle_eq_iff.mpr htells.style, htells.tags⟩

end

end Extraction

end WireSchema
