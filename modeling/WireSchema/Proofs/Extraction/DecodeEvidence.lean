import WireSchema.Proofs.Extraction.DecodeArms
import WireSchema.Proofs.Lookup

/-!
# What a generated initializer shows

The body of the initializer of a tagged union shows the key of the tag, and for each
variant but one its tag and where its payload lies. Without a tag it shows no key.
-/

namespace WireSchema.Extraction

open Generation Swift
open Text (isIdentifier isIdentifier_keyCaseName)

/-! ## What the arms tell -/

/-- A body tells of exactly those variants that are shown, the fallback aside: their tags, and
where their payloads lie. -/
structure Tells (variants : List VariantForm) (shown : VariantForm → Prop)
    (inline_ wrapped : VariantForm → Bool) (tags : List (String × String))
    (inlineCases wrappedCases : NameSet) : Prop where
  tags : ∀ claim, claim ∈ tags ↔ ∃ variant ∈ variants,
    variant.isFallback = false ∧ shown variant ∧ claim = (variant.tag, variant.name)
  inlineCases : ∀ name, inlineCases.contains name = true ↔ ∃ variant ∈ variants,
    variant.isFallback = false ∧ shown variant ∧ variant.name = name ∧ inline_ variant = true
  wrappedCases : ∀ name, wrappedCases.contains name = true ↔ ∃ variant ∈ variants,
    variant.isFallback = false ∧ shown variant ∧ variant.name = name ∧ wrapped variant = true

/-- Is the payload of the variant seen to be decoded from the whole value? -/
def decodesInline (style : DiscriminatorStyle) (variant : VariantForm) : Bool :=
  containsWords ["from", ":", "decoder"] (placed (variant.taggedDecodeFaces style))

def decodesWrapped (style : DiscriminatorStyle) (variant : VariantForm) : Bool :=
  !decodesInline style variant &&
    containsWords ["forKey", ":"] (placed (variant.taggedDecodeFaces style))

namespace Arm.Decodes

variable {style : DiscriminatorStyle} {variant : VariantForm} {arm : Arm}

theorem assigned (h : arm.Decodes style variant) :
    assignedCase? arm.body = some variant.name := by
  rw [h.body, VariantForm.taggedDecodeFaces_eq, placed_append]
  rfl

theorem decodedTags (h : arm.Decodes style variant) :
    arm.decodedTags = [(variant.tag, variant.name)] := by
  rw [Arm.decodedTags, h.assigned, h.pattern]
  show [(stringValue (stringLiteral variant.tag), variant.name)] = _
  rw [stringValue_stringLiteral]

theorem decodesInline (h : arm.Decodes style variant) :
    arm.decodesInline = Extraction.decodesInline style variant := by
  rw [Arm.decodesInline, h.body]
  rfl

theorem decodesWrapped (h : arm.Decodes style variant) :
    arm.decodesWrapped = Extraction.decodesWrapped style variant := by
  rw [Arm.decodesWrapped, h.decodesInline, h.body]
  rfl

end Arm.Decodes

namespace Arm.IsMute

variable {arm : Arm}

theorem decodedTags (h : arm.IsMute) (hdefault : arm.isDefault = false) : arm.decodedTags = [] := by
  cases h with
  | default h =>
    rw [hdefault] at h
    cases h
  | unassigned h => rw [Arm.decodedTags, h]
  | bare pattern =>
    rw [Arm.decodedTags, pattern]
    cases assignedCase? arm.body <;> rfl

/-- A mute arm shows no payload of the case that it assigns. -/
theorem assigned (h : arm.IsMute) (hdefault : arm.isDefault = false) {name : String}
    (hname : assignedCase? arm.body = some name) :
    arm.decodesInline = false ∧ arm.decodesWrapped = false := by
  cases h with
  | default h =>
    rw [hdefault] at h
    cases h
  | unassigned h =>
    rw [hname] at h
    cases h
  | bare _ inline_ wrapped => exact ⟨inline_, wrapped⟩

end Arm.IsMute

/-- The cases that arms of a kind assign are those of the variants of that kind, if no mute arm
is of the kind. -/
theorem ArmsDecode.contains_assignedCases {style : DiscriminatorStyle}
    {variants : List VariantForm} {arms : List Arm} (h : ArmsDecode style variants arms)
    {p : Arm → Bool} {q : VariantForm → Bool}
    (hmute : ∀ {arm : Arm}, arm.IsMute → arm.isDefault = false →
      ∀ {name}, assignedCase? arm.body = some name → p arm = false)
    (hshows : ∀ {arm : Arm} {variant}, arm.Decodes style variant → p arm = q variant)
    (name : String) :
    (assignedCases ((arms.filter fun arm => !arm.isDefault).filter p)).contains name = true ↔
      ∃ variant ∈ variants, variant.isFallback = false ∧ variant.name ≠ "case" ∧
        variant.name = name ∧ q variant = true := by
  rw [assignedCases, NameSet.contains_ofNames]
  constructor
  · intro hname
    obtain ⟨arm, harm, hassigned⟩ := List.mem_filterMap.mp hname
    obtain ⟨htagged, hp⟩ := List.mem_filter.mp harm
    obtain ⟨hmem, hdefault⟩ := List.mem_filter.mp htagged
    rcases h.sound arm hmem with hquiet | ⟨variant, hvariant, hkept, hshown, hdecodes⟩
    · rw [hmute hquiet (by simpa using hdefault) hassigned] at hp
      cases hp
    · have hsame := Option.some.inj (hdecodes.assigned.symm.trans hassigned)
      exact ⟨variant, hvariant, hkept, hshown, hsame, hshows hdecodes ▸ hp⟩
  · rintro ⟨variant, hvariant, hkept, hshown, rfl, hq⟩
    obtain ⟨arm, harm, hdecodes⟩ := h.complete variant hvariant hkept hshown
    refine List.mem_filterMap.mpr ⟨arm, ?_, hdecodes.assigned⟩
    refine List.mem_filter.mpr ⟨List.mem_filter.mpr ⟨harm, by simp [hdecodes.keyword]⟩, ?_⟩
    rw [hshows hdecodes, hq]

theorem ArmsDecode.tells {style : DiscriminatorStyle} {variants : List VariantForm}
    {arms : List Arm} (h : ArmsDecode style variants arms) :
    Tells variants (fun variant => variant.name ≠ "case") (decodesInline style)
      (decodesWrapped style) ((arms.filter fun arm => !arm.isDefault).flatMap Arm.decodedTags)
      (assignedCases ((arms.filter fun arm => !arm.isDefault).filter Arm.decodesInline))
      (assignedCases ((arms.filter fun arm => !arm.isDefault).filter Arm.decodesWrapped)) where
  tags := by
    intro claim
    constructor
    · intro hclaim
      obtain ⟨arm, harm, htag⟩ := List.mem_flatMap.mp hclaim
      obtain ⟨hmem, hdefault⟩ := List.mem_filter.mp harm
      rcases h.sound arm hmem with hmute | ⟨variant, hvariant, hkept, hshown, hdecodes⟩
      · rw [hmute.decodedTags (by simpa using hdefault)] at htag
        cases htag
      · rw [hdecodes.decodedTags] at htag
        exact ⟨variant, hvariant, hkept, hshown, List.mem_singleton.mp htag⟩
    · rintro ⟨variant, hvariant, hkept, hshown, rfl⟩
      obtain ⟨arm, harm, hdecodes⟩ := h.complete variant hvariant hkept hshown
      refine List.mem_flatMap.mpr
        ⟨arm, List.mem_filter.mpr ⟨harm, by simp [hdecodes.keyword]⟩, ?_⟩
      rw [hdecodes.decodedTags]
      exact List.mem_singleton_self _
  inlineCases := h.contains_assignedCases
    (fun hmute hdefault _ hname => (hmute.assigned hdefault hname).1) fun hdecodes =>
      hdecodes.decodesInline
  wrappedCases := h.contains_assignedCases
    (fun hmute hdefault _ hname => (hmute.assigned hdefault hname).2) fun hdecodes =>
      hdecodes.decodesWrapped

/-! ## Payloads of one value -/

/-- Does the type hold the words by which a payload is decoded from the whole value? -/
def NamesDecoder (t : TypeExpr) : Prop :=
  containsWords ["from", ":", "decoder"] (placed (typeFaces t)) = true

instance (t : TypeExpr) : Decidable (NamesDecoder t) :=
  inferInstanceAs (Decidable (_ = true))

theorem containsWords_unwrapOptional (t : TypeExpr) :
    containsWords ["from", ":", "decoder"] (placed (typeFaces t.unwrapOptional)) =
      containsWords ["from", ":", "decoder"] (placed (typeFaces t)) := by
  cases t with
  | optional t =>
    have hquestion : ∀ other ∈ ["from", ":", "decoder"],
        ((Face.symbol "?").token .start).isWord other = false := by decide
    have hmark := containsWords_append_cons hquestion (placed (typeFaces t)) []
    rw [containsWords_nil, Bool.or_false] at hmark
    rw [typeFaces, placed_append]
    exact hmark.symm
  | primitive | list | map | custom => rfl

section

variable {variant : VariantForm} {type : TypeExpr} (hname : isIdentifier variant.name = true)
  (htype : variant.payload = .wrapped type)

include hname htype in
/-- Under a key of its own, a payload is taken for the whole value only because of its type. -/
theorem decodesInline_wrapped :
    decodesInline .wrapped variant = decide (NamesDecoder type) := by
  have hword : ∀ other ∈ ["from", ":", "decoder"],
      ((Face.symbol "(").token .start).isWord other = false := by decide
  have hdot : ∀ other ∈ ["from", ":", "decoder"],
      ((Face.symbol ".").token .start).isWord other = false := by decide
  have hassign : containsWords ["from", ":", "decoder"] (placed (assignFaces variant.name)) = false :=
    containsWords_of_lacks (by decide : ":" ∈ ["from", ":", "decoder"])
      (lacks_word hname (by decide : isIdentifier ":" = false) [])
  have hmethod : containsWords ["from", ":", "decoder"] (placed [.word "try", .word "container",
      .symbol ".", .word (coderMethod "decode" type.isOptional)]) = false :=
    containsWords_of_lacks (by decide : ":" ∈ ["from", ":", "decoder"]) (lacks_word
      (isIdentifier_coderMethod type.isOptional).1 (by decide : isIdentifier ":" = false) [])
  have hkey : containsWords ["from", ":", "decoder"] (placed [.word "self", .symbol ",",
      .word "forKey", .symbol ":", .symbol ".", .word (Text.keyCaseName variant.tag), .symbol ")",
      .symbol ")"]) = false := by
    have hlacks : lacks "from" [.word "self", .symbol ",", .word "forKey", .symbol ":",
        .symbol "."] = true := rfl
    have hfront := containsWords_append_of_lacks [":", "decoder"] hlacks
      (placed [.word (Text.keyCaseName variant.tag), .symbol ")", .symbol ")"])
    have hback : lacks ":" [.word (Text.keyCaseName variant.tag), .symbol ")", .symbol ")"] = true :=
      lacks_word (isIdentifier_keyCaseName variant.tag) (by decide : isIdentifier ":" = false)
        [.symbol ")", .symbol ")"]
    exact hfront.trans (containsWords_of_lacks (by decide : ":" ∈ ["from", ":", "decoder"]) hback)
  have hcall : placed (variant.taggedDecodeFaces .wrapped) =
      placed (assignFaces variant.name) ++ (Face.symbol "(").token .start ::
        (placed [.word "try", .word "container", .symbol ".",
          .word (coderMethod "decode" type.isOptional)] ++ (Face.symbol "(").token .start ::
        (placed (typeFaces type.unwrapOptional) ++ (Face.symbol ".").token .start ::
          placed [.word "self", .symbol ",", .word "forKey", .symbol ":", .symbol ".",
            .word (Text.keyCaseName variant.tag), .symbol ")", .symbol ")"])) := by
    unfold VariantForm.taggedDecodeFaces
    rw [htype]
    simp [decodeCallFaces, placed_append, placed_cons, placed_nil]
  rw [decodesInline, hcall, containsWords_append_cons hword, containsWords_append_cons hword,
    containsWords_append_cons hdot, hassign, hmethod, hkey, containsWords_unwrapOptional]
  simp only [Bool.false_or, Bool.or_false]
  exact Bool.eq_iff_iff.mpr decide_eq_true_iff.symm

include hname htype in
theorem decodesWrapped_wrapped :
    decodesWrapped .wrapped variant = !decide (NamesDecoder type) := by
  have hcall : placed (variant.taggedDecodeFaces .wrapped) =
      placed (assignFaces variant.name ++ .symbol "(" :: [.word "try", .word "container",
        .symbol ".", .word (coderMethod "decode" type.isOptional), .symbol "("] ++
        typeFaces type.unwrapOptional ++ [.symbol ".", .word "self", .symbol ","]) ++
      placed [.word "forKey", .symbol ":", .symbol ".", .word (Text.keyCaseName variant.tag),
        .symbol ")", .symbol ")"] := by
    unfold VariantForm.taggedDecodeFaces
    rw [htype]
    simp [decodeCallFaces, placed_append, placed_cons, placed_nil]
  rw [decodesWrapped, decodesInline_wrapped hname htype, hcall, containsWords_append rfl,
    Bool.and_true]

include htype in
theorem decodesWrapped_inline : decodesWrapped .inline variant = false := by
  have hcall : placed (variant.taggedDecodeFaces .inline) =
      placed (assignFaces variant.name ++ .symbol "(" :: .word "try" :: (typeFaces type ++
        [.symbol "("])) ++
      placed [.word "from", .symbol ":", .word "decoder", .symbol ")", .symbol ")"] := by
    unfold VariantForm.taggedDecodeFaces
    rw [htype]
    simp [placed_append, placed_cons, placed_nil]
  have hinline : decodesInline .inline variant = true := by
    rw [decodesInline, hcall, containsWords_append rfl]
  rw [decodesWrapped, hinline]
  rfl

end

/-! ## The body of an initializer -/

theorem taggedDecodeBodyFaces_eq (disc : Discriminator) (fallback : Option String)
    (variants : List VariantForm) :
    placed (taggedDecodeBodyFaces disc fallback variants) =
      placed (readTagFaces (tagKey disc) ++ [.word "switch", .word "tag"]) ++
        (Face.symbol "\x7b").token .start ::
          placed (decoderFaces disc.style (tagKey disc) fallback variants) := by
  simp [taggedDecodeBodyFaces, taggedDecodeArmsFaces, switchFaces, decoderFaces, placed_append,
    placed_cons, placed_nil]

/-- What the initializer of a tagged union shows. -/
theorem decodeEvidence_tagged (disc : Discriminator) {fallback : Option String}
    (hfallback : ∀ name ∈ fallback, isIdentifier name = true) {variants : List VariantForm}
    (h : ∀ variant ∈ variants, variant.IsWritable) {evidence : DecodeEvidence}
    (hevidence : decodeEvidence (placed (taggedDecodeBodyFaces disc fallback variants)) = evidence) :
    evidence.tagKey = some (tagKey disc) ∧
      Tells variants (fun variant => variant.name ≠ "case") (decodesInline disc.style)
        (decodesWrapped disc.style) evidence.tags evidence.inlineCases evidence.wrappedCases := by
  have hkey : isIdentifier (tagKey disc) = true := isIdentifier_keyCaseName disc.field
  have hlacks : lacks "\x7b" (readTagFaces (tagKey disc) ++ [.word "switch", .word "tag"]) = true := by
    have hback : lacks "\x7b" [.symbol ")", .word "switch", .word "tag"] = true := rfl
    have hkeyed := lacks_word hkey (by decide : isIdentifier "\x7b" = false)
      [.symbol ")", .word "switch", .word "tag"]
    exact hkeyed.trans hback
  have hswitch : (placed (readTagFaces (tagKey disc) ++ [.word "switch", .word "tag"])).any
      (·.isWord "switch") = true := by
    rw [placed_append, List.any_append]
    exact Bool.or_true _
  have hread : decodedKey? (placed (readTagFaces (tagKey disc) ++ [.word "switch", .word "tag"])) =
      some (tagKey disc) := rfl
  obtain ⟨arms, hsplit, harms⟩ := splitArms_decoderFaces disc.style hkey hfallback h .nil
  obtain ⟨tokens, hfrom, hcut⟩ := switchArms_front hswitch (isWord_of_lacks hlacks)
    (placed (decoderFaces disc.style (tagKey disc) fallback variants))
  have hbefore := beforeSwitchBody_front hswitch (isWord_of_lacks hlacks)
    (placed (decoderFaces disc.style (tagKey disc) fallback variants))
  rw [List.nil_append] at hsplit
  rw [hsplit] at hcut
  rw [taggedDecodeBodyFaces_eq, decodeEvidence, hbefore, hfrom, hread] at hevidence
  subst hevidence
  dsimp only
  rw [hcut]
  exact ⟨rfl, harms.tells⟩

/-! ## Without a tag -/

theorem decodedKey?_before {body : List Token} (h : containsWords [",", "forKey"] body = false) :
    decodedKey? (beforeSwitchBody body) = none := by
  refine firstShape?_of_containsWords (Bool.eq_false_iff.mpr fun hwords => ?_)
  obtain ⟨found, hfound, hmatch⟩ := containsWords_iff.mp hwords
  have hpart := (List.take_prefix 2 (found.drop 5)).isInfix.trans (List.drop_suffix 5 found).isInfix
  have hbody : containsWords [",", "forKey"] body = true :=
    containsWords_iff.mpr ⟨_, (hpart.trans hfound).trans (beforeSwitchBody_isPrefixOf body).isInfix,
      List.forall₂_take 2 (List.forall₂_drop 5 hmatch)⟩
  rw [h] at hbody
  cases hbody

theorem decodeEvidence_tagKey (body : List Token) :
    (decodeEvidence body).tagKey = decodedKey? (beforeSwitchBody body) := by
  unfold decodeEvidence
  cases fromSwitch? body <;> rfl

theorem lacks_comma_attemptFaces {variant : VariantForm} (h : variant.IsWritable) :
    lacks "," variant.attemptFaces = true := by
  have hpayload := h.payload
  have hassign : lacks "," (assignFaces variant.name) = true :=
    lacks_word h.name (by decide : isIdentifier "," = false) []
  unfold VariantForm.attemptFaces
  cases variant.isFallback with
  | true => rfl
  | false =>
    cases hkind : variant.payload with
    | unit =>
      rw [if_neg (by simp), lacks_append, lacks_append, hassign]
      rfl
    | inline fields =>
      rw [if_neg (by simp), lacks_append, lacks_append, hassign]
      rfl
    | wrapped type =>
      rw [hkind] at hpayload
      have htype := lacks_comma_typeFaces hpayload
      rw [if_neg (by simp)]
      simp only [lacks_append, htype, hassign]
      rfl

/-- Where no tag is read there is no key for it. -/
theorem decodeEvidence_untagged (typeName : String) {d : UnionDef} (hdisc : d.discriminator = none)
    {variants : List VariantForm} (h : ∀ variant ∈ variants, variant.IsWritable)
    (hfallback : ∀ name ∈ d.fallbackVariant, isIdentifier name = true) :
    (decodeEvidence (placed (unionDecodeFaces typeName d variants))).tagKey = none := by
  have hattempts : lacks "," (variants.flatMap VariantForm.attemptFaces) = true := by
    refine List.all_eq_true.mpr fun face hface => ?_
    obtain ⟨variant, hvariant, hmem⟩ := List.mem_flatMap.mp hface
    exact List.all_eq_true.mp (lacks_comma_attemptFaces (h variant hvariant)) face hmem
  have hnoMatch : containsWords [",", "forKey"] (placed (noMatchFaces typeName d.fallbackVariant)) =
      false := by
    cases hfallen : d.fallbackVariant with
    | none => rfl
    | some name =>
      have hname := hfallback name hfallen
      exact containsWords_of_lacks List.mem_cons_self
        (lacks_word hname (by decide : isIdentifier "," = false) [])
  rw [decodeEvidence_tagKey, unionDecodeFaces, hdisc]
  refine decodedKey?_before ?_
  dsimp only
  rw [placed_append, containsWords_append_of_lacks, hnoMatch]
  rw [lacks_append, hattempts]
  rfl

end WireSchema.Extraction
