import WireSchema.Proofs.Generation.Sources
import WireSchema.Proofs.Generation.UnionLines

/-!
# Unions in generated code as declarations

A generated union is read as one declaration, and as one extension more for each
variant that may be written as a literal.
-/

namespace WireSchema.Generation

open Swift
open Text (isIdentifier isIdentifier_keyCaseName)

/-! ## Braces -/

theorem balanced_name {name : String} (h : isIdentifier name = true) :
    Balanced "\x7b" "\x7d" [.word name] :=
  balanced_word h (by decide)

theorem balanced_switchFaces (subject : String) {arms : List Face}
    (hsubject : isIdentifier subject = true) (h : Balanced "\x7b" "\x7d" arms) :
    Balanced "\x7b" "\x7d" (switchFaces subject arms) :=
  .cons rfl rfl ((balanced_name hsubject).append (h.group rfl rfl rfl))

theorem balanced_tagFaces {variant : VariantForm} (h : isIdentifier variant.name = true) :
    Balanced "\x7b" "\x7d" variant.tagFaces := by
  have hvalue : Balanced "\x7b" "\x7d"
      (if variant.isFallback then [Face.word "nil"] else [.quoted variant.tag]) := by
    split
    · exact fun _ => rfl
    · exact fun _ => rfl
  exact .cons rfl rfl (.cons rfl rfl ((balanced_name h).append
    (.cons rfl rfl (.cons rfl rfl hvalue))))

theorem balanced_assignFaces {name : String} (h : isIdentifier name = true) :
    Balanced "\x7b" "\x7d" (assignFaces name) :=
  .cons rfl rfl (.cons rfl rfl (.cons rfl rfl (balanced_name h)))

theorem balanced_decodeCallFaces {type : TypeExpr} {key : String} (htype : IsWritable type)
    (hkey : isIdentifier key = true) : Balanced "\x7b" "\x7d" (decodeCallFaces type key) := by
  have hmethod := balanced_name (isIdentifier_coderMethod type.isOptional).1
  have htypes : Balanced "\x7b" "\x7d" (typeFaces type.unwrapOptional) :=
    balanced_typeFaces (isWritable_unwrapOptional htype) (by decide)
  have hback : Balanced "\x7b" "\x7d" [.word key, .symbol ")"] :=
    (balanced_name hkey).append fun _ => rfl
  have hfront : Balanced "\x7b" "\x7d" [.word "try", .word "container", .symbol ".",
      .word (coderMethod "decode" type.isOptional), .symbol "("] :=
    .cons rfl rfl (.cons rfl rfl (.cons rfl rfl (hmethod.append fun _ => rfl)))
  have hmiddle : Balanced "\x7b" "\x7d" [.symbol ".", .word "self", .symbol ",", .word "forKey",
      .symbol ":", .symbol "."] := fun _ => rfl
  exact (hfront.append htypes).append (hmiddle.append hback)

theorem balanced_decodedFaces {field : FieldForm} (h : field.IsWritable) :
    Balanced "\x7b" "\x7d" field.decodedFaces :=
  (balanced_name h.name).append (.cons rfl rfl (balanced_decodeCallFaces h.type h.name))

theorem balanced_taggedDecodeFaces (style : DiscriminatorStyle) {variant : VariantForm}
    (h : variant.IsWritable) : Balanced "\x7b" "\x7d" (variant.taggedDecodeFaces style) := by
  have hpayload := h.payload
  have hassign := balanced_assignFaces h.name
  have hclose : Balanced "\x7b" "\x7d" [.symbol ")"] := fun _ => rfl
  unfold VariantForm.taggedDecodeFaces
  cases hkind : variant.payload with
  | unit => exact hassign
  | wrapped type =>
    rw [hkind] at hpayload
    cases style with
    | wrapped =>
      have hcall := balanced_decodeCallFaces hpayload (isIdentifier_keyCaseName variant.tag)
      exact hassign.append (.cons rfl rfl (hcall.append hclose))
    | inline =>
      have htype : Balanced "\x7b" "\x7d" (typeFaces type) := balanced_typeFaces hpayload (by decide)
      exact hassign.append (.cons rfl rfl (.cons rfl rfl (htype.append fun _ => rfl)))
  | inline fields =>
    rw [hkind] at hpayload
    have harguments : Balanced "\x7b" "\x7d" (commaFaces (fields.map FieldForm.decodedFaces)) := by
      refine balanced_commaFaces (by decide) fun item hitem => ?_
      obtain ⟨field, hfield, rfl⟩ := List.mem_map.mp hitem
      exact balanced_decodedFaces (hpayload.2 field hfield)
    exact hassign.append (.cons rfl rfl (harguments.append hclose))

theorem balanced_taggedDecodeArmFaces (style : DiscriminatorStyle) {variant : VariantForm}
    (h : variant.IsWritable) : Balanced "\x7b" "\x7d" (variant.taggedDecodeArmFaces style) := by
  unfold VariantForm.taggedDecodeArmFaces
  split
  · exact .nil
  · exact .cons rfl rfl (.cons rfl rfl (.cons rfl rfl (balanced_taggedDecodeFaces style h)))

theorem balanced_unknownTagFaces {key : String} {fallback : Option String}
    (hkey : isIdentifier key = true) (hfallback : ∀ name ∈ fallback, isIdentifier name = true) :
    Balanced "\x7b" "\x7d" (unknownTagFaces key fallback) := by
  cases fallback with
  | some name => exact balanced_assignFaces (hfallback name rfl)
  | none =>
    have hfront : Balanced "\x7b" "\x7d" [.word "throw", .word "DecodingError", .symbol ".",
      .word "dataCorruptedError", .symbol "(", .word "forKey", .symbol ":", .symbol "."] :=
      fun _ => rfl
    have hback : Balanced "\x7b" "\x7d" [.symbol ",", .word "in", .symbol ":", .word "container",
      .symbol ",", .word "debugDescription", .symbol ":", unknownTagLiteral, .symbol ")"] :=
      fun _ => rfl
    exact hfront.append ((balanced_name hkey).append hback)

theorem balanced_taggedDecodeBodyFaces (disc : Discriminator) {fallback : Option String}
    {variants : List VariantForm} (h : ∀ variant ∈ variants, variant.IsWritable)
    (hfallback : ∀ name ∈ fallback, isIdentifier name = true) :
    Balanced "\x7b" "\x7d" (taggedDecodeBodyFaces disc fallback variants) := by
  have hkey : isIdentifier (tagKey disc) = true := isIdentifier_keyCaseName disc.field
  have hfront : Balanced "\x7b" "\x7d" [.word "let", .word "container", .symbol "=", .word "try",
      .word "decoder", .symbol ".", .word "container", .symbol "(", .word "keyedBy", .symbol ":",
      .word "CodingKeys", .symbol ".", .word "self", .symbol ")", .word "let", .word "tag",
      .symbol "=", .word "try", .word "container", .symbol ".", .word "decode", .symbol "(",
      .word "String", .symbol ".", .word "self", .symbol ",", .word "forKey", .symbol ":",
      .symbol "."] := fun _ => rfl
  have hread : Balanced "\x7b" "\x7d" (readTagFaces (tagKey disc)) :=
    hfront.append ((balanced_name hkey).append fun _ => rfl)
  have harms : Balanced "\x7b" "\x7d"
      (variants.flatMap (VariantForm.taggedDecodeArmFaces disc.style)) :=
    .flatMap fun variant hvariant => balanced_taggedDecodeArmFaces disc.style (h variant hvariant)
  have hunknown := balanced_unknownTagFaces hkey hfallback
  exact hread.append (balanced_switchFaces "tag" (by decide)
    (harms.append (.cons rfl rfl (.cons rfl rfl hunknown))))

theorem balanced_patternFaces {name : String} {bindings : List String}
    (h : isIdentifier name = true) (hbindings : ∀ binding ∈ bindings, isIdentifier binding = true) :
    Balanced "\x7b" "\x7d" (patternFaces name bindings) := by
  have hlist : Balanced "\x7b" "\x7d"
      (commaFaces (bindings.map fun binding => [.word "let", .word binding])) := by
    refine balanced_commaFaces (by decide) fun item hitem => ?_
    obtain ⟨binding, hbinding, rfl⟩ := List.mem_map.mp hitem
    exact .cons rfl rfl (balanced_name (hbindings binding hbinding))
  have hclose : Balanced "\x7b" "\x7d" [.symbol ")"] := fun _ => rfl
  have hcolon : Balanced "\x7b" "\x7d" [.symbol ":"] := fun _ => rfl
  have hpayload : Balanced "\x7b" "\x7d" (if bindings.isEmpty then [] else
      .symbol "(" :: (commaFaces (bindings.map fun binding => [.word "let", .word binding]) ++
        [.symbol ")"])) := by
    split
    · exact .nil
    · exact .cons rfl rfl (hlist.append hclose)
  exact .cons rfl rfl (.cons rfl rfl ((balanced_name h).append (hpayload.append hcolon)))

theorem balanced_encodeCallFaces {value : Face} (isOptional : Bool) {key : String}
    (hvalue : Balanced "\x7b" "\x7d" [value]) (hkey : isIdentifier key = true) :
    Balanced "\x7b" "\x7d" (encodeCallFaces value isOptional key) := by
  have hmethod := balanced_name (isIdentifier_coderMethod isOptional).2
  have hback : Balanced "\x7b" "\x7d" [.symbol ",", .word "forKey", .symbol ":", .symbol "."] :=
    fun _ => rfl
  exact .cons rfl rfl (.cons rfl rfl (.cons rfl rfl (hmethod.append (.cons rfl rfl
    (hvalue.append (hback.append ((balanced_name hkey).append fun _ => rfl)))))))

theorem balanced_fallbackEncodeFaces {name : String} (h : isIdentifier name = true) :
    Balanced "\x7b" "\x7d" (fallbackEncodeFaces name) :=
  (balanced_patternFaces h (by simp)).append fun _ => rfl

theorem balanced_taggedEncodeFaces (disc : Discriminator) {variant : VariantForm}
    (h : variant.IsWritable) : Balanced "\x7b" "\x7d" (variant.taggedEncodeFaces disc) := by
  have hpayload := h.payload
  have hpattern : Balanced "\x7b" "\x7d" (patternFaces variant.name ["payload"]) :=
    balanced_patternFaces h.name (by simp; decide)
  have htag : Balanced "\x7b" "\x7d"
      (encodeCallFaces (.quoted variant.tag) false (tagKey disc)) :=
    balanced_encodeCallFaces false (fun _ => rfl) (isIdentifier_keyCaseName disc.field)
  unfold VariantForm.taggedEncodeFaces
  cases variant.isFallback with
  | true => exact balanced_fallbackEncodeFaces h.name
  | false =>
    cases hkind : variant.payload with
    | unit => exact (balanced_patternFaces h.name (by simp)).append htag
    | wrapped type =>
      cases disc.style with
      | wrapped =>
        exact (hpattern.append htag).append (balanced_encodeCallFaces type.isOptional
          (fun _ => rfl) (isIdentifier_keyCaseName variant.tag))
      | inline => exact (hpattern.append htag).append fun _ => rfl
    | inline fields =>
      rw [hkind] at hpayload
      have hnames : Balanced "\x7b" "\x7d"
          (patternFaces variant.name (fields.map FieldForm.name)) := by
        refine balanced_patternFaces h.name fun binding hbinding => ?_
        obtain ⟨field, hfield, rfl⟩ := List.mem_map.mp hbinding
        exact (hpayload.2 field hfield).name
      have hvalues : Balanced "\x7b" "\x7d" (fields.flatMap FieldForm.encodedFaces) :=
        .flatMap fun field hfield => balanced_encodeCallFaces field.isOptional
          (balanced_name (hpayload.2 field hfield).name) (hpayload.2 field hfield).name
      exact (hnames.append htag).append hvalues

theorem balanced_attemptFaces {variant : VariantForm} (h : variant.IsWritable) :
    Balanced "\x7b" "\x7d" variant.attemptFaces := by
  have hpayload := h.payload
  have hassign := balanced_assignFaces h.name
  have hreturn : Balanced "\x7b" "\x7d" [.word "return"] := fun _ => rfl
  have hnull : Balanced "\x7b" "\x7d" ([.word "if", .word "container", .symbol ".",
      .word "decodeNil", .symbol "(", .symbol ")", .symbol "\x7b"] ++ assignFaces variant.name ++
        [.word "return", .symbol "\x7d"]) := by
    have hfront : Balanced "\x7b" "\x7d" [.word "if", .word "container", .symbol ".",
      .word "decodeNil", .symbol "(", .symbol ")"] := fun _ => rfl
    have hblock : Balanced "\x7b" "\x7d" (.symbol "\x7b" ::
        ((assignFaces variant.name ++ [.word "return"]) ++ [.symbol "\x7d"])) :=
      (hassign.append hreturn).group rfl rfl rfl
    have hwhole := hfront.append hblock
    simpa using hwhole
  unfold VariantForm.attemptFaces
  cases variant.isFallback with
  | true => exact .nil
  | false =>
    cases hkind : variant.payload with
    | unit => exact hnull
    | inline fields => exact hnull
    | wrapped type =>
      rw [hkind] at hpayload
      have hfront : Balanced "\x7b" "\x7d" [.word "if", .word "let", .word "value", .symbol "=",
        .word "try", .symbol "?", .word "container", .symbol ".", .word "decode", .symbol "("] :=
        fun _ => rfl
      have htype : Balanced "\x7b" "\x7d" (typeFaces type) :=
        balanced_typeFaces hpayload (by decide)
      have hself : Balanced "\x7b" "\x7d" [.symbol ".", .word "self", .symbol ")"] := fun _ => rfl
      have hvalue : Balanced "\x7b" "\x7d" [.symbol "(", .word "value", .symbol ")"] :=
        fun _ => rfl
      have hblock : Balanced "\x7b" "\x7d" (.symbol "\x7b" ::
          ((assignFaces variant.name ++ [.symbol "(", .word "value", .symbol ")"] ++
            [.word "return"]) ++ [.symbol "\x7d"])) :=
        ((hassign.append hvalue).append hreturn).group rfl rfl rfl
      have hwhole := ((hfront.append htype).append hself).append hblock
      simpa using hwhole

theorem balanced_noMatchFaces (typeName : String) {fallback : Option String}
    (hfallback : ∀ name ∈ fallback, isIdentifier name = true) :
    Balanced "\x7b" "\x7d" (noMatchFaces typeName fallback) := by
  cases fallback with
  | some name => exact balanced_assignFaces (hfallback name rfl)
  | none => exact fun _ => rfl

theorem balanced_untaggedEncodeFaces {variant : VariantForm}
    (h : isIdentifier variant.name = true) :
    Balanced "\x7b" "\x7d" variant.untaggedEncodeFaces := by
  unfold VariantForm.untaggedEncodeFaces
  cases variant.isFallback with
  | true => exact balanced_fallbackEncodeFaces h
  | false =>
    cases variant.payload with
    | unit => exact (balanced_patternFaces h (by simp)).append fun _ => rfl
    | inline fields => exact (balanced_patternFaces h (by simp)).append fun _ => rfl
    | wrapped type => exact (balanced_patternFaces h (by simp; decide)).append fun _ => rfl

theorem balanced_encodeBodyFaces {container arms : List Face}
    (hcontainer : Balanced "\x7b" "\x7d" container) (harms : Balanced "\x7b" "\x7d" arms) :
    Balanced "\x7b" "\x7d" (encodeBodyFaces container arms) := by
  have hfront : Balanced "\x7b" "\x7d" [.word "var", .word "container", .symbol "=",
    .word "encoder", .symbol "."] := fun _ => rfl
  exact (hfront.append hcontainer).append (balanced_switchFaces "self" (by decide) harms)

/-! ## Bodies -/

def unionDecodeFaces (typeName : String) (d : UnionDef) (variants : List VariantForm) :
    List Face :=
  match d.discriminator with
  | some disc => taggedDecodeBodyFaces disc d.fallbackVariant variants
  | none =>
    [.word "let", .word "container", .symbol "=", .word "try", .word "decoder", .symbol ".",
      .word "singleValueContainer", .symbol "(", .symbol ")"] ++
      variants.flatMap VariantForm.attemptFaces ++ noMatchFaces typeName d.fallbackVariant

def unionEncodeFaces (d : UnionDef) (variants : List VariantForm) : List Face :=
  match d.discriminator with
  | some disc =>
    encodeBodyFaces keyedContainerFaces (variants.flatMap (VariantForm.taggedEncodeFaces disc))
  | none =>
    encodeBodyFaces singleContainerFaces (variants.flatMap VariantForm.untaggedEncodeFaces)

def coderFaces (typeName : String) (d : UnionDef) (variants : List VariantForm) : List Face :=
  (if d.direction.allowsDecode then
    initFaces [] decoderParameterFaces true (unionDecodeFaces typeName d variants) else []) ++
  (if d.direction.allowsEncode then
    funcFaces [] "encode" encoderParameterFaces true (unionEncodeFaces d variants) else [])

/-- What a union with a discriminator declares besides its cases and its functions. -/
def keysAndTagFaces (d : UnionDef) (variants : List VariantForm) : List Face :=
  match d.discriminator with
  | some disc => codingKeyFaces (unionKeys disc variants) ++ wireTagFaces variants
  | none => []

def unionBodyFaces (typeName : String) (d : UnionDef) (variants : List VariantForm) :
    List Face :=
  variants.flatMap VariantForm.caseFaces ++
    (keysAndTagFaces d variants ++ coderFaces typeName d variants)

theorem isIdentifier_of_mem_firstKeys {keys : List (String × String)}
    (h : ∀ key ∈ keys, isIdentifier key.1 = true) (seen : List String) :
    ∀ key ∈ firstKeys seen keys, isIdentifier key.1 = true := by
  fun_induction firstKeys seen keys with
  | case1 => exact fun _ hkey => absurd hkey List.not_mem_nil
  | case2 seen key later _ ih => exact ih fun other hother => h other (List.mem_cons_of_mem _ hother)
  | case3 seen key later _ ih =>
    intro other hother
    rcases List.mem_cons.mp hother with rfl | hother
    · exact h _ List.mem_cons_self
    · exact ih (fun next hnext => h next (List.mem_cons_of_mem _ hnext)) other hother

theorem isIdentifier_of_mem_unionKeys (disc : Discriminator) {variants : List VariantForm}
    (h : ∀ variant ∈ variants, variant.IsWritable) :
    ∀ key ∈ unionKeys disc variants, isIdentifier key.1 = true := by
  refine isIdentifier_of_mem_firstKeys (fun key hkey => ?_) []
  rcases List.mem_cons.mp hkey with rfl | hkey
  · exact isIdentifier_keyCaseName disc.field
  · obtain ⟨variant, hvariant, hmem⟩ := List.mem_flatMap.mp hkey
    have hpayload := (h variant hvariant).payload
    unfold payloadKeys at hmem
    split at hmem
    · cases hmem
    · split at hmem
      · cases List.mem_singleton.mp hmem
        exact isIdentifier_keyCaseName variant.tag
      · next fields hfields =>
        rw [hfields] at hpayload
        obtain ⟨field, hfield, rfl⟩ := List.mem_map.mp hmem
        exact (hpayload.2 field hfield).name
      · cases hmem

/-- A union whose names and types can be written. -/
structure IsWritableUnion (typeName : String) (d : UnionDef) (variants : List VariantForm) :
    Prop where
  name : isIdentifier typeName = true
  variants : ∀ variant ∈ variants, variant.IsWritable
  fallback : ∀ name ∈ d.fallbackVariant, isIdentifier name = true

section

variable {typeName : String} {d : UnionDef} {variants : List VariantForm}

theorem spellsLines_taggedBody (h : IsWritableUnion typeName d variants) {disc : Discriminator}
    (hdisc : d.discriminator = some disc) :
    SpellsLines (taggedBody d disc variants)
      (keysAndTagFaces d variants ++ coderFaces typeName d variants) := by
  have hkeys := spellsLines_codingKeyLines (isIdentifier_of_mem_unionKeys disc h.variants)
  have htags := spellsLines_wireTagLines fun variant hvariant => (h.variants variant hvariant).name
  have hdecoder := spellsLines_taggedDecoderLines disc h.variants h.fallback
  have harms := SpellsLines.flatMap fun variant hvariant =>
    spellsLines_taggedEncodeArm disc (h.variants variant hvariant)
  have hkeyed : Spells breaksSymbol "container(keyedBy: CodingKeys.self)" keyedContainerFaces :=
    spells_constant rfl rfl
  have hencoder := spellsLines_encoderLines hkeyed rfl harms
  have hdecoders : SpellsLines
      (if d.direction.allowsDecode then taggedDecoderLines disc d.fallbackVariant variants else [])
      (if d.direction.allowsDecode then
        initFaces [] decoderParameterFaces true (unionDecodeFaces typeName d variants) else []) := by
    rw [unionDecodeFaces, hdisc]
    split
    · exact hdecoder
    · exact .nil
  have hencoders : SpellsLines
      (if d.direction.allowsEncode then
        encoderLines "container(keyedBy: CodingKeys.self)" (variants.flatMap (taggedEncodeArm disc))
        else [])
      (if d.direction.allowsEncode then
        funcFaces [] "encode" encoderParameterFaces true (unionEncodeFaces d variants) else []) := by
    rw [unionEncodeFaces, hdisc]
    split
    · exact hencoder
    · exact .nil
  have hlines := ((hkeys.append htags).append hdecoders).append hencoders
  simpa [taggedBody, keysAndTagFaces, hdisc, coderFaces] using hlines

theorem spellsLines_untaggedBody (h : IsWritableUnion typeName d variants)
    (hdisc : d.discriminator = none) :
    SpellsLines (untaggedBody typeName d variants)
      (keysAndTagFaces d variants ++ coderFaces typeName d variants) := by
  have hempty : SpellsLines [""] [] := .constant rfl
  have hopen : SpellsLines ["    public init(from decoder: Decoder) throws \x7b"]
      [.word "public", .word "init", .symbol "(", .word "from", .word "decoder", .symbol ":",
        .word "Decoder", .symbol ")", .word "throws", .symbol "\x7b"] := .constant rfl
  have hcontainer : SpellsLines ["        let container = try decoder.singleValueContainer()"]
      [.word "let", .word "container", .symbol "=", .word "try", .word "decoder", .symbol ".",
        .word "singleValueContainer", .symbol "(", .symbol ")"] := .constant rfl
  have hattempts := SpellsLines.flatMap fun variant hvariant =>
    spellsLines_untaggedAttempt (h.variants variant hvariant)
  have hclose : SpellsLines ["    \x7d"] [.symbol "\x7d"] := .constant rfl
  have hdecoder := (((((hempty.append hopen).append hcontainer).append hattempts).append
    (spellsLines_noMatchLine h.name h.fallback)).append hclose)
  have harms := SpellsLines.flatMap fun variant hvariant =>
    spellsLines_untaggedEncodeArm (h.variants variant hvariant).name
  have hsingle : Spells breaksSymbol "singleValueContainer()" singleContainerFaces :=
    spells_constant rfl rfl
  have hencoder := spellsLines_encoderLines hsingle rfl harms
  have hdecoders : SpellsLines
      (if d.direction.allowsDecode then
        singleValueDecoder (variants.flatMap untaggedAttempt ++ [noMatchLine typeName d.fallbackVariant])
        else [])
      (if d.direction.allowsDecode then
        initFaces [] decoderParameterFaces true (unionDecodeFaces typeName d variants) else []) := by
    rw [unionDecodeFaces, hdisc]
    split
    · simpa [singleValueDecoder, initFaces, headingFaces, signatureFaces, effectFaces,
        decoderParameterFaces] using hdecoder
    · exact .nil
  have hencoders : SpellsLines
      (if d.direction.allowsEncode then
        encoderLines "singleValueContainer()" (variants.flatMap untaggedEncodeArm) else [])
      (if d.direction.allowsEncode then
        funcFaces [] "encode" encoderParameterFaces true (unionEncodeFaces d variants) else []) := by
    rw [unionEncodeFaces, hdisc]
    split
    · exact hencoder
    · exact .nil
  have hlines := hdecoders.append hencoders
  simpa [untaggedBody, keysAndTagFaces, hdisc, coderFaces] using hlines

theorem spellsLines_unionBody (h : IsWritableUnion typeName d variants) :
    SpellsLines (unionBody typeName d variants)
      (keysAndTagFaces d variants ++ coderFaces typeName d variants) := by
  unfold unionBody
  split
  · next disc hdisc => exact spellsLines_taggedBody h hdisc
  · next hdisc => exact spellsLines_untaggedBody h hdisc

theorem balanced_unionDecodeFaces (h : IsWritableUnion typeName d variants) :
    Balanced "\x7b" "\x7d" (unionDecodeFaces typeName d variants) := by
  unfold unionDecodeFaces
  split
  · next disc _ => exact balanced_taggedDecodeBodyFaces disc h.variants h.fallback
  · have hfront : Balanced "\x7b" "\x7d" [.word "let", .word "container", .symbol "=",
      .word "try", .word "decoder", .symbol ".", .word "singleValueContainer", .symbol "(",
      .symbol ")"] := fun _ => rfl
    have hattempts : Balanced "\x7b" "\x7d" (variants.flatMap VariantForm.attemptFaces) :=
      .flatMap fun variant hvariant => balanced_attemptFaces (h.variants variant hvariant)
    exact (hfront.append hattempts).append (balanced_noMatchFaces typeName h.fallback)

theorem balanced_unionEncodeFaces (h : IsWritableUnion typeName d variants) :
    Balanced "\x7b" "\x7d" (unionEncodeFaces d variants) := by
  unfold unionEncodeFaces
  split
  · next disc _ =>
    exact balanced_encodeBodyFaces (fun _ => rfl) (.flatMap fun variant hvariant =>
      balanced_taggedEncodeFaces disc (h.variants variant hvariant))
  · exact balanced_encodeBodyFaces (fun _ => rfl) (.flatMap fun variant hvariant =>
      balanced_untaggedEncodeFaces (h.variants variant hvariant).name)

/-! ## What a union declares -/

def VariantForm.enumCase (variant : VariantForm) : EnumCase :=
  Swift.enumCase (docTexts variant.doc) variant.name variant.payload.values none

def wireTagDecl : PropertyDecl :=
  propertyDecl ["Wire tag of this case."] false true "wireTag" (.optional (.primitive .string))

def coderOutlines (typeName : String) (d : UnionDef) (variants : List VariantForm) :
    List FunctionOutline :=
  (if d.direction.allowsDecode then
    [⟨"init", some "from", unionDecodeFaces typeName d variants⟩] else []) ++
  (if d.direction.allowsEncode then
    [⟨"encode", some "to", unionEncodeFaces d variants⟩] else [])

def unionOutline (typeName : String) (d : UnionDef) (variants : List VariantForm) : Outline where
  properties := if d.discriminator.isSome then [wireTagDecl] else []
  cases := variants.map VariantForm.enumCase
  functions := coderOutlines typeName d variants
  types := d.discriminator.toList.map fun disc =>
    ("CodingKeys", stringCases (unionKeys disc variants))

theorem isWritableValue_of_mem_values {variant : VariantForm} (h : variant.IsWritable) :
    ∀ value ∈ variant.payload.values, IsWritableValue value := by
  have hpayload := h.payload
  intro value hvalue
  cases hkind : variant.payload with
  | unit =>
    rw [hkind] at hvalue
    cases hvalue
  | wrapped type =>
    rw [hkind] at hvalue hpayload
    cases List.mem_singleton.mp hvalue
    exact ⟨hpayload, nofun⟩
  | inline fields =>
    rw [hkind] at hvalue hpayload
    obtain ⟨field, hfield, rfl⟩ := List.mem_map.mp hvalue
    refine ⟨(hpayload.2 field hfield).type, fun label hlabel => ?_⟩
    cases hlabel
    exact (hpayload.2 field hfield).name

theorem readsBody_coderFaces (h : IsWritableUnion typeName d variants) :
    ReadsBody (coderFaces typeName d variants)
      ⟨[], [], coderOutlines typeName d variants, []⟩ := by
  have hinit : ReadsBody (initFaces [] decoderParameterFaces true
      (unionDecodeFaces typeName d variants)) (.ofFunction ⟨"init", some "from", _⟩) :=
    readsBody_init [] true (fun _ => rfl) (balanced_unionDecodeFaces h)
  have hfunc : ReadsBody (funcFaces [] "encode" encoderParameterFaces true
      (unionEncodeFaces d variants)) (.ofFunction ⟨"encode", some "to", _⟩) :=
    readsBody_func [] "encode" true (fun _ => rfl) (balanced_unionEncodeFaces h)
  unfold coderFaces coderOutlines
  cases d.direction.allowsDecode with
  | false =>
    cases d.direction.allowsEncode with
    | false => exact .nil
    | true => exact hfunc
  | true =>
    cases d.direction.allowsEncode with
    | false =>
      have hbody := hinit.append .nil (.inl rfl)
      exact hbody
    | true =>
      have hbody := hinit.append hfunc (.inr rfl)
      exact hbody

theorem startsItem_coderFaces (typeName : String) (d : UnionDef) (variants : List VariantForm) :
    coderFaces typeName d variants = [] ∨
      (coderFaces typeName d variants).head?.any startsItem = true := by
  unfold coderFaces
  cases d.direction <;> exact .inr rfl

theorem readsBody_wireTagFaces (h : IsWritableUnion typeName d variants) :
    ReadsBody (wireTagFaces variants) (.ofProperty wireTagDecl) := by
  have harms : Balanced "\x7b" "\x7d" (variants.flatMap VariantForm.tagFaces) :=
    .flatMap fun variant hvariant => balanced_tagFaces (h.variants variant hvariant).name
  exact readsBody_computed ["Wire tag of this case."] (by decide) ⟨trivial, rfl⟩
    (balanced_switchFaces "self" (by decide) harms) rfl

theorem readsBody_unionBodyFaces (h : IsWritableUnion typeName d variants) :
    ReadsBody (unionBodyFaces typeName d variants) (unionOutline typeName d variants) := by
  have hcases : ReadsBody (variants.flatMap VariantForm.caseFaces)
      (.flatten (variants.map fun variant => .ofCases [variant.enumCase])) :=
    .flatMap
      (fun variant hvariant => readsBody_case (docTexts variant.doc) variant.name none
        (isWritableValue_of_mem_values (h.variants variant hvariant)))
      (fun variant _ => head?_headingFaces_startsItem (.inr rfl) _)
  rw [Outline.flatten_ofCases] at hcases
  have hcoders := readsBody_coderFaces h
  have hstart := startsItem_coderFaces typeName d variants
  unfold unionBodyFaces keysAndTagFaces unionOutline
  cases d.discriminator with
  | none =>
    have hbody := hcases.append hcoders hstart
    simpa [Outline.append_eq, Outline.ofCases] using hbody
  | some disc =>
    have htag := (readsBody_wireTagFaces h).append hcoders hstart
    have hkeys := (readsBody_codingKeyFaces (unionKeys disc variants)).append htag (.inr rfl)
    have hbody := hcases.append hkeys (.inr rfl)
    simpa [Outline.append_eq, Outline.ofCases, Outline.ofType, Outline.ofProperty] using hbody

end

/-! ## Literals -/

def literalProtocol : LiteralSugar → String
  | .string => "ExpressibleByStringLiteral"
  | .array => "ExpressibleByArrayLiteral"

def literalParameterFaces (type : TypeExpr) : LiteralSugar → List Face
  | .string => [.word "stringLiteral", .word "value", .symbol ":", .word "String"]
  | .array =>
    [.word "arrayLiteral", .word "elements", .symbol ":"] ++ typeFaces (elementType type) ++
      [.symbol "..."]

def literalArgument : LiteralSugar → String
  | .string => "value"
  | .array => "elements"

def literalBodyFaces (name : String) (kind : LiteralSugar) : List Face :=
  assignFaces name ++ [.symbol "(", .word (literalArgument kind), .symbol ")"]

def VariantForm.literalFaces (typeName : String) (variant : VariantForm) : List Face :=
  match variant.literal, variant.payload with
  | some kind, .wrapped type =>
    extensionFaces typeName [.custom (literalProtocol kind)]
      (initFaces [] (literalParameterFaces type kind) false (literalBodyFaces variant.name kind))
  | _, _ => []

def VariantForm.literalOutlines (typeName : String) (variant : VariantForm) : List DeclOutline :=
  match variant.literal, variant.payload with
  | some kind, .wrapped type =>
    [.extension ⟨typeName, .start, [literalProtocol kind]⟩
      (.ofFunction ⟨"init", firstLabelOf (literalParameterFaces type kind),
        literalBodyFaces variant.name kind⟩)]
  | _, _ => []

theorem isWritable_elementType {t : TypeExpr} (h : IsWritable t) : IsWritable (elementType t) := by
  cases t with
  | list t => exact h
  | primitive | map | optional | custom => exact h

theorem spells_ellipsis (next : Char → Bool) : Spells next "..." [.symbol "..."] :=
  spells_lexeme .symbol (fun _ _ => rfl) rfl

theorem commaFaces_literalProtocol (kind : LiteralSugar) :
    commaFaces ([.custom (literalProtocol kind)].map typeFaces) = [.word (literalProtocol kind)] := by
  cases kind <;> decide

/-- The extension for a literal, with the line that its initializer starts with. -/
theorem spellsLines_literalExtension {typeName name : String} (htype : isIdentifier typeName = true)
    (hname : isIdentifier name = true) (kind : LiteralSugar) {opening : String}
    {parameters : List Face}
    (hopening : SpellsLines [opening] (.word "public" :: .word "init" :: .symbol "(" ::
      (parameters ++ [.symbol ")", .symbol "\x7b"]))) :
    SpellsLines
      ["", "extension " ++ typeName ++ (": " ++ literalProtocol kind ++ " \x7b"), opening,
        "        self = ." ++ identifier name ++ ("(" ++ literalArgument kind ++ ")"),
        "    \x7d", "\x7d"]
      (extensionFaces typeName [.custom (literalProtocol kind)]
        (initFaces [] parameters false (literalBodyFaces name kind))) := by
  have hempty : SpellsLines [""] [] := .constant rfl
  have hextension : Spells breaksSymbol "extension " [.word "extension"] := spells_constant rfl rfl
  have hheader : SpellsLines ["extension " ++ typeName ++ (": " ++ literalProtocol kind ++ " \x7b")]
      [.word "extension", .word typeName, .symbol ":", .word (literalProtocol kind),
        .symbol "\x7b"] := by
    cases kind <;> exact ((hextension.name htype).piece _ _ ⟨rfl, rfl, rfl⟩).line rfl
  have hself : Spells breaksSymbol "        self = ."
      [.word "self", .symbol "=", .symbol "."] := spells_constant rfl rfl
  have hvalue : SpellsLines
      ["        self = ." ++ identifier name ++ ("(" ++ literalArgument kind ++ ")")]
      [.word "self", .symbol "=", .symbol ".", .word name, .symbol "(",
        .word (literalArgument kind), .symbol ")"] := by
    cases kind <;> exact ((hself.identifier hname).piece _ _ ⟨rfl, rfl, rfl⟩).line rfl
  have hinit : SpellsLines ["    \x7d"] [.symbol "\x7d"] := .constant rfl
  have hbody : SpellsLines ["\x7d"] [.symbol "\x7d"] := .constant rfl
  have hlines := ((((hempty.append hheader).append hopening).append hvalue).append hinit).append hbody
  rw [extensionFaces, bodyFaces, commaFaces_literalProtocol]
  simpa [headingFaces, initFaces, signatureFaces, effectFaces, literalBodyFaces, assignFaces] using
    hlines

theorem spellsLines_literalLines {typeName : String} (hname : isIdentifier typeName = true)
    {variant : VariantForm} (h : variant.IsWritable) :
    SpellsLines (literalLines typeName variant) (variant.literalFaces typeName) := by
  have hpayload := h.payload
  unfold literalLines VariantForm.literalFaces
  cases variant.literal with
  | none => exact .nil
  | some kind =>
    cases hkind : variant.payload with
    | unit => cases kind <;> exact .nil
    | inline fields => cases kind <;> exact .nil
    | wrapped type =>
      rw [hkind] at hpayload
      cases kind with
      | string =>
        have hopening : SpellsLines ["    public init(stringLiteral value: String) \x7b"]
            [.word "public", .word "init", .symbol "(", .word "stringLiteral", .word "value",
              .symbol ":", .word "String", .symbol ")", .symbol "\x7b"] := .constant rfl
        exact spellsLines_literalExtension hname h.name .string hopening
      | array =>
        have hopen : Spells breaksSymbol "    public init(arrayLiteral elements: "
            [.word "public", .word "init", .symbol "(", .word "arrayLiteral", .word "elements",
              .symbol ":"] := spells_constant rfl rfl
        have hparen : Spells breaksSymbol ") \x7b" [.symbol ")", .symbol "\x7b"] :=
          spells_constant rfl rfl
        have hend : Spells breaksSymbol "...) \x7b" [.symbol "...", .symbol ")", .symbol "\x7b"] :=
          (spells_ellipsis breaksSymbol).append hparen rfl
        have hline := ((hopen.type (isWritable_elementType hpayload)).append hend rfl).line rfl
        refine spellsLines_literalExtension hname h.name .array ?_
        simpa [literalParameterFaces] using hline

/-- An extension for a literal is one declaration. -/
theorem readsSource_literalFaces (typeName : String) {variant : VariantForm}
    (h : variant.IsWritable) :
    ReadsSource (variant.literalFaces typeName) (variant.literalOutlines typeName) := by
  have hpayload := h.payload
  unfold VariantForm.literalFaces VariantForm.literalOutlines
  cases variant.literal with
  | none => exact .nil
  | some kind =>
    cases hkind : variant.payload with
    | unit => exact .nil
    | inline fields => exact .nil
    | wrapped type =>
      rw [hkind] at hpayload
      have hparameters : Balanced "(" ")" (literalParameterFaces type kind) := by
        cases kind with
        | string => exact fun _ => rfl
        | array =>
          have helements : Balanced "(" ")" (typeFaces (elementType type)) :=
            balanced_typeFaces (isWritable_elementType hpayload) (by decide)
          exact .cons rfl rfl (.cons rfl rfl (.cons rfl rfl (helements.append fun _ => rfl)))
      have hbody : Balanced "\x7b" "\x7d" (literalBodyFaces variant.name kind) := by
        refine (balanced_assignFaces h.name).append ?_
        cases kind <;> exact fun _ => rfl
      have hprotocol : StandsAlone (.custom (literalProtocol kind)) := by
        cases kind <;> exact standsAlone_custom (by decide) (by decide)
      exact readsSource_extension (List.cons_ne_nil _ _)
        (fun t ht => by rw [List.mem_singleton.mp ht]; exact hprotocol)
        (readsBody_init [] false hparameters hbody)

/-! ## Unions -/

def unionFaces (typeName : String) (d : UnionDef) (variants : List VariantForm) : List Face :=
  typeDeclFaces (docTexts d.doc) .enum typeName (conformances d.direction)
      (unionBodyFaces typeName d variants) ++
    variants.flatMap (VariantForm.literalFaces typeName)

def unionOutlines (typeName : String) (d : UnionDef) (variants : List VariantForm) :
    List DeclOutline :=
  .type (typeHeader (docTexts d.doc) .enum typeName (conformances d.direction))
      (unionOutline typeName d variants) ::
    variants.flatMap (VariantForm.literalOutlines typeName)

theorem spellsLines_unionLines {typeName : String} {d : UnionDef} {variants : List VariantForm}
    (h : IsWritableUnion typeName d variants) :
    SpellsLines (docLines "" d.doc ++
      ["public enum " ++ typeName ++ ": " ++ conformance d.direction ++ ", Sendable \x7b"] ++
      variants.flatMap caseLines ++ unionBody typeName d variants ++ ["\x7d"] ++
      variants.flatMap (literalLines typeName)) (unionFaces typeName d variants) := by
  have hdocs : SpellsLines (docLines "" d.doc) _ := spellsLines_docLines rfl d.doc
  have henum : Spells breaksSymbol "public enum " [.word "public", .word "enum"] :=
    spells_constant rfl rfl
  have hnamed := (henum.name h.name).piece ": " [.symbol ":"] (.ofList rfl rfl rfl)
  have hheader := (hnamed.append (spells_conformances d.direction)
    (head?_conformances d.direction)).line rfl
  have hcases := SpellsLines.flatMap fun variant hvariant =>
    spellsLines_caseLines (h.variants variant hvariant)
  have hclose : SpellsLines ["\x7d"] [.symbol "\x7d"] := .constant rfl
  have hliterals := SpellsLines.flatMap fun variant hvariant =>
    spellsLines_literalLines h.name (h.variants variant hvariant)
  have hlines := ((((hdocs.append hheader).append hcases).append (spellsLines_unionBody h)).append
    hclose).append hliterals
  rw [unionFaces, typeDeclFaces, bodyFaces, commaFaces_conformances]
  simpa [unionBodyFaces, headingFaces, DeclKind.keyword, String.append_assoc] using hlines

theorem endsType_head?_literalFaces (typeName : String) (variants : List VariantForm) :
    (variants.flatMap (VariantForm.literalFaces typeName)).head?.all
      (fun face => endsType (face.token .start)) = true := by
  induction variants with
  | nil => rfl
  | cons variant later ih =>
    rw [List.flatMap_cons, VariantForm.literalFaces]
    split
    · rfl
    · exact ih

/-- A generated union is one declaration, and an extension for each literal. -/
theorem readsSource_unionFaces {typeName : String} {d : UnionDef} {variants : List VariantForm}
    (h : IsWritableUnion typeName d variants) :
    ReadsSource (unionFaces typeName d variants) (unionOutlines typeName d variants) := by
  have hdecl : ReadsSource (typeDeclFaces (docTexts d.doc) .enum typeName (conformances d.direction)
      (unionBodyFaces typeName d variants)) _ :=
    readsSource_type (docTexts d.doc) typeName (by decide) (by simp [conformances])
      standsAlone_of_mem_conformances (readsBody_unionBodyFaces h)
  have hliterals : ReadsSource (variants.flatMap (VariantForm.literalFaces typeName))
      (variants.flatMap (VariantForm.literalOutlines typeName)) := by
    have hvariants := h.variants
    clear h hdecl
    induction variants with
    | nil => exact .nil
    | cons variant later ih =>
      have hlater := ih fun other hother => hvariants other (List.mem_cons_of_mem _ hother)
      exact (readsSource_literalFaces typeName (hvariants variant List.mem_cons_self)).append
        hlater (endsType_head?_literalFaces typeName later)
  exact hdecl.append hliterals (endsType_head?_literalFaces typeName variants)

end WireSchema.Generation
