import WireSchema.Proofs.Generation.DeclarationSites

/-!
# Names in the code of unions

The names in the code of a union: its cases with their payloads, its coding keys, the patterns
and bindings of its coders with the calls in their arms, and its extensions.
-/

namespace WireSchema.Generation

open Swift (stringLiteral)
open Text (keyCaseName)

/-! ## Cases of unions -/

def PayloadForm.sites : PayloadForm → List NameSite
  | .unit => []
  | .wrapped type => typeSites type
  | .inline fields => fields.flatMap FieldForm.sites

theorem codeRow_labeledValue (field : FieldForm) : CodeRow (labeledValue field) field.sites :=
  ((CodeRow.ofMember field.name).phrase ": " (by simp [phrases])).type field.type

theorem codeRow_payloadText (payload : PayloadForm) :
    CodeRow (payloadText payload) payload.sites := by
  have hopen := CodeRow.start "(" (by simp [phrases])
  cases payload with
  | unit => exact .empty
  | wrapped type => exact (hopen.type type).phrase ")" (by simp [phrases])
  | inline fields =>
    exact (hopen.items fields fun field _ => codeRow_labeledValue field).phrase ")"
      (by simp [phrases])

def VariantForm.caseSites (variant : VariantForm) : List NameSite :=
  memberSite variant.name :: variant.payload.sites

theorem codeLines_caseLines (variant : VariantForm) :
    CodeLines (caseLines variant) variant.caseSites := by
  have hcase := ((CodeRow.start "    case " (by simp [phrases])).member variant.name).append
    (codeRow_payloadText variant.payload)
  exact (CodeLines.docs "    " (by decide) variant.doc).append hcase.line

/-! ## Coders of unions -/

theorem customNames_unwrapOptional (t : TypeExpr) : t.unwrapOptional.customNames = t.customNames := by
  cases t <;> rfl

def decodedSites (type : TypeExpr) (key : String) : List NameSite :=
  typeSites type ++ [memberSite key]

theorem CodeRow.decodeCall {row : String} {sites : List NameSite} (h : CodeRow row sites)
    (type : TypeExpr) (key : String) :
    CodeRow (row ++ Generation.decodeCall type key) (sites ++ decodedSites type key) := by
  have hmethod : coderMethod "decode" type.isOptional ∈ phrases := by
    cases type.isOptional <;> simp [coderMethod, phrases]
  have hopen := ((CodeRow.start "try container." (by simp [phrases])).phrase _ hmethod).phrase "("
    (by simp [phrases])
  have htype := hopen.type type.unwrapOptional
  rw [typeSites, customNames_unwrapOptional] at htype
  exact h.append (((htype.phrase ".self, forKey: ." (by simp [phrases])).member key).phrase ")"
    (by simp [phrases]))

theorem codeRow_encodeLine {value : String} {sites : List NameSite} (hvalue : CodeRow value sites)
    (isOptional : Bool) (key : String) :
    CodeRow (encodeLine value isOptional key) (sites ++ [memberSite key]) := by
  have hmethod : coderMethod "encode" isOptional ∈ phrases := by
    cases isOptional <;> simp [coderMethod, phrases]
  have hopen := ((CodeRow.start "try container." (by simp [phrases])).phrase _ hmethod).phrase "("
    (by simp [phrases])
  have hcall := (((hopen.append hvalue).phrase ", forKey: ." (by simp [phrases])).member key).phrase
    ")" (by simp [phrases])
  exact (CodeRow.start "            " (by simp [phrases])).append hcall

theorem codeLines_fallbackEncodeArm (name : String) :
    CodeLines (fallbackEncodeArm name) [memberSite name] := by
  have hpattern := ((CodeRow.start "        case ." (by simp [phrases])).member name).phrase ":"
    (by simp [phrases])
  have hthrow := (CodeRow.start
    "            throw EncodingError.invalidValue(self, EncodingError.Context(codingPath: "
    (by simp [phrases])).phrase
    "encoder.codingPath, debugDescription: \"An unknown variant cannot be encoded\"))"
    (by simp [phrases])
  exact hpattern.line.append hthrow.line

theorem codeLines_encoderLines {container : String} (hcontainer : container ∈ phrases)
    {arms : List String} {sites : List NameSite} (harms : CodeLines arms sites) :
    CodeLines (encoderLines container arms) sites := by
  have hopen := CodeLines.ofPhrases ["", "    public func encode(to encoder: Encoder) throws \x7b"]
    (by simp [phrases])
  have hcontainer := (CodeRow.start "        var container = encoder." (by simp [phrases])).phrase
    container hcontainer
  have hswitch := (hopen.append hcontainer.line).phrases ["        switch self \x7b"]
    (by simp [phrases])
  exact (hswitch.append harms).phrases ["        \x7d", "    \x7d"] (by simp [phrases])

/-! ## With a discriminator -/

theorem codeLines_wireTagLines (variants : List VariantForm) :
    CodeLines (wireTagLines variants) (variants.map fun variant => memberSite variant.name) := by
  have hopen := CodeLines.ofPhrases ["", "    /// Wire tag of this case.",
    "    public var wireTag: String? \x7b", "        switch self \x7b"] (by simp [phrases])
  have harms : ∀ variant ∈ variants, CodeRow ("        case ." ++ identifier variant.name ++
      ": return " ++ (if variant.isFallback then "nil" else stringLiteral variant.tag))
      [memberSite variant.name] := by
    intro variant _
    have hpattern := ((CodeRow.start "        case ." (by simp [phrases])).member
      variant.name).phrase ": return " (by simp [phrases])
    split
    · exact hpattern.phrase "nil" (by simp [phrases])
    · exact hpattern.literal variant.tag
  exact (hopen.append (.mapMembers variants harms)).phrases ["        \x7d", "    \x7d"]
    (by simp [phrases])

def FieldForm.decodedSites (field : FieldForm) : List NameSite :=
  memberSite field.name :: Generation.decodedSites field.type field.name

theorem codeRow_decodedArgument (field : FieldForm) :
    CodeRow (decodedArgument field) field.decodedSites :=
  (((CodeRow.start "                " (by simp [phrases])).member field.name).phrase ": "
    (by simp [phrases])).decodeCall field.type field.name

def VariantForm.decodedSites (style : DiscriminatorStyle) (variant : VariantForm) :
    List NameSite :=
  match variant.payload, style with
  | .wrapped type, .wrapped => Generation.decodedSites type (keyCaseName variant.tag)
  | .wrapped type, .inline => typeSites type
  | .inline fields, _ => fields.flatMap FieldForm.decodedSites
  | .unit, _ => []

def VariantForm.taggedDecodeSites (style : DiscriminatorStyle) (variant : VariantForm) :
    List NameSite :=
  if variant.isFallback then [] else memberSite variant.name :: variant.decodedSites style

theorem codeLines_taggedDecodeBody (style : DiscriminatorStyle) (variant : VariantForm) :
    CodeLines (taggedDecodeBody style variant)
      (memberSite variant.name :: variant.decodedSites style) := by
  have hassign := (CodeRow.start "            self = ." (by simp [phrases])).member variant.name
  have hopen := hassign.phrase "(" (by simp [phrases])
  unfold taggedDecodeBody VariantForm.decodedSites
  cases variant.payload with
  | unit => exact hassign.line
  | wrapped type =>
    cases style with
    | wrapped =>
      exact ((hopen.decodeCall type (keyCaseName variant.tag)).phrase ")" (by simp [phrases])).line
    | inline =>
      exact (((hassign.phrase "(try " (by simp [phrases])).type type).phrase "(from: decoder))"
        (by simp [phrases])).line
  | inline fields =>
    have harguments := CodeLines.commaSeparated fields fun field _ => codeRow_decodedArgument field
    exact (hopen.line.append harguments).phrases ["            )"] (by simp [phrases])

theorem codeLines_taggedDecodeArm (style : DiscriminatorStyle) (variant : VariantForm) :
    CodeLines (taggedDecodeArm style variant) (variant.taggedDecodeSites style) := by
  unfold taggedDecodeArm VariantForm.taggedDecodeSites
  split
  · exact .nil
  · have hpattern := ((CodeRow.start "        case " (by simp [phrases])).literal
      variant.tag).phrase ":" (by simp [phrases])
    exact hpattern.line.append (codeLines_taggedDecodeBody style variant)

theorem codeRow_unknownTagLine (key : String) (fallback : Option String) :
    CodeRow (unknownTagLine key fallback) [memberSite (fallback.getD key)] := by
  cases fallback with
  | some fallback =>
    exact (CodeRow.start "            self = ." (by simp [phrases])).member fallback
  | none =>
    exact ((CodeRow.start "            throw DecodingError.dataCorruptedError(forKey: ."
      (by simp [phrases])).member key).phrase
      ", in: container, debugDescription: \"UnknownVariant(\\(tag))\")" (by simp [phrases])

def taggedDecoderSites (disc : Discriminator) (fallback : Option String)
    (variants : List VariantForm) : List NameSite :=
  memberSite (tagKey disc) :: (variants.flatMap (VariantForm.taggedDecodeSites disc.style) ++
    [memberSite (fallback.getD (tagKey disc))])

theorem codeLines_taggedDecoderLines (disc : Discriminator) (fallback : Option String)
    (variants : List VariantForm) :
    CodeLines (taggedDecoderLines disc fallback variants)
      (taggedDecoderSites disc fallback variants) := by
  have hopen := CodeLines.ofPhrases ["", "    public init(from decoder: Decoder) throws \x7b",
    "        let container = try decoder.container(keyedBy: CodingKeys.self)"] (by simp [phrases])
  have htag := ((CodeRow.start "        let tag = try container.decode(String.self, forKey: ."
    (by simp [phrases])).member (tagKey disc)).phrase ")" (by simp [phrases])
  have hswitch := (hopen.append htag.line).phrases ["        switch tag \x7b"] (by simp [phrases])
  have harms := CodeLines.flatMap variants
    fun variant _ => codeLines_taggedDecodeArm disc.style variant
  have hdefault := (hswitch.append harms).phrases ["        default:"] (by simp [phrases])
  have hclose := (hdefault.append (codeRow_unknownTagLine (tagKey disc) fallback).line).phrases
    ["        \x7d", "    \x7d"] (by simp [phrases])
  simpa [taggedDecoderLines, taggedDecoderSites] using hclose

/-- The payload of a variant where it is encoded, after the name of the variant. -/
def VariantForm.encodedSites (disc : Discriminator) (variant : VariantForm) : List NameSite :=
  match variant.payload, disc.style with
  | .wrapped _, .wrapped => [memberSite (tagKey disc), memberSite (keyCaseName variant.tag)]
  | .inline fields, _ => fields.map (fun field => memberSite field.name) ++
      memberSite (tagKey disc) :: fields.flatMap FieldForm.twice
  | _, _ => [memberSite (tagKey disc)]

def VariantForm.taggedEncodeSites (disc : Discriminator) (variant : VariantForm) :
    List NameSite :=
  memberSite variant.name :: if variant.isFallback then [] else variant.encodedSites disc

theorem codeLines_taggedEncodeArm (disc : Discriminator) (variant : VariantForm) :
    CodeLines (taggedEncodeArm disc variant) (variant.taggedEncodeSites disc) := by
  have hpattern := (CodeRow.start "        case ." (by simp [phrases])).member variant.name
  have hbound := hpattern.phrase "(let payload):" (by simp [phrases])
  have hliteral := CodeRow.empty.literal variant.tag
  rw [String.empty_append] at hliteral
  have htag := codeRow_encodeLine hliteral false (tagKey disc)
  unfold taggedEncodeArm VariantForm.taggedEncodeSites VariantForm.encodedSites
  dsimp only
  split
  · exact codeLines_fallbackEncodeArm variant.name
  · cases variant.payload with
    | unit => exact (hpattern.phrase ":" (by simp [phrases])).line.append htag.line
    | wrapped type =>
      cases disc.style with
      | wrapped =>
        have hpayload := codeRow_encodeLine (CodeRow.start "payload" (by simp [phrases]))
          type.isOptional (keyCaseName variant.tag)
        exact (hbound.line.append htag.line).append hpayload.line
      | inline =>
        exact (hbound.line.append htag.line).phrases ["            try payload.encode(to: encoder)"]
          (by simp [phrases])
    | inline fields =>
      have hbinding : ∀ field ∈ fields, CodeRow ("let " ++ identifier field.name)
          [memberSite field.name] :=
        fun field _ => (CodeRow.start "let " (by simp [phrases])).member field.name
      have hbindings := (hpattern.phrase "(" (by simp [phrases])).items fields hbinding
      have hfields : ∀ field ∈ fields, CodeRow
          (encodeLine (identifier field.name) field.isOptional field.name) field.twice :=
        fun field _ => codeRow_encodeLine (.ofMember field.name) field.isOptional field.name
      have hlines := ((hbindings.phrase "):" (by simp [phrases])).line.append htag.line).append
        (.map fields hfields)
      simpa [← List.map_eq_flatMap] using hlines

def taggedBodySites (d : UnionDef) (disc : Discriminator) (variants : List VariantForm) :
    List NameSite :=
  keySites (unionKeys disc variants) ++ variants.map (fun variant => memberSite variant.name) ++
    (if d.direction.allowsDecode then taggedDecoderSites disc d.fallbackVariant variants else []) ++
    if d.direction.allowsEncode then variants.flatMap (VariantForm.taggedEncodeSites disc) else []

theorem codeLines_taggedBody (d : UnionDef) (disc : Discriminator) (variants : List VariantForm) :
    CodeLines (taggedBody d disc variants) (taggedBodySites d disc variants) := by
  have hkeys := (codeLines_codingKeyLines (unionKeys disc variants)).append
    (codeLines_wireTagLines variants)
  have harms := CodeLines.flatMap variants fun variant _ => codeLines_taggedEncodeArm disc variant
  refine (hkeys.append ?_).append ?_
  · split
    · exact codeLines_taggedDecoderLines disc d.fallbackVariant variants
    · exact .nil
  · split
    · exact codeLines_encoderLines (by simp [phrases]) harms
    · exact .nil

/-! ## Without a discriminator -/

def VariantForm.attemptSites (variant : VariantForm) : List NameSite :=
  if variant.isFallback then []
  else
    match variant.payload with
    | .wrapped type => typeSites type ++ [memberSite variant.name]
    | _ => [memberSite variant.name]

theorem codeLines_untaggedAttempt (variant : VariantForm) :
    CodeLines (untaggedAttempt variant) variant.attemptSites := by
  have hassign := (CodeRow.start "            self = ." (by simp [phrases])).member variant.name
  have hnull := (CodeLines.ofPhrases ["        if container.decodeNil() \x7b"]
    (by simp [phrases])).append hassign.line
  unfold untaggedAttempt VariantForm.attemptSites
  dsimp only
  split
  · exact .nil
  · cases variant.payload with
    | wrapped type =>
      have hattempt := ((CodeRow.start "        if let value = try? container.decode("
        (by simp [phrases])).type type).phrase ".self) \x7b" (by simp [phrases])
      have hvalue := hassign.phrase "(value)" (by simp [phrases])
      exact (hattempt.line.append hvalue.line).phrases ["            return", "        \x7d"]
        (by simp [phrases])
    | unit => exact hnull.phrases ["            return", "        \x7d"] (by simp [phrases])
    | inline fields =>
      exact hnull.phrases ["            return", "        \x7d"] (by simp [phrases])

theorem codeRow_noMatchLine {typeName : String} (hname : Text.isIdentifier typeName = true)
    (fallback : Option String) :
    CodeRow (noMatchLine typeName fallback) (fallback.toList.map memberSite) := by
  cases fallback with
  | some fallback => exact (CodeRow.start "        self = ." (by simp [phrases])).member fallback
  | none =>
    -- The name of the type stands in a literal, where it is no name.
    have hthrow := ((CodeRow.start
      "        throw DecodingError.dataCorruptedError(in: container, debugDescription: "
      (by simp [phrases])).literal ("UnknownVariant(no case of " ++ typeName ++ " matched)")).phrase
      ")" (by simp [phrases])
    have hclose : " matched)\")" = " matched)\"" ++ ")" := by decide +kernel
    rw [stringLiteral_noMatch hname] at hthrow
    unfold noMatchLine
    rw [hclose]
    simpa only [String.append_assoc, Option.toList_none, List.map_nil] using hthrow

theorem codeLines_untaggedEncodeArm (variant : VariantForm) :
    CodeLines (untaggedEncodeArm variant) [memberSite variant.name] := by
  have hpattern := (CodeRow.start "        case ." (by simp [phrases])).member variant.name
  have hnull := (hpattern.phrase ":" (by simp [phrases])).line.phrases
    ["            try container.encodeNil()"] (by simp [phrases])
  unfold untaggedEncodeArm
  dsimp only
  split
  · exact codeLines_fallbackEncodeArm variant.name
  · cases variant.payload with
    | wrapped type =>
      exact (hpattern.phrase "(let value):" (by simp [phrases])).line.phrases
        ["            try container.encode(value)"] (by simp [phrases])
    | unit => exact hnull
    | inline fields => exact hnull

def untaggedBodySites (d : UnionDef) (variants : List VariantForm) : List NameSite :=
  (if d.direction.allowsDecode then
    variants.flatMap VariantForm.attemptSites ++ d.fallbackVariant.toList.map memberSite else []) ++
    if d.direction.allowsEncode then variants.map (fun variant => memberSite variant.name) else []

theorem codeLines_untaggedBody {typeName : String} (hname : Text.isIdentifier typeName = true)
    (d : UnionDef) (variants : List VariantForm) :
    CodeLines (untaggedBody typeName d variants) (untaggedBodySites d variants) := by
  have hattempts := CodeLines.flatMap variants fun variant _ => codeLines_untaggedAttempt variant
  have harms := CodeLines.flatMap variants fun variant _ => codeLines_untaggedEncodeArm variant
  rw [← List.map_eq_flatMap] at harms
  refine .append ?_ ?_
  · split
    · exact codeLines_singleValueDecoder
        (hattempts.append (codeRow_noMatchLine hname d.fallbackVariant).line)
    · exact .nil
  · split
    · exact codeLines_encoderLines (by simp [phrases]) harms
    · exact .nil

/-! ## Literals and whole unions -/

def VariantForm.literalSites (typeName : String) (variant : VariantForm) : List NameSite :=
  match variant.literal, variant.payload with
  | some .string, .wrapped _ => [typeSite typeName, memberSite variant.name]
  | some .array, .wrapped type =>
    typeSite typeName :: (typeSites (elementType type) ++ [memberSite variant.name])
  | _, _ => []

theorem codeLines_literalLines (typeName : String) (variant : VariantForm) :
    CodeLines (literalLines typeName variant) (variant.literalSites typeName) := by
  have hextension := (CodeRow.start "extension " (by simp [phrases])).typeName typeName
  have hassign := (CodeRow.start "        self = ." (by simp [phrases])).member variant.name
  have hempty := CodeLines.ofPhrases [""] (by simp [phrases])
  unfold literalLines VariantForm.literalSites
  cases variant.payload with
  | unit => cases variant.literal with
    | none => exact .nil
    | some sugar => cases sugar <;> exact .nil
  | inline fields => cases variant.literal with
    | none => exact .nil
    | some sugar => cases sugar <;> exact .nil
  | wrapped type =>
    cases variant.literal with
    | none => exact .nil
    | some sugar =>
      cases sugar with
      | string =>
        have hopen := (hempty.append (hextension.phrase ": ExpressibleByStringLiteral \x7b"
          (by simp [phrases])).line).phrases
          ["    public init(stringLiteral value: String) \x7b"] (by simp [phrases])
        exact (hopen.append (hassign.phrase "(value)" (by simp [phrases])).line).phrases
          ["    \x7d", "\x7d"] (by simp [phrases])
      | array =>
        have helements := ((CodeRow.start "    public init(arrayLiteral elements: "
          (by simp [phrases])).type (elementType type)).phrase "...) \x7b" (by simp [phrases])
        have hopen := (hempty.append (hextension.phrase ": ExpressibleByArrayLiteral \x7b"
          (by simp [phrases])).line).append helements.line
        have hbody := (hopen.append (hassign.phrase "(elements)" (by simp [phrases])).line).phrases
          ["    \x7d", "\x7d"] (by simp [phrases])
        simpa using hbody

def unionBodySites (d : UnionDef) (variants : List VariantForm) : List NameSite :=
  match d.discriminator with
  | some disc => taggedBodySites d disc variants
  | none => untaggedBodySites d variants

theorem codeLines_unionBody {typeName : String} (hname : Text.isIdentifier typeName = true)
    (d : UnionDef) (variants : List VariantForm) :
    CodeLines (unionBody typeName d variants) (unionBodySites d variants) := by
  unfold unionBody unionBodySites
  cases d.discriminator with
  | some disc => exact codeLines_taggedBody d disc variants
  | none => exact codeLines_untaggedBody hname d variants

def unionSites (typeName : String) (d : UnionDef) (variants : List VariantForm) : List NameSite :=
  typeSite typeName :: (variants.flatMap VariantForm.caseSites ++ unionBodySites d variants ++
    variants.flatMap (VariantForm.literalSites typeName))

theorem codeLines_union {typeName : String} (hname : Text.isIdentifier typeName = true)
    (d : UnionDef) (variants : List VariantForm) :
    CodeLines (docLines "" d.doc ++
      ["public enum " ++ typeName ++ ": " ++ conformance d.direction ++ ", Sendable \x7b"] ++
      variants.flatMap caseLines ++ unionBody typeName d variants ++ ["\x7d"] ++
      variants.flatMap (literalLines typeName)) (unionSites typeName d variants) := by
  have hheader := (((CodeRow.start "public enum " (by simp [phrases])).typeName typeName).phrase
    ": " (by simp [phrases])).conformance d.direction
  have hopen := (CodeLines.docs "" (by decide) d.doc).append
    (hheader.phrase ", Sendable \x7b" (by simp [phrases])).line
  have hcases := hopen.append (.flatMap variants fun variant _ => codeLines_caseLines variant)
  have hbody := (hcases.append (codeLines_unionBody hname d variants)).phrases ["\x7d"]
    (by simp [phrases])
  have hlines := hbody.append
    (.flatMap variants fun variant _ => codeLines_literalLines typeName variant)
  simpa [unionSites] using hlines

end WireSchema.Generation
