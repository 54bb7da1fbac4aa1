import WireSchema.Proofs.Generation.Pieces
import WireSchema.Proofs.Generation.RawEnum
import WireSchema.Proofs.Text.CamelCase

/-!
# Unions in generated code as tokens

What the lines of a union read as: its cases, the property that tells a tag, the
function that decodes and the one that encodes, and the initializers for literals.
-/

namespace WireSchema.Generation

open Swift
open Text (isIdentifier isIdentifier_keyCaseName)

/-! ## Variants whose names and types can be written -/

/-- A payload of labeled values has one at least. -/
def PayloadForm.IsWritable : PayloadForm → Prop
  | .unit => True
  | .wrapped type => Swift.IsWritable type
  | .inline fields => fields ≠ [] ∧ ∀ field ∈ fields, field.IsWritable

structure VariantForm.IsWritable (variant : VariantForm) : Prop where
  name : isIdentifier variant.name = true
  payload : variant.payload.IsWritable

theorem isWritable_unwrapOptional {t : TypeExpr} (h : IsWritable t) :
    IsWritable t.unwrapOptional := by
  cases t with
  | optional t => exact h.1
  | primitive | list | map | custom => exact h

/-! ## Cases -/

def PayloadForm.values : PayloadForm → List CaseValue
  | .unit => []
  | .wrapped type => [(none, type)]
  | .inline fields => fields.map fun field => (some field.name, field.type)

def VariantForm.caseFaces (variant : VariantForm) : List Face :=
  Swift.caseFaces (docTexts variant.doc) variant.name variant.payload.values none

theorem spells_labeledValue {field : FieldForm} (h : field.IsWritable) {row : String}
    {front : List Face} (hrow : Spells breaksSymbol row front) :
    Spells breaksWord (row ++ labeledValue field)
      (front ++ valueFaces (some field.name, field.type)) := by
  have hvalue := ((hrow.identifier h.name).piece ": " [.symbol ":"] (.ofList rfl rfl rfl)).type h.type
  simpa [labeledValue, valueFaces, String.append_assoc] using hvalue

theorem spellsLines_caseLines {variant : VariantForm} (h : variant.IsWritable) :
    SpellsLines (caseLines variant) variant.caseFaces := by
  have hdocs : SpellsLines (docLines "    " variant.doc) _ := spellsLines_docLines rfl variant.doc
  have hcase : Spells breaksSymbol "    case " [.word "case"] := spells_constant rfl rfl
  have hname := hcase.identifier h.name
  have hpayload := h.payload
  have hline : SpellsLines ["    case " ++ identifier variant.name ++ payloadText variant.payload]
      (.word "case" :: .word variant.name :: payloadFaces variant.payload.values) := by
    cases hkind : variant.payload with
    | unit =>
      rw [payloadText, String.append_empty]
      exact hname.line rfl
    | wrapped type =>
      rw [hkind] at hpayload
      have hopen := hname.piece "(" [.symbol "("] (.ofList rfl rfl rfl)
      have hline := ((hopen.type hpayload).piece ")" [.symbol ")"] (.ofList rfl rfl rfl)).line rfl
      simpa [payloadText, PayloadForm.values, payloadFaces, commaFaces, valueFaces,
        String.append_assoc] using hline
    | inline fields =>
      rw [hkind] at hpayload
      have hopen := hname.piece "(" [.symbol "("] (.ofList rfl rfl rfl)
      have hvalues := hopen.intercalate hpayload.1 fun field hfield _ _ =>
        spells_labeledValue (hpayload.2 field hfield)
      have hline := (hvalues.piece ")" [.symbol ")"] (.ofList rfl rfl rfl)).line rfl
      simpa [payloadText, PayloadForm.values, payloadFaces, hpayload.1, List.map_map,
        Function.comp_def, String.append_assoc] using hline
  have hlines := hdocs.append hline
  simpa [caseLines, VariantForm.caseFaces, Swift.caseFaces, headingFaces] using hlines

/-! ## Tags -/

/-- The body of a function that is one switch. -/
def switchFaces (subject : String) (arms : List Face) : List Face :=
  .word "switch" :: .word subject :: .symbol "\x7b" :: (arms ++ [.symbol "\x7d"])

def VariantForm.tagFaces (variant : VariantForm) : List Face :=
  .word "case" :: .symbol "." :: .word variant.name :: .symbol ":" :: .word "return" ::
    if variant.isFallback then [.word "nil"] else [.quoted variant.tag]

def wireTagFaces (variants : List VariantForm) : List Face :=
  computedFaces ["Wire tag of this case."] "wireTag" (.optional (.primitive .string))
    (switchFaces "self" (variants.flatMap VariantForm.tagFaces))

/-- The braces that close a switch and what it is the body of. -/
theorem spellsLines_closeSwitch : SpellsLines ["        \x7d", "    \x7d"]
    [.symbol "\x7d", .symbol "\x7d"] := by
  have hswitch : SpellsLines ["        \x7d"] [.symbol "\x7d"] := .constant rfl
  have hbody : SpellsLines ["    \x7d"] [.symbol "\x7d"] := .constant rfl
  exact hswitch.append hbody

theorem spellsLines_tag {variant : VariantForm} (h : isIdentifier variant.name = true) :
    SpellsLines ["        case ." ++ identifier variant.name ++ ": return " ++
      (if variant.isFallback then "nil" else stringLiteral variant.tag)] variant.tagFaces := by
  have hcase : Spells breaksSymbol "        case ." [.word "case", .symbol "."] :=
    spells_constant rfl rfl
  have hname := hcase.identifier h
  rw [VariantForm.tagFaces]
  cases variant.isFallback with
  | true =>
    have hnil : Spells (fun c => breaksSymbol c && breaksName c) ": return nil"
        [.symbol ":", .word "return", .word "nil"] := spells_constantName rfl
    have hline := (hname.append hnil rfl).line rfl
    rw [if_pos rfl, String.append_assoc]
    exact hline
  | false =>
    have hreturn := hname.piece ": return " [.symbol ":", .word "return"] (.ofList rfl rfl rfl)
    exact (hreturn.literal variant.tag).line rfl

theorem spellsLines_wireTagLines {variants : List VariantForm}
    (h : ∀ variant ∈ variants, isIdentifier variant.name = true) :
    SpellsLines (wireTagLines variants) (wireTagFaces variants) := by
  have hempty : SpellsLines [""] [] := .constant rfl
  have hdoc : SpellsLines (docLines "    " (some "Wire tag of this case."))
      ((docTexts (some "Wire tag of this case.")).map Face.doc) := spellsLines_docLines rfl _
  have hcomment : docLines "    " (some "Wire tag of this case.") =
      ["    /// Wire tag of this case."] := by decide +kernel
  have htext : docTexts (some "Wire tag of this case.") = ["Wire tag of this case."] := by
    decide +kernel
  rw [hcomment, htext] at hdoc
  have hopen : SpellsLines ["    public var wireTag: String? \x7b"]
      [.word "public", .word "var", .word "wireTag", .symbol ":", .word "String", .symbol "?",
        .symbol "\x7b"] := .constant rfl
  have hswitch : SpellsLines ["        switch self \x7b"]
      [.word "switch", .word "self", .symbol "\x7b"] := .constant rfl
  have harms := SpellsLines.map fun variant hvariant => spellsLines_tag (h variant hvariant)
  have hlines := ((((hempty.append hdoc).append hopen).append hswitch).append harms).append
    spellsLines_closeSwitch
  have htype : typeFaces (.optional (.primitive .string)) = [.word "String", .symbol "?"] := rfl
  simpa [wireTagLines, wireTagFaces, computedFaces, headingFaces, switchFaces, htype] using hlines

/-! ## Decoding with a discriminator -/

def assignFaces (name : String) : List Face :=
  [.word "self", .symbol "=", .symbol ".", .word name]

theorem spells_assign {name : String} (h : isIdentifier name = true) :
    Spells breaksWord ("            self = ." ++ identifier name) (assignFaces name) := by
  have hself : Spells breaksSymbol "            self = ."
      [.word "self", .symbol "=", .symbol "."] := spells_constant rfl rfl
  exact hself.identifier h

def decodeCallFaces (type : TypeExpr) (key : String) : List Face :=
  [.word "try", .word "container", .symbol ".", .word (coderMethod "decode" type.isOptional),
    .symbol "("] ++ typeFaces type.unwrapOptional ++
    [.symbol ".", .word "self", .symbol ",", .word "forKey", .symbol ":", .symbol ".", .word key,
      .symbol ")"]

theorem isIdentifier_coderMethod (isOptional : Bool) :
    isIdentifier (coderMethod "decode" isOptional) = true ∧
      isIdentifier (coderMethod "encode" isOptional) = true := by
  cases isOptional <;> decide

theorem spells_decodeCall {type : TypeExpr} {key : String} (htype : IsWritable type)
    (hkey : isIdentifier key = true) {row : String} {front : List Face}
    (hrow : Spells breaksSymbol row front) :
    Spells breaksSymbol (row ++ decodeCall type key) (front ++ decodeCallFaces type key) := by
  have htry : Spells breaksSymbol "try container."
      [.word "try", .word "container", .symbol "."] := spells_constant rfl rfl
  have hmethod := (hrow.append htry rfl).name (isIdentifier_coderMethod type.isOptional).1
  have hargument := (hmethod.piece "(" [.symbol "("] (.ofList rfl rfl rfl)).type
    (isWritable_unwrapOptional htype)
  have hkeyed := (hargument.piece ".self, forKey: ."
    [.symbol ".", .word "self", .symbol ",", .word "forKey", .symbol ":", .symbol "."]
    (.ofList rfl rfl rfl)).identifier hkey
  have hcall := hkeyed.piece ")" [.symbol ")"] (.ofList rfl rfl rfl)
  unfold decodeCall decodeCallFaces
  simpa [String.append_assoc] using hcall

def FieldForm.decodedFaces (field : FieldForm) : List Face :=
  .word field.name :: .symbol ":" :: decodeCallFaces field.type field.name

theorem spells_decodedArgument {field : FieldForm} (h : field.IsWritable) :
    Spells endsItem (decodedArgument field) field.decodedFaces := by
  have hindent : Spells breaksSymbol "                " [] := spells_constant rfl rfl
  have hlabel := (hindent.identifier h.name).piece ": " [.symbol ":"] (.ofList rfl rfl rfl)
  have hcall : Spells endsItem _ _ := (spells_decodeCall h.type h.name hlabel).mono fun c hc => by
    rcases (Bool.or_eq_true _ _).mp hc with hc | hc
    · rw [beq_iff_eq.mp hc]; rfl
    · rw [beq_iff_eq.mp hc]; rfl
  exact hcall

def VariantForm.taggedDecodeFaces (style : DiscriminatorStyle) (variant : VariantForm) :
    List Face :=
  match variant.payload, style with
  | .wrapped type, .wrapped =>
    assignFaces variant.name ++ .symbol "(" ::
      (decodeCallFaces type (Text.keyCaseName variant.tag) ++ [.symbol ")"])
  | .wrapped type, .inline =>
    assignFaces variant.name ++ .symbol "(" :: .word "try" :: (typeFaces type ++
      [.symbol "(", .word "from", .symbol ":", .word "decoder", .symbol ")", .symbol ")"])
  | .inline fields, _ =>
    assignFaces variant.name ++ .symbol "(" ::
      (commaFaces (fields.map FieldForm.decodedFaces) ++ [.symbol ")"])
  | .unit, _ => assignFaces variant.name

def VariantForm.taggedDecodeArmFaces (style : DiscriminatorStyle) (variant : VariantForm) :
    List Face :=
  if variant.isFallback then []
  else .word "case" :: .quoted variant.tag :: .symbol ":" :: variant.taggedDecodeFaces style

theorem spellsLines_taggedDecodeArm (style : DiscriminatorStyle) {variant : VariantForm}
    (h : variant.IsWritable) :
    SpellsLines (taggedDecodeArm style variant) (variant.taggedDecodeArmFaces style) := by
  have hpayload := h.payload
  have hassign := spells_assign h.name
  have hbody : SpellsLines (taggedDecodeBody style variant) (variant.taggedDecodeFaces style) := by
    unfold taggedDecodeBody VariantForm.taggedDecodeFaces
    cases hkind : variant.payload with
    | unit => exact hassign.line rfl
    | wrapped type =>
      rw [hkind] at hpayload
      cases style with
      | wrapped =>
        have hcall := spells_decodeCall hpayload (isIdentifier_keyCaseName variant.tag)
          (hassign.piece "(" [.symbol "("] (.ofList rfl rfl rfl))
        have hclose : Spells breaksSymbol ")" [.symbol ")"] := spells_constant rfl rfl
        have hline := (hcall.append hclose rfl).line rfl
        simpa [String.append_assoc] using hline
      | inline =>
        have htype := (hassign.piece "(try " [.symbol "(", .word "try"] (.ofList rfl rfl rfl)).type hpayload
        have hline := (htype.piece "(from: decoder))"
          [.symbol "(", .word "from", .symbol ":", .word "decoder", .symbol ")", .symbol ")"]
          (.ofList rfl rfl rfl)).line rfl
        simpa [String.append_assoc] using hline
    | inline fields =>
      rw [hkind] at hpayload
      have hopen := (hassign.piece "(" [.symbol "("] (.ofList rfl rfl rfl)).line rfl
      have harguments := spellsLines_commaSeparated fun field hfield =>
        spells_decodedArgument (hpayload.2 field hfield)
      have hclose : SpellsLines ["            )"] [.symbol ")"] := .constant rfl
      have hlines := (hopen.append harguments).append hclose
      simpa using hlines
  unfold taggedDecodeArm VariantForm.taggedDecodeArmFaces
  cases variant.isFallback with
  | true => exact .nil
  | false =>
    have hcase : Spells breaksSymbol "        case " [.word "case"] := spells_constant rfl rfl
    have hpattern := ((hcase.literal variant.tag).piece ":" [.symbol ":"] (.ofList rfl rfl rfl)).line rfl
    exact hpattern.cons hbody

/-- The literal of the message about an unknown tag, which holds the tag. -/
def unknownTagLiteral : Face :=
  (.string, "\"UnknownVariant(\\(tag))\"")

theorem spells_unknownTagLiteral : Spells breaksWord "\"UnknownVariant(\\(tag))\""
    [unknownTagLiteral] := by
  have hchars : "\"UnknownVariant(\\(tag))\"".toList =
      '"' :: ("UnknownVariant(\\(tag))".toList ++ ['"']) := by decide +kernel
  have hlength : ∀ rest, quotedLength? ("UnknownVariant(\\(tag))".toList ++ '"' :: rest) =
      some ("UnknownVariant(\\(tag))".toList.length + 1) := fun _ => by rfl
  refine spells_lexeme .string (fun rest hrest => ?_) (by decide +kernel)
  rw [hchars, lexemeAt?_literal (hlength rest) (by decide +kernel)
    (head?_ne_of_all_breaksWord hrest)]
  simp

def unknownTagFaces (key : String) (fallback : Option String) : List Face :=
  match fallback with
  | some fallback => assignFaces fallback
  | none =>
    [.word "throw", .word "DecodingError", .symbol ".", .word "dataCorruptedError", .symbol "(",
      .word "forKey", .symbol ":", .symbol ".", .word key, .symbol ",", .word "in", .symbol ":",
      .word "container", .symbol ",", .word "debugDescription", .symbol ":", unknownTagLiteral,
      .symbol ")"]

theorem spellsLines_unknownTagLine {key : String} {fallback : Option String}
    (hkey : isIdentifier key = true) (hfallback : ∀ name ∈ fallback, isIdentifier name = true) :
    SpellsLines [unknownTagLine key fallback] (unknownTagFaces key fallback) := by
  cases fallback with
  | some name => exact (spells_assign (hfallback name rfl)).line rfl
  | none =>
    have hthrow : Spells breaksSymbol "            throw DecodingError.dataCorruptedError(forKey: ."
        [.word "throw", .word "DecodingError", .symbol ".", .word "dataCorruptedError",
          .symbol "(", .word "forKey", .symbol ":", .symbol "."] := spells_constant rfl rfl
    have hfront := (hthrow.identifier hkey).piece ", in: container, debugDescription: "
      [.symbol ",", .word "in", .symbol ":", .word "container", .symbol ",",
        .word "debugDescription", .symbol ":"] (.ofList rfl rfl rfl)
    have hmessage := hfront.append spells_unknownTagLiteral rfl
    have hclose : Spells breaksSymbol ")" [.symbol ")"] := spells_constant rfl rfl
    have hline := (hmessage.append hclose rfl).line rfl
    unfold unknownTagLine
    have htext : ", in: container, debugDescription: \"UnknownVariant(\\(tag))\")" =
        ", in: container, debugDescription: " ++ ("\"UnknownVariant(\\(tag))\"" ++ ")") := by
      decide +kernel
    rw [htext]
    simpa [String.append_assoc, unknownTagFaces] using hline

def readTagFaces (key : String) : List Face :=
  [.word "let", .word "container", .symbol "=", .word "try", .word "decoder", .symbol ".",
    .word "container", .symbol "(", .word "keyedBy", .symbol ":", .word "CodingKeys", .symbol ".",
    .word "self", .symbol ")",
    .word "let", .word "tag", .symbol "=", .word "try", .word "container", .symbol ".",
    .word "decode", .symbol "(", .word "String", .symbol ".", .word "self", .symbol ",",
    .word "forKey", .symbol ":", .symbol ".", .word key, .symbol ")"]

def taggedDecodeArmsFaces (disc : Discriminator) (fallback : Option String)
    (variants : List VariantForm) : List Face :=
  variants.flatMap (VariantForm.taggedDecodeArmFaces disc.style) ++
    .word "default" :: .symbol ":" :: unknownTagFaces (tagKey disc) fallback

def taggedDecodeBodyFaces (disc : Discriminator) (fallback : Option String)
    (variants : List VariantForm) : List Face :=
  readTagFaces (tagKey disc) ++
    switchFaces "tag" (taggedDecodeArmsFaces disc fallback variants)

theorem spellsLines_taggedDecoderLines (disc : Discriminator) {fallback : Option String}
    {variants : List VariantForm} (h : ∀ variant ∈ variants, variant.IsWritable)
    (hfallback : ∀ name ∈ fallback, isIdentifier name = true) :
    SpellsLines (taggedDecoderLines disc fallback variants)
      (initFaces [] decoderParameterFaces true
        (taggedDecodeBodyFaces disc fallback variants)) := by
  have hkey : isIdentifier (tagKey disc) = true := isIdentifier_keyCaseName disc.field
  have hempty : SpellsLines [""] [] := .constant rfl
  have hopen : SpellsLines ["    public init(from decoder: Decoder) throws \x7b"]
      [.word "public", .word "init", .symbol "(", .word "from", .word "decoder", .symbol ":",
        .word "Decoder", .symbol ")", .word "throws", .symbol "\x7b"] := .constant rfl
  have hcontainer : SpellsLines
      ["        let container = try decoder.container(keyedBy: CodingKeys.self)"]
      [.word "let", .word "container", .symbol "=", .word "try", .word "decoder", .symbol ".",
        .word "container", .symbol "(", .word "keyedBy", .symbol ":", .word "CodingKeys",
        .symbol ".", .word "self", .symbol ")"] := .constant rfl
  have htag : Spells breaksSymbol "        let tag = try container.decode(String.self, forKey: ."
      [.word "let", .word "tag", .symbol "=", .word "try", .word "container", .symbol ".",
        .word "decode", .symbol "(", .word "String", .symbol ".", .word "self", .symbol ",",
        .word "forKey", .symbol ":", .symbol "."] := spells_constant rfl rfl
  have htagLine := ((htag.identifier hkey).piece ")" [.symbol ")"] (.ofList rfl rfl rfl)).line rfl
  have hswitch : SpellsLines ["        switch tag \x7b"]
      [.word "switch", .word "tag", .symbol "\x7b"] := .constant rfl
  have harms := SpellsLines.flatMap fun variant hvariant =>
    spellsLines_taggedDecodeArm disc.style (h variant hvariant)
  have hdefault : SpellsLines ["        default:"] [.word "default", .symbol ":"] := .constant rfl
  have hunknown := spellsLines_unknownTagLine hkey hfallback
  have hlines := (((((((hempty.append hopen).append hcontainer).append htagLine).append
    hswitch).append harms).append hdefault).append hunknown).append spellsLines_closeSwitch
  simpa [taggedDecoderLines, initFaces, headingFaces, signatureFaces, effectFaces,
    decoderParameterFaces, taggedDecodeBodyFaces, taggedDecodeArmsFaces, readTagFaces,
    switchFaces] using hlines

/-! ## Encoding -/

def patternFaces (name : String) (bindings : List String) : List Face :=
  .word "case" :: .symbol "." :: .word name ::
    ((if bindings.isEmpty then []
      else .symbol "(" :: (commaFaces (bindings.map fun binding => [.word "let", .word binding]) ++
        [.symbol ")"])) ++ [.symbol ":"])

theorem spells_pattern {name : String} (h : isIdentifier name = true) :
    Spells breaksWord ("        case ." ++ identifier name)
      [.word "case", .symbol ".", .word name] := by
  have hcase : Spells breaksSymbol "        case ." [.word "case", .symbol "."] :=
    spells_constant rfl rfl
  exact hcase.identifier h

theorem spellsLines_pattern {name : String} (h : isIdentifier name = true) :
    SpellsLines ["        case ." ++ identifier name ++ ":"] (patternFaces name []) :=
  ((spells_pattern h).piece ":" [.symbol ":"] (.ofList rfl rfl rfl)).line rfl

theorem spellsLines_bindingPattern {name : String} {bindings : List String}
    (h : isIdentifier name = true) (hne : bindings ≠ [])
    (hbindings : ∀ binding ∈ bindings, isIdentifier binding = true) :
    SpellsLines ["        case ." ++ identifier name ++ "(" ++
      String.intercalate ", " (bindings.map fun binding => "let " ++ identifier binding) ++ "):"]
        (patternFaces name bindings) := by
  have hopen := (spells_pattern h).piece "(" [.symbol "("] (.ofList rfl rfl rfl)
  have hlet : Spells breaksSymbol "let " [.word "let"] := spells_constant rfl rfl
  have hbinding : ∀ binding ∈ bindings, ∀ {row : String} {front : List Face},
      Spells breaksSymbol row front →
        Spells breaksWord (row ++ ("let " ++ identifier binding))
          (front ++ [.word "let", .word binding]) := by
    intro binding hmem row front hrow
    have hspells := (hrow.append hlet rfl).identifier (hbindings binding hmem)
    simpa [String.append_assoc] using hspells
  have hlist := hopen.intercalate hne hbinding
  have hline := (hlist.piece "):" [.symbol ")", .symbol ":"] (.ofList rfl rfl rfl)).line rfl
  simpa [patternFaces, hne] using hline

def encodeCallFaces (value : Face) (isOptional : Bool) (key : String) : List Face :=
  [.word "try", .word "container", .symbol ".", .word (coderMethod "encode" isOptional),
    .symbol "(", value, .symbol ",", .word "forKey", .symbol ":", .symbol ".", .word key,
    .symbol ")"]

theorem spellsLines_encodeLine {value key : String} {face : Face} (isOptional : Bool)
    (hvalue : Spells breaksWord value [face]) (hhead : value.toList.head?.any breaksSymbol = true)
    (hkey : isIdentifier key = true) :
    SpellsLines [encodeLine value isOptional key] (encodeCallFaces face isOptional key) := by
  have htry : Spells breaksSymbol "            try container."
      [.word "try", .word "container", .symbol "."] := spells_constant rfl rfl
  have hmethod := htry.name (isIdentifier_coderMethod isOptional).2
  have hargument := (hmethod.piece "(" [.symbol "("] (.ofList rfl rfl rfl)).append hvalue hhead
  have hkeyed := (hargument.piece ", forKey: ."
    [.symbol ",", .word "forKey", .symbol ":", .symbol "."] (.ofList rfl rfl rfl)).identifier hkey
  have hline := (hkeyed.piece ")" [.symbol ")"] (.ofList rfl rfl rfl)).line rfl
  unfold encodeLine encodeCall
  simpa [encodeCallFaces, ← String.append_assoc] using hline

def FieldForm.encodedFaces (field : FieldForm) : List Face :=
  encodeCallFaces (.word field.name) field.isOptional field.name

theorem spellsLines_encodedField {field : FieldForm} (h : field.IsWritable) :
    SpellsLines [encodeLine (identifier field.name) field.isOptional field.name]
      field.encodedFaces := by
  have hname : Spells breaksWord (identifier field.name) [.word field.name] :=
    (spells_identifier h.name).mono fun _ => breaksName_of_breaksWord
  exact spellsLines_encodeLine field.isOptional hname (head?_identifier h.name) h.name

def fallbackEncodeFaces (name : String) : List Face :=
  patternFaces name [] ++
    [.word "throw", .word "EncodingError", .symbol ".", .word "invalidValue", .symbol "(",
      .word "self", .symbol ",", .word "EncodingError", .symbol ".", .word "Context", .symbol "(",
      .word "codingPath", .symbol ":", .word "encoder", .symbol ".", .word "codingPath",
      .symbol ",", .word "debugDescription", .symbol ":",
      .quoted "An unknown variant cannot be encoded", .symbol ")", .symbol ")"]

theorem spellsLines_fallbackEncodeArm {name : String} (h : isIdentifier name = true) :
    SpellsLines (fallbackEncodeArm name) (fallbackEncodeFaces name) := by
  have hthrow : Spells breaksSymbol
      "            throw EncodingError.invalidValue(self, EncodingError.Context(codingPath: "
      [.word "throw", .word "EncodingError", .symbol ".", .word "invalidValue", .symbol "(",
        .word "self", .symbol ",", .word "EncodingError", .symbol ".", .word "Context",
        .symbol "(", .word "codingPath", .symbol ":"] := spells_constant rfl rfl
  have hpath : Spells breaksSymbol "encoder.codingPath, debugDescription: "
      [.word "encoder", .symbol ".", .word "codingPath", .symbol ",", .word "debugDescription",
        .symbol ":"] := spells_constant rfl rfl
  have hmessage := (hthrow.append hpath rfl).literal "An unknown variant cannot be encoded"
  have hline := (hmessage.piece "))" [.symbol ")", .symbol ")"] (.ofList rfl rfl rfl)).line rfl
  have hliteral : stringLiteral "An unknown variant cannot be encoded" =
      "\"An unknown variant cannot be encoded\"" := by decide +kernel
  have htext : "encoder.codingPath, debugDescription: \"An unknown variant cannot be encoded\"))" =
      "encoder.codingPath, debugDescription: " ++
        ("\"An unknown variant cannot be encoded\"" ++ "))") := by decide +kernel
  rw [hliteral, String.append_assoc, String.append_assoc, ← htext] at hline
  have hlines := (spellsLines_pattern h).append hline
  exact hlines

def VariantForm.taggedEncodeFaces (disc : Discriminator) (variant : VariantForm) : List Face :=
  let tag := encodeCallFaces (.quoted variant.tag) false (tagKey disc)
  if variant.isFallback then fallbackEncodeFaces variant.name
  else
    match variant.payload, disc.style with
    | .wrapped type, .wrapped =>
      patternFaces variant.name ["payload"] ++ tag ++
        encodeCallFaces (.word "payload") type.isOptional (Text.keyCaseName variant.tag)
    | .wrapped _, .inline =>
      patternFaces variant.name ["payload"] ++ tag ++
        [.word "try", .word "payload", .symbol ".", .word "encode", .symbol "(", .word "to",
          .symbol ":", .word "encoder", .symbol ")"]
    | .inline fields, _ =>
      patternFaces variant.name (fields.map FieldForm.name) ++ tag ++
        fields.flatMap FieldForm.encodedFaces
    | .unit, _ => patternFaces variant.name [] ++ tag

theorem spellsLines_taggedEncodeArm (disc : Discriminator) {variant : VariantForm}
    (h : variant.IsWritable) :
    SpellsLines (taggedEncodeArm disc variant) (variant.taggedEncodeFaces disc) := by
  have hpayload := h.payload
  have htag : SpellsLines [encodeLine (stringLiteral variant.tag) false (tagKey disc)]
      (encodeCallFaces (.quoted variant.tag) false (tagKey disc)) :=
    spellsLines_encodeLine false (spells_stringLiteral variant.tag)
      (head?_stringLiteral variant.tag) (isIdentifier_keyCaseName disc.field)
  have hpattern : SpellsLines ["        case ." ++ identifier variant.name ++ "(let payload):"]
      (patternFaces variant.name ["payload"]) :=
    ((spells_pattern h.name).piece "(let payload):"
      [.symbol "(", .word "let", .word "payload", .symbol ")", .symbol ":"] (.ofList rfl rfl rfl)).line
      rfl
  have hname : Spells breaksWord "payload" [.word "payload"] :=
    (spells_name (by decide)).mono fun _ => breaksName_of_breaksWord
  unfold taggedEncodeArm VariantForm.taggedEncodeFaces
  cases variant.isFallback with
  | true => exact spellsLines_fallbackEncodeArm h.name
  | false =>
    cases hkind : variant.payload with
    | unit =>
      have hlines := (spellsLines_pattern h.name).append htag
      exact hlines
    | wrapped type =>
      cases disc.style with
      | wrapped =>
        have hvalue := spellsLines_encodeLine type.isOptional hname rfl
          (isIdentifier_keyCaseName variant.tag)
        have hlines := (hpattern.append htag).append hvalue
        exact hlines
      | inline =>
        have hvalue : SpellsLines ["            try payload.encode(to: encoder)"]
            [.word "try", .word "payload", .symbol ".", .word "encode", .symbol "(", .word "to",
              .symbol ":", .word "encoder", .symbol ")"] := .constant rfl
        have hlines := (hpattern.append htag).append hvalue
        exact hlines
    | inline fields =>
      rw [hkind] at hpayload
      have hne : fields.map FieldForm.name ≠ [] := by simpa using hpayload.1
      have hidentifiers : ∀ name ∈ fields.map FieldForm.name, isIdentifier name = true := by
        intro name hname
        obtain ⟨field, hfield, rfl⟩ := List.mem_map.mp hname
        exact (hpayload.2 field hfield).name
      have hnames := spellsLines_bindingPattern h.name hne hidentifiers
      have hvalues := SpellsLines.map fun field hfield =>
        spellsLines_encodedField (hpayload.2 field hfield)
      have hlines := (hnames.append htag).append hvalues
      simpa [Function.comp_def, List.flatMap_def] using hlines

def encoderParameterFaces : List Face :=
  [.word "to", .word "encoder", .symbol ":", .word "Encoder"]

/-- The body of the function that encodes a union; `container` is the call for the container. -/
def encodeBodyFaces (container arms : List Face) : List Face :=
  [.word "var", .word "container", .symbol "=", .word "encoder", .symbol "."] ++ container ++
    switchFaces "self" arms

def encoderFaces (container arms : List Face) : List Face :=
  funcFaces [] "encode" encoderParameterFaces true (encodeBodyFaces container arms)

def keyedContainerFaces : List Face :=
  [.word "container", .symbol "(", .word "keyedBy", .symbol ":", .word "CodingKeys", .symbol ".",
    .word "self", .symbol ")"]

def singleContainerFaces : List Face :=
  [.word "singleValueContainer", .symbol "(", .symbol ")"]

theorem spellsLines_encoderLines {container : String} {lines : List String}
    {call arms : List Face} (hcontainer : Spells breaksSymbol container call)
    (hhead : container.toList.head?.any breaksSymbol = true) (harms : SpellsLines lines arms) :
    SpellsLines (encoderLines container lines) (encoderFaces call arms) := by
  have hempty : SpellsLines [""] [] := .constant rfl
  have hopen : SpellsLines ["    public func encode(to encoder: Encoder) throws \x7b"]
      [.word "public", .word "func", .word "encode", .symbol "(", .word "to", .word "encoder",
        .symbol ":", .word "Encoder", .symbol ")", .word "throws", .symbol "\x7b"] := .constant rfl
  have hvar : Spells breaksSymbol "        var container = encoder."
      [.word "var", .word "container", .symbol "=", .word "encoder", .symbol "."] :=
    spells_constant rfl rfl
  have hcall := (hvar.append hcontainer hhead).line rfl
  have hswitch : SpellsLines ["        switch self \x7b"]
      [.word "switch", .word "self", .symbol "\x7b"] := .constant rfl
  have hlines := ((((hempty.append hopen).append hcall).append hswitch).append harms).append
    spellsLines_closeSwitch
  simpa [encoderLines, encoderFaces, encodeBodyFaces, switchFaces, funcFaces, headingFaces,
    signatureFaces, effectFaces, encoderParameterFaces] using hlines

/-! ## Without a discriminator -/

def VariantForm.attemptFaces (variant : VariantForm) : List Face :=
  let attempt :=
    match variant.payload with
    | .wrapped type =>
      [.word "if", .word "let", .word "value", .symbol "=", .word "try", .symbol "?",
        .word "container", .symbol ".", .word "decode", .symbol "("] ++ typeFaces type ++
        [.symbol ".", .word "self", .symbol ")", .symbol "\x7b"] ++ assignFaces variant.name ++
        [.symbol "(", .word "value", .symbol ")"]
    | _ =>
      [.word "if", .word "container", .symbol ".", .word "decodeNil", .symbol "(", .symbol ")",
        .symbol "\x7b"] ++ assignFaces variant.name
  if variant.isFallback then [] else attempt ++ [.word "return", .symbol "\x7d"]

theorem spellsLines_untaggedAttempt {variant : VariantForm} (h : variant.IsWritable) :
    SpellsLines (untaggedAttempt variant) variant.attemptFaces := by
  have hpayload := h.payload
  have hassign := spells_assign h.name
  have hnull : SpellsLines ["        if container.decodeNil() \x7b",
      "            self = ." ++ identifier variant.name]
        ([.word "if", .word "container", .symbol ".", .word "decodeNil", .symbol "(", .symbol ")",
          .symbol "\x7b"] ++ assignFaces variant.name) := by
    have hif : SpellsLines ["        if container.decodeNil() \x7b"]
        [.word "if", .word "container", .symbol ".", .word "decodeNil", .symbol "(", .symbol ")",
          .symbol "\x7b"] := .constant rfl
    exact hif.append (hassign.line rfl)
  have hclose : SpellsLines ["            return", "        \x7d"]
      [.word "return", .symbol "\x7d"] := by
    have hreturn : SpellsLines ["            return"] [.word "return"] := .constant rfl
    have hbrace : SpellsLines ["        \x7d"] [.symbol "\x7d"] := .constant rfl
    exact hreturn.append hbrace
  unfold untaggedAttempt VariantForm.attemptFaces
  cases variant.isFallback with
  | true => exact .nil
  | false =>
    cases hkind : variant.payload with
    | unit => exact hnull.append hclose
    | inline fields => exact hnull.append hclose
    | wrapped type =>
      rw [hkind] at hpayload
      have hif : Spells breaksSymbol "        if let value = try? container.decode("
          [.word "if", .word "let", .word "value", .symbol "=", .word "try", .symbol "?",
            .word "container", .symbol ".", .word "decode", .symbol "("] := spells_constant rfl rfl
      have htry := ((hif.type hpayload).piece ".self) \x7b"
        [.symbol ".", .word "self", .symbol ")", .symbol "\x7b"] (.ofList rfl rfl rfl)).line rfl
      have hvalue := (hassign.piece "(value)" [.symbol "(", .word "value", .symbol ")"]
        (.ofList rfl rfl rfl)).line rfl
      have hlines := (htry.append hvalue).append hclose
      simpa using hlines

def noMatchFaces (typeName : String) (fallback : Option String) : List Face :=
  match fallback with
  | some fallback => assignFaces fallback
  | none =>
    [.word "throw", .word "DecodingError", .symbol ".", .word "dataCorruptedError", .symbol "(",
      .word "in", .symbol ":", .word "container", .symbol ",", .word "debugDescription",
      .symbol ":", .quoted ("UnknownVariant(no case of " ++ typeName ++ " matched)"), .symbol ")"]

/-- Only quotes, backslashes and control characters are escaped. -/
theorem isUnescaped_of_isIdentRest {c : Char} (h : Text.isIdentRest c = true) :
    isUnescaped c = true := by
  have hcontrols : ∀ n ∈ List.range 160, Text.isIdentRest (Char.ofNat n) = true →
      isUnescaped (Char.ofNat n) = true := by decide +kernel
  rcases escapeChar_cases c with ⟨letter, -, htext, -⟩ | ⟨hcontrol, -⟩ | ⟨hescape, -⟩
  · unfold escapeText at htext
    split at htext
    all_goals cases htext <;> exact absurd h (by decide)
  · have hpoint := hcontrols c.toNat (toNat_mem_range_of_isControl hcontrol)
    rw [Char.ofNat_toNat] at hpoint
    exact hpoint h
  · rw [isUnescaped, hescape, beq_self_eq_true]

theorem stringLiteral_noMatch {typeName : String} (h : isIdentifier typeName = true) :
    stringLiteral ("UnknownVariant(no case of " ++ typeName ++ " matched)") =
      "\"UnknownVariant(no case of " ++ (typeName ++ " matched)\"") := by
  have hfront : "UnknownVariant(no case of ".toList.all isUnescaped = true := by decide +kernel
  have hback : " matched)".toList.all isUnescaped = true := by decide +kernel
  have hname : typeName.toList.all isUnescaped = true :=
    List.all_eq_true.mpr fun c hc => isUnescaped_of_isIdentRest (isIdentRest_of_mem h c hc)
  have hopen : "\"UnknownVariant(no case of " = "\"" ++ "UnknownVariant(no case of " := by
    decide +kernel
  have hclose : " matched)\"" = " matched)" ++ "\"" := by decide +kernel
  rw [stringLiteral_of_all (by simp only [String.toList_append, List.all_append, hfront, hname,
    hback, Bool.and_self]), hopen, hclose]
  simp only [String.append_assoc]

theorem spellsLines_noMatchLine {typeName : String} {fallback : Option String}
    (hname : isIdentifier typeName = true)
    (hfallback : ∀ name ∈ fallback, isIdentifier name = true) :
    SpellsLines [noMatchLine typeName fallback] (noMatchFaces typeName fallback) := by
  cases fallback with
  | some name =>
    have hself : Spells breaksSymbol "        self = ."
        [.word "self", .symbol "=", .symbol "."] := spells_constant rfl rfl
    exact (hself.identifier (hfallback name rfl)).line rfl
  | none =>
    have hthrow : Spells breaksSymbol
        "        throw DecodingError.dataCorruptedError(in: container, debugDescription: "
        [.word "throw", .word "DecodingError", .symbol ".", .word "dataCorruptedError",
          .symbol "(", .word "in", .symbol ":", .word "container", .symbol ",",
          .word "debugDescription", .symbol ":"] := spells_constant rfl rfl
    have hmessage := hthrow.literal ("UnknownVariant(no case of " ++ typeName ++ " matched)")
    have hline := (hmessage.piece ")" [.symbol ")"] (.ofList rfl rfl rfl)).line rfl
    rw [stringLiteral_noMatch hname] at hline
    have hclose : " matched)\")" = " matched)\"" ++ ")" := by decide +kernel
    unfold noMatchLine
    rw [hclose]
    simpa only [noMatchFaces, String.append_assoc, List.append_assoc, List.cons_append,
      List.nil_append] using hline

def VariantForm.untaggedEncodeFaces (variant : VariantForm) : List Face :=
  if variant.isFallback then fallbackEncodeFaces variant.name
  else
    match variant.payload with
    | .wrapped _ =>
      patternFaces variant.name ["value"] ++
        [.word "try", .word "container", .symbol ".", .word "encode", .symbol "(", .word "value",
          .symbol ")"]
    | _ =>
      patternFaces variant.name [] ++
        [.word "try", .word "container", .symbol ".", .word "encodeNil", .symbol "(", .symbol ")"]

theorem spellsLines_untaggedEncodeArm {variant : VariantForm}
    (h : isIdentifier variant.name = true) :
    SpellsLines (untaggedEncodeArm variant) variant.untaggedEncodeFaces := by
  have hnull : SpellsLines ["            try container.encodeNil()"]
      [.word "try", .word "container", .symbol ".", .word "encodeNil", .symbol "(", .symbol ")"] :=
    .constant rfl
  unfold untaggedEncodeArm VariantForm.untaggedEncodeFaces
  cases variant.isFallback with
  | true => exact spellsLines_fallbackEncodeArm h
  | false =>
    cases variant.payload with
    | unit =>
      have hlines := (spellsLines_pattern h).append hnull
      exact hlines
    | inline fields =>
      have hlines := (spellsLines_pattern h).append hnull
      exact hlines
    | wrapped type =>
      have hpattern := ((spells_pattern h).piece "(let value):"
        [.symbol "(", .word "let", .word "value", .symbol ")", .symbol ":"] (.ofList rfl rfl rfl)).line
          rfl
      have hvalue : SpellsLines ["            try container.encode(value)"]
          [.word "try", .word "container", .symbol ".", .word "encode", .symbol "(",
            .word "value", .symbol ")"] := .constant rfl
      have hlines := hpattern.append hvalue
      exact hlines

end WireSchema.Generation
