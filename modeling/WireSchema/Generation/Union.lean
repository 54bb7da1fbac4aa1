import WireSchema.Generation.RawEnum
import WireSchema.Text.Identifier

/-!
# Unions in generated code

A union with a discriminator decodes its tag and then the payload next to it or
under the tag's own key. A union without one tries its variants in order; unless
all tags are numbers, in which case it is a numbered enum. Variants that may be
written as literals get an extension each.
-/

namespace WireSchema.Generation

open Swift (typeText stringLiteral)
open Text (keyCaseName)

/-! ## Cases -/

def labeledValue (field : FieldForm) : String :=
  identifier field.name ++ ": " ++ typeText field.type

def payloadText : PayloadForm → String
  | .unit => ""
  | .wrapped type => "(" ++ typeText type ++ ")"
  | .inline fields => "(" ++ String.intercalate ", " (fields.map labeledValue) ++ ")"

def caseLines (variant : VariantForm) : List String :=
  docLines "    " variant.doc ++
    ["    case " ++ identifier variant.name ++ payloadText variant.payload]

/-- The method that decodes or encodes a value, by whether the value may be absent. -/
def coderMethod (name : String) (isOptional : Bool) : String :=
  if isOptional then name ++ "IfPresent" else name

def decodeCall (type : TypeExpr) (key : String) : String :=
  "try container." ++ coderMethod "decode" type.isOptional ++ "(" ++
    typeText type.unwrapOptional ++ ".self, forKey: ." ++ identifier key ++ ")"

def encodeCall (value : String) (isOptional : Bool) (key : String) : String :=
  "try container." ++ coderMethod "encode" isOptional ++ "(" ++ value ++ ", forKey: ." ++
    identifier key ++ ")"

/-- The arm of an encoder for the fallback, which stands for no value. -/
def fallbackEncodeArm (name : String) : List String :=
  ["        case ." ++ identifier name ++ ":",
    "            throw EncodingError.invalidValue(self, EncodingError.Context(codingPath: " ++
      "encoder.codingPath, debugDescription: \"An unknown variant cannot be encoded\"))"]

def encoderLines (container : String) (arms : List String) : List String :=
  ["", "    public func encode(to encoder: Encoder) throws \x7b",
    "        var container = encoder." ++ container,
    "        switch self \x7b"] ++ arms ++ ["        \x7d", "    \x7d"]

/-! ## With a discriminator -/

def tagKey (disc : Discriminator) : String :=
  keyCaseName disc.field

/-- The coding keys that the payload of a variant needs. -/
def payloadKeys (disc : Discriminator) (variant : VariantForm) : List (String × String) :=
  if variant.isFallback then []
  else
    match variant.payload, disc.style with
    | .wrapped _, .wrapped => [(keyCaseName variant.tag, variant.tag)]
    | .inline fields, _ => fields.map fun field => (field.name, field.wireName)
    | _, _ => []

/-- The first of the keys for each name; `seen` are the names before. -/
def firstKeys (seen : List String) : List (String × String) → List (String × String)
  | [] => []
  | key :: later =>
    if seen.contains key.1 then firstKeys seen later else key :: firstKeys (key.1 :: seen) later

/-- The coding keys of a union, as names with their wire keys: the tag, then payloads. -/
def unionKeys (disc : Discriminator) (variants : List VariantForm) : List (String × String) :=
  firstKeys [] ((tagKey disc, disc.field) :: variants.flatMap (payloadKeys disc))

def wireTagLines (variants : List VariantForm) : List String :=
  ["", "    /// Wire tag of this case.", "    public var wireTag: String? \x7b",
    "        switch self \x7b"] ++
    (variants.map fun variant =>
      "        case ." ++ identifier variant.name ++ ": return " ++
        (if variant.isFallback then "nil" else stringLiteral variant.tag)) ++
    ["        \x7d", "    \x7d"]

def decodedArgument (field : FieldForm) : String :=
  "                " ++ identifier field.name ++ ": " ++ decodeCall field.type field.name

def taggedDecodeBody (style : DiscriminatorStyle) (variant : VariantForm) : List String :=
  let assign := "            self = ." ++ identifier variant.name
  match variant.payload, style with
  | .wrapped type, .wrapped =>
    [assign ++ "(" ++ decodeCall type (keyCaseName variant.tag) ++ ")"]
  | .wrapped type, .inline => [assign ++ "(try " ++ typeText type ++ "(from: decoder))"]
  | .inline fields, _ =>
    [assign ++ "("] ++ commaSeparated (fields.map decodedArgument) ++ ["            )"]
  | .unit, _ => [assign]

def taggedDecodeArm (style : DiscriminatorStyle) (variant : VariantForm) : List String :=
  if variant.isFallback then []
  else ("        case " ++ stringLiteral variant.tag ++ ":") :: taggedDecodeBody style variant

def unknownTagLine (key : String) (fallback : Option String) : String :=
  match fallback with
  | some fallback => "            self = ." ++ identifier fallback
  | none =>
    "            throw DecodingError.dataCorruptedError(forKey: ." ++ identifier key ++
      ", in: container, debugDescription: \"UnknownVariant(\\(tag))\")"

def taggedDecoderLines (disc : Discriminator) (fallback : Option String)
    (variants : List VariantForm) : List String :=
  ["", "    public init(from decoder: Decoder) throws \x7b",
    "        let container = try decoder.container(keyedBy: CodingKeys.self)",
    "        let tag = try container.decode(String.self, forKey: ." ++
      identifier (tagKey disc) ++ ")",
    "        switch tag \x7b"] ++
    variants.flatMap (taggedDecodeArm disc.style) ++
    ["        default:", unknownTagLine (tagKey disc) fallback, "        \x7d", "    \x7d"]

def encodeLine (value : String) (isOptional : Bool) (key : String) : String :=
  "            " ++ encodeCall value isOptional key

/-- The arm of an encoder for a variant: first the tag, then the payload. -/
def taggedEncodeArm (disc : Discriminator) (variant : VariantForm) : List String :=
  let pattern := "        case ." ++ identifier variant.name
  let tagLine := encodeLine (stringLiteral variant.tag) false (tagKey disc)
  if variant.isFallback then fallbackEncodeArm variant.name
  else
    match variant.payload, disc.style with
    | .wrapped type, .wrapped =>
      [pattern ++ "(let payload):", tagLine,
        encodeLine "payload" type.isOptional (keyCaseName variant.tag)]
    | .wrapped _, .inline =>
      [pattern ++ "(let payload):", tagLine, "            try payload.encode(to: encoder)"]
    | .inline fields, _ =>
      let bindings := fields.map fun field => "let " ++ identifier field.name
      [pattern ++ "(" ++ String.intercalate ", " bindings ++ "):", tagLine] ++
        fields.map fun field => encodeLine (identifier field.name) field.isOptional field.name
    | .unit, _ => [pattern ++ ":", tagLine]

def taggedBody (d : UnionDef) (disc : Discriminator) (variants : List VariantForm) :
    List String :=
  codingKeyLines (unionKeys disc variants) ++ wireTagLines variants ++
    (if d.direction.allowsDecode then taggedDecoderLines disc d.fallbackVariant variants
      else []) ++
    (if d.direction.allowsEncode then
      encoderLines "container(keyedBy: CodingKeys.self)" (variants.flatMap (taggedEncodeArm disc))
      else [])

/-! ## Without a discriminator -/

/-- The attempt to decode a variant; one without a payload stands for the null value. -/
def untaggedAttempt (variant : VariantForm) : List String :=
  let assign := "            self = ." ++ identifier variant.name
  let attempt :=
    match variant.payload with
    | .wrapped type =>
      ["        if let value = try? container.decode(" ++ typeText type ++ ".self) \x7b",
        assign ++ "(value)"]
    | _ => ["        if container.decodeNil() \x7b", assign]
  if variant.isFallback then [] else attempt ++ ["            return", "        \x7d"]

def noMatchLine (typeName : String) (fallback : Option String) : String :=
  match fallback with
  | some fallback => "        self = ." ++ identifier fallback
  | none =>
    "        throw DecodingError.dataCorruptedError(in: container, debugDescription: " ++
      "\"UnknownVariant(no case of " ++ typeName ++ " matched)\")"

def untaggedEncodeArm (variant : VariantForm) : List String :=
  let pattern := "        case ." ++ identifier variant.name
  if variant.isFallback then fallbackEncodeArm variant.name
  else
    match variant.payload with
    | .wrapped _ => [pattern ++ "(let value):", "            try container.encode(value)"]
    | _ => [pattern ++ ":", "            try container.encodeNil()"]

def untaggedBody (typeName : String) (d : UnionDef) (variants : List VariantForm) :
    List String :=
  (if d.direction.allowsDecode then
    singleValueDecoder
      (variants.flatMap untaggedAttempt ++ [noMatchLine typeName d.fallbackVariant])
    else []) ++
    (if d.direction.allowsEncode then
      encoderLines "singleValueContainer()" (variants.flatMap untaggedEncodeArm)
      else [])

/-! ## Literals -/

/-- The element type of a list; any other type is its own. -/
def elementType : TypeExpr → TypeExpr
  | .list t => t
  | t => t

/-- The extension that lets a variant be written as a literal, if it may be. -/
def literalLines (typeName : String) (variant : VariantForm) : List String :=
  match variant.literal, variant.payload with
  | some .string, .wrapped _ =>
    ["", "extension " ++ typeName ++ ": ExpressibleByStringLiteral \x7b",
      "    public init(stringLiteral value: String) \x7b",
      "        self = ." ++ identifier variant.name ++ "(value)", "    \x7d", "\x7d"]
  | some .array, .wrapped type =>
    ["", "extension " ++ typeName ++ ": ExpressibleByArrayLiteral \x7b",
      "    public init(arrayLiteral elements: " ++ typeText (elementType type) ++ "...) \x7b",
      "        self = ." ++ identifier variant.name ++ "(elements)", "    \x7d", "\x7d"]
  | _, _ => []

/-! ## Unions -/

def unionBody (typeName : String) (d : UnionDef) (variants : List VariantForm) : List String :=
  match d.discriminator with
  | some disc => taggedBody d disc variants
  | none => untaggedBody typeName d variants

def unionLines (namer : Namer) (name : String) (d : UnionDef) :
    Except TypeExpr.Fault (List String) :=
  match d.rawValueType with
  | some raw => .ok (numberedEnumLines namer name d raw)
  | none => do
    let variants ← namer.resolveVariants d (orderedVariants d)
    let typeName := namer.typeName name
    return docLines "" d.doc ++
      ["public enum " ++ typeName ++ ": " ++ conformance d.direction ++ ", Sendable \x7b"] ++
      variants.flatMap caseLines ++ unionBody typeName d variants ++ ["\x7d"] ++
      variants.flatMap (literalLines typeName)

end WireSchema.Generation
