import WireSchema.Extraction.Context
import WireSchema.Extraction.Evidence
import WireSchema.Extraction.Fault
import WireSchema.Logged
import WireSchema.Text.Search

/-!
# From declarations to definitions

Structs and classes become structs; an enum becomes a string enum, or a union,
numbered or not, by its raw type; a type alias becomes an alias. A declaration
that has no such form fails with the reason.
-/

namespace WireSchema.Extraction

open Swift

/-- Lowering one declaration: it may warn, and fails if the declaration must be dropped. -/
abbrev Lowering := Logged Warning DropReason

/-! ## Structs -/

/-- Is the property part of every value on the wire? -/
def isStored (property : PropertyDecl) : Bool :=
  !property.isStatic && !property.isComputed && !(property.isLet && property.hasInitializer)

def remappedKey? (keys : NameMap String) (name : String) : Option String :=
  (keys.get? name).filter (· != name)

def lowerProperty (typeName : String) (keys? : Option (NameMap String)) (property : PropertyDecl) :
    Lowering (Option (String × FieldDef)) :=
  if !isStored property || keys?.any fun keys => !keys.contains property.name then return none
  else
    match property.type with
    | none => do
      Logged.warn (.missingType typeName property.name)
      return none
    | some type =>
      match readType type with
      | .error error => .fail (.fieldType property.name error)
      | .ok t =>
        return some (property.name,
          { FieldDef.ofType t.text with
            wireName := keys?.bind fun keys => remappedKey? keys property.name
            doc := joinDocs property.docs })

def lowerStruct (ctx : TypeContext) : Lowering TypeDef := do
  let fields ←
    Logged.collect (lowerProperty ctx.decl.name ctx.codingKeys?) (propertiesOf ctx.decl.members)
  return .struct
    { direction := ctx.direction, doc := joinDocs ctx.decl.docs, fields := .ofList fields }

/-! ## Enums with raw values -/

/-- Is the case the one that absorbs unknown values? Only a decoder could choose it. -/
def isSentinel (ctx : TypeContext) (fallbackCase : String) (case_ : EnumCase) : Bool :=
  case_.name == fallbackCase && ctx.decoder?.isSome

/-- The handling of unknown values that the cases of an enum with raw values show. -/
def sentinelHandling (ctx : TypeContext) (fallbackCase : String) : Option UnknownHandling :=
  if (casesOf ctx.decl.members).any (isSentinel ctx fallbackCase) then
    some (.fallback fallbackCase)
  else none

def lowerStringCase (ctx : TypeContext) (fallbackCase : String) (case_ : EnumCase) :
    Lowering (Option (String × String)) :=
  if !case_.associated.isEmpty then .fail (.carriesValues case_.name)
  else if isSentinel ctx fallbackCase case_ then return none
  else
    match case_.rawValue with
    | none => return some (case_.name, case_.name)
    | some (.string raw) => return some (case_.name, raw)
    | some (.number raw) => .fail (.rawValueNotString case_.name raw)
    | some (.other raw) => .fail (.rawValueNotString case_.name raw)

def lowerStringEnum (fallbackCase : String) (ctx : TypeContext) : Lowering TypeDef := do
  let values ← Logged.collect (lowerStringCase ctx fallbackCase) (casesOf ctx.decl.members)
  return .stringEnum
    { direction := ctx.direction, doc := joinDocs ctx.decl.docs
      unknownHandling := sentinelHandling ctx fallbackCase, values := .ofList values }

/-- The decimal text of the raw value of a case. A case without one has the next number. -/
def rawNumber? (implicit : Option Int) (case_ : EnumCase) : Option String :=
  match case_.rawValue with
  | none => implicit.map Number.decimal
  | some (.number raw) => numberText? raw
  | some (.other raw) => numberText? raw
  | some (.string _) => none

def nextNumber? (raw : String) : Option Int :=
  ((Number.readInt64? 10 raw.toList).map (· + 1)).filter Number.isInt64

/-- The cases with their raw values; `implicit` is the number of the first if it has none. -/
def numberCases (implicit : Option Int) : List EnumCase → Lowering (List (EnumCase × String))
  | [] => return []
  | case_ :: later =>
    if !case_.associated.isEmpty then .fail (.carriesValues case_.name)
    else
      match rawNumber? implicit case_ with
      | none => .fail (.rawValueNotNumber case_.name)
      | some raw => do
        let numbered ← numberCases (nextNumber? raw) later
        return (case_, raw) :: numbered

/-- The unit variant of a numbered case. The sentinel has no tag. -/
def numberedVariant (ctx : TypeContext) (fallbackCase : String) (case_ : EnumCase)
    (raw : String) : VariantDef :=
  { VariantDef.ofPayload .unit with
    tag := if isSentinel ctx fallbackCase case_ then none else some raw
    doc := joinDocs case_.docs }

def lowerNumberedEnum (fallbackCase : String) (ctx : TypeContext) : Lowering TypeDef := do
  let numbered ← numberCases (some 0) (casesOf ctx.decl.members)
  let variants := numbered.map fun (case_, raw) =>
    (case_.name, numberedVariant ctx fallbackCase case_ raw)
  return .union
    { direction := ctx.direction, doc := joinDocs ctx.decl.docs, discriminator := none
      unknownHandling := sentinelHandling ctx fallbackCase, variants := .ofList variants }

/-! ## Unions -/

def lowerLabeled (keys : NameMap String) (caseName label type : String) :
    Lowering (String × FieldDef) :=
  match readType type with
  | .error error => .fail (.labeledType caseName label error)
  | .ok t => return (label, { FieldDef.ofType t.text with wireName := remappedKey? keys label })

/-- The fields that the values of a case are, all of which must be labeled. -/
def lowerLabeledValues (keys : NameMap String) (caseName : String) :
    List AssociatedValue → Lowering (List (String × FieldDef))
  | [] => return []
  | value :: later => do
    let field ← lowerLabeled keys caseName (value.label.getD "") value.type
    let fields ← lowerLabeledValues keys caseName later
    return field :: fields

/-- The payload of a case: nothing, one value without a label, or values with labels. -/
def lowerPayload (keys : NameMap String) (case_ : EnumCase) : Lowering VariantPayload :=
  match case_.associated with
  | [] => return .unit
  | [⟨none, type⟩] =>
    match readType type with
    | .error error => .fail (.payloadType case_.name error)
    | .ok t => return .wrapped t.text
  | values =>
    if values.all fun value => value.label.isSome then do
      let fields ← lowerLabeledValues keys case_.name values
      return .inline (.ofList fields)
    else .fail (.mixedPayload case_.name)

def lowerVariant (keys : NameMap String) (case_ : EnumCase) :
    Lowering (Option (String × VariantDef)) := do
  let payload ← lowerPayload keys case_
  return some (case_.name, { VariantDef.ofPayload payload with doc := joinDocs case_.docs })

/-- The variant with the tag that evidence gives to it; its own name need not be kept. -/
def withEvidentTag (tags : NameMap String) (name : String) (variant : VariantDef) : VariantDef :=
  match tags.get? name with
  | some tag => if tag = name then variant else { variant with tag := some tag }
  | none => variant

/-- A protocol that lets values be written as literals. -/
structure LiteralProtocol where
  sugar : LiteralSugar
  protocol : String
  label : String

def literalProtocols : List LiteralProtocol :=
  [⟨.string, "ExpressibleByStringLiteral", "stringLiteral"⟩,
    ⟨.array, "ExpressibleByArrayLiteral", "arrayLiteral"⟩]

def literalCase? (ctx : TypeContext) (literal : LiteralProtocol) : Option String :=
  (ctx.function? "init" literal.label).bind fun f => assignedCase? f.body

/-- The variants with one of them marked as written by a literal, if the union conforms to
the protocol. -/
def markLiteral (ctx : TypeContext) (variants : NameMap VariantDef) (literal : LiteralProtocol) :
    Lowering (NameMap VariantDef) :=
  if !ctx.conformsTo literal.protocol then return variants
  else
    match (literalCase? ctx literal).bind fun name => (variants.get? name).map (name, ·) with
    | some (name, variant) =>
      return variants.insert name { variant with literal := some literal.sugar }
    | none => do
      Logged.warn (.unclearLiteral ctx.decl.name literal.protocol)
      return variants

def markLiterals (ctx : TypeContext) (variants : NameMap VariantDef) :
    List LiteralProtocol → Lowering (NameMap VariantDef)
  | [] => return variants
  | literal :: later => do markLiterals ctx (← markLiteral ctx variants literal) later

def unionFallback (fallbackCase : String) (ctx : TypeContext) (variants : NameMap VariantDef) :
    Option UnknownHandling :=
  if (variants.get? fallbackCase).any VariantDef.isUnit && ctx.decoder?.isSome then
    some (.fallback fallbackCase)
  else none

def hasWrappedPayload (variant : VariantDef) : Bool :=
  match variant.payload with
  | .wrapped _ => true
  | _ => false

def hasInlinePayload (variant : VariantDef) : Bool :=
  match variant.payload with
  | .inline _ => true
  | _ => false

def evidenceOf (ctx : TypeContext) (keys : NameMap String) (handling : Option UnknownHandling)
    (variants : NameMap VariantDef) : UnionEvidence :=
  { cases := variants.names
    payloadCases := .ofNames (variants.filter fun _ variant => hasWrappedPayload variant).names
    fallback := fallbackOf handling
    decodeBody := ctx.decoder?.map FunctionDecl.body
    encodeBody := ctx.encoder?.map FunctionDecl.body
    codingKeys := keys }

/-- Labeled payloads lie next to a tag, so there must be one and it must be inline. -/
def checkInline (variants : NameMap VariantDef) (discriminator : Option Discriminator) :
    Lowering Unit :=
  if !variants.values.any hasInlinePayload then return ()
  else
    match discriminator with
    | none => .fail .labeledWithoutDiscriminator
    | some ⟨_, .wrapped⟩ => .fail .labeledWrapped
    | some ⟨_, .inline⟩ => return ()

def lowerUnion (fallbackCase : String) (ctx : TypeContext) : Lowering TypeDef := do
  let keys := ctx.codingKeys?.getD .empty
  let entries ← Logged.collect (lowerVariant keys) (casesOf ctx.decl.members)
  let variants := NameMap.ofList entries
  let fallback := unionFallback fallbackCase ctx variants
  let shape := unionShape (evidenceOf ctx keys fallback variants)
  if !shape.unmatched.isEmpty then Logged.warn (.noTags ctx.decl.name shape.unmatched)
  checkInline variants shape.discriminator
  let marked ← markLiterals ctx (variants.mapValues (withEvidentTag shape.tags)) literalProtocols
  return .union
    { direction := ctx.direction, doc := joinDocs ctx.decl.docs
      discriminator := shape.discriminator
      unknownHandling := fallback.or (if shape.rejectsUnknown then some .error else none)
      variants := marked }

/-! ## Aliases -/

/-- Words in a comment that mark an alias as deprecated. -/
def deprecationMarkers : List String :=
  ["deprecated", "backwards compat", "backward compat", "legacy"]

def hasDeprecation (alias_ : AliasDecl) : Bool :=
  alias_.attributes.any fun attribute_ =>
    attribute_.name == "available" && attribute_.arguments.contains "deprecated"

def lowerAlias (alias_ : AliasDecl) : Lowering TypeDef :=
  match readType alias_.target with
  | .error error => .fail (.aliasTarget error)
  | .ok t =>
    let doc := joinDocs alias_.docs
    let saysDeprecated := doc.any fun doc => deprecationMarkers.any fun marker =>
      Text.containsLower marker doc
    let deprecated := hasDeprecation alias_ || saysDeprecated
    return .typeAlias { target := t.text, deprecated, doc }

/-! ## All declarations -/

def lowerEnum (fallbackCase : String) (ctx : TypeContext) : Lowering TypeDef :=
  match ctx.rawType? with
  | none => lowerUnion fallbackCase ctx
  | some .number => lowerNumberedEnum fallbackCase ctx
  | some .text => lowerStringEnum fallbackCase ctx
  | some (.unsupported p) => .fail (.rawType (.primitive p))

/-- The definition of a type; nothing if the declaration is not one of a data type. -/
def lowerType (fallbackCase : String) (ctx : TypeContext) : Option (Lowering TypeDef) :=
  if ctx.decl.isGeneric then none
  else
    match ctx.decl.kind with
    | .struct | .classType => some (lowerStruct ctx)
    | .enum => some (lowerEnum fallbackCase ctx)
    | .actor | .protocol => none

end WireSchema.Extraction
