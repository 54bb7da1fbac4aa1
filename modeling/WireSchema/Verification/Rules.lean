import WireSchema.Text.Identifier
import WireSchema.Verification.Violation

/-!
# Verifying a schema

`verify` finds the first violation in a schema: types in the order of their names,
and in each type fields, cases or variants in the order of theirs.
-/

namespace WireSchema.Verification

open Text (isIdentifier)

abbrev Check := Except Violation

def ensure (condition : Bool) (violation : Violation) : Check Unit :=
  if condition then .ok () else .error violation

/-- Names that generated code itself declares. -/
def reservedNames : List String :=
  ["CodingKeys", "JSONValue"]

def checkType (typeName place type : String) : Check Unit :=
  match TypeExpr.parse type with
  | .ok _ => .ok ()
  | .error fault => .error (.invalidType place typeName fault)

/-- Fields need names, types and different wire names; `used` are the wire names before. -/
def checkFields (typeName : String) (used : List String) :
    List (String × FieldDef) → Check Unit
  | [] => .ok ()
  | (name, field) :: later => do
    let wireName := field.effectiveWireName name
    ensure (isIdentifier name) (.fieldNotIdentifier name typeName)
    checkType typeName name field.type
    ensure (!used.contains wireName) (.wireNameTwice wireName typeName)
    checkFields typeName (wireName :: used) later

def checkStruct (name : String) (d : StructDef) : Check Unit :=
  checkFields name [] d.fields.entries

/-- Cases need names and different values; `used` are the values before. -/
def checkValues (typeName : String) (used : List String) : List (String × String) → Check Unit
  | [] => .ok ()
  | (case_, value) :: later => do
    ensure (isIdentifier case_) (.caseNotIdentifier case_ typeName)
    ensure (!used.contains value) (.valueTwice value typeName)
    checkValues typeName (value :: used) later

/-- The fallback case need not be among the values. -/
def checkStringEnum (name : String) (d : StringEnumDef) : Check Unit := do
  checkValues name [] d.values.entries
  match d.fallbackCase with
  | some fallback => ensure (isIdentifier fallback) (.fallbackNotIdentifier fallback name)
  | none => .ok ()

def checkAlias (name : String) (d : AliasDef) : Check Unit := do
  ensure (!(Text.trimChars d.target.toList).isEmpty) (.emptyTarget name)
  checkType name "target" d.target

/-! ## Unions -/

/-- The fallback must be a unit variant of the union. -/
def checkFallback (name : String) (d : UnionDef) : Check Unit :=
  match d.fallbackVariant with
  | none => .ok ()
  | some fallback =>
    match d.variants.get? fallback with
    | none => .error (.fallbackNotVariant fallback name)
    | some variant => ensure variant.isUnit (.fallbackNotUnit fallback name)

/-- Inline fields stand next to the discriminator, so there must be one, and none of them may
have its key. -/
def checkPayload (union : String) (d : UnionDef) (name : String) (variant : VariantDef) :
    Check Unit :=
  match variant.payload, d.discriminator with
  | .inline _, none => .error (.inlineWithoutDiscriminator name union)
  | .inline _, some ⟨_, .wrapped⟩ => .error (.inlineUnderWrapped name union)
  | .inline fields, some ⟨discriminator, .inline⟩ => do
    checkFields union [] fields.entries
    ensure (fields.entries.all fun entry => entry.2.effectiveWireName entry.1 != discriminator)
      (.discriminatorCollision name union discriminator)
  | .wrapped type, _ => checkType union name type
  | .unit, _ => .ok ()

/-- Does the variant have a tag on the wire that must be its own? -/
def isTagged (d : UnionDef) (name : String) (variant : VariantDef) : Bool :=
  (d.discriminator.isSome || variant.tag.isSome) && !d.isFallback name

def fitsLiteral (payload : VariantPayload) : LiteralSugar → Bool
  | .string =>
    match payload with
    | .wrapped type => type == "string"
    | _ => false
  | .array =>
    match payload with
    | .wrapped type =>
      match TypeExpr.parse type with
      | .ok (.list _) => true
      | _ => false
    | _ => false

/-- What the variants before have taken: tags, and kinds of literals. -/
structure Taken where
  tags : List String
  literals : List LiteralSugar

/-- The tags taken up to a variant, whose own must be new. -/
def takeTag (union : String) (d : UnionDef) (tags : List String) (name : String)
    (variant : VariantDef) : Check (List String) := do
  if isTagged d name variant then
    let tag := variant.wireTag name
    ensure (!tags.contains tag) (.tagTwice tag union)
    return tag :: tags
  else return tags

/-- The kinds of literals taken up to a variant, whose own must be new and fit. -/
def takeLiteral (union : String) (literals : List LiteralSugar) (name : String)
    (variant : VariantDef) : Check (List LiteralSugar) := do
  match variant.literal with
  | none => return literals
  | some literal =>
    ensure (fitsLiteral variant.payload literal) (.literalMismatch literal name union)
    ensure (!literals.contains literal) (.literalTwice literal union)
    return literal :: literals

def checkVariants (union : String) (d : UnionDef) (taken : Taken) :
    List (String × VariantDef) → Check Unit
  | [] => .ok ()
  | (name, variant) :: later => do
    ensure (isIdentifier name) (.variantNotIdentifier name union)
    checkPayload union d name variant
    let tags ← takeTag union d taken.tags name variant
    let literals ← takeLiteral union taken.literals name variant
    checkVariants union d ⟨tags, literals⟩ later

/-- Without a discriminator tags must be raw values. -/
def tagsHaveMeaning (d : UnionDef) : Bool :=
  d.discriminator.isSome || d.rawValueType.isSome ||
    d.variants.entries.all fun entry => entry.2.tag.isNone || d.isFallback entry.1

/-- Is the variant one that only the absence of a value can stand for? -/
def isBareUnit (d : UnionDef) (name : String) (variant : VariantDef) : Bool :=
  variant.isUnit && d.discriminator.isNone && !d.isFallback name && variant.tag.isNone

def checkUnion (name : String) (d : UnionDef) : Check Unit := do
  checkFallback name d
  checkVariants name d ⟨[], []⟩ d.variants.entries
  ensure (d.discriminator.all fun discriminator => discriminator.field != "")
    (.emptyDiscriminator name)
  ensure (tagsHaveMeaning d) (.mixedUntagged name)
  ensure ((d.variants.entries.filter fun entry => isBareUnit d entry.1 entry.2).length ≤ 1)
    (.severalUnits name)

/-! ## Schemas -/

def checkDefinition (name : String) : TypeDef → Check Unit
  | .struct d => checkStruct name d
  | .stringEnum d => checkStringEnum name d
  | .union d => checkUnion name d
  | .typeAlias d => checkAlias name d

def checkEntry (entry : String × TypeDef) : Check Unit := do
  ensure (isIdentifier entry.1) (.typeNotIdentifier entry.1)
  ensure (!reservedNames.contains entry.1) (.typeReserved entry.1)
  checkDefinition entry.1 entry.2

def checkEntries : List (String × TypeDef) → Check Unit
  | [] => .ok ()
  | entry :: later => do
    checkEntry entry
    checkEntries later

def verify (schema : Schema) : Check Unit :=
  checkEntries schema.types.entries

end WireSchema.Verification
