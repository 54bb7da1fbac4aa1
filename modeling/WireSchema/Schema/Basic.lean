import WireSchema.NameMap
import WireSchema.Number.Binary64
import WireSchema.Text.Blank
import WireSchema.TypeExpr.Parser

/-!
# The schema model

A schema names types of four kinds: structs, string enums, unions and aliases.
Every collection is a `NameMap`, so a schema does not remember the order in which
it was filled. Types are kept as the texts they were written in; a field's text
and its `required` flag together say whether the field is optional.
-/

namespace WireSchema

/-- The version written into schema documents and expected in them. -/
def schemaVersion : String := "1"

/-- The usual name of the case that absorbs unknown wire values. -/
def defaultFallbackCase : String := "futureProof"

inductive Direction where
  | encode
  | decode
  | both
deriving DecidableEq, Repr

namespace Direction

def name : Direction → String
  | encode => "encode"
  | decode => "decode"
  | both => "both"

def ofName? : String → Option Direction
  | "encode" => some encode
  | "decode" => some decode
  | "both" => some both
  | _ => none

def allowsEncode : Direction → Bool
  | decode => false
  | _ => true

def allowsDecode : Direction → Bool
  | encode => false
  | _ => true

/-- Evidence for two directions is evidence for both, unless they are the same one. -/
def merge (a b : Direction) : Direction :=
  if a = b then a else both

end Direction

/-- What decoding does with a wire value that matches no declared case. -/
inductive UnknownHandling where
  | error
  | fallback (name : String)
deriving DecidableEq, Repr

def UnknownHandling.fallbackName? : UnknownHandling → Option String
  | error => none
  | fallback name => some name

def fallbackOf (handling : Option UnknownHandling) : Option String :=
  handling.bind UnknownHandling.fallbackName?

/-! ## Fields -/

/-- A field: its type as text, the key it has on the wire if that differs from its name,
whether it must be present, and its documentation. -/
structure FieldDef where
  type : String
  wireName : Option String
  required : Bool
  doc : Option String
deriving DecidableEq

/-- Does the type text end in a question mark, white space aside? -/
def endsOptional (type : String) : Bool :=
  (Text.trimEndChars type.toList).getLast? == some '?'

namespace FieldDef

/-- A field of the given type that is required unless the type text is optional. -/
def ofType (type : String) : FieldDef :=
  { type, wireName := none, required := !endsOptional type, doc := none }

def effectiveWireName (field : FieldDef) (name : String) : String :=
  field.wireName.getD name

def isRemapped (field : FieldDef) (name : String) : Bool :=
  field.effectiveWireName name != name

def isOptional (field : FieldDef) : Bool :=
  !field.required || endsOptional field.type

/-- The type text with optionality folded in. -/
def canonicalType (field : FieldDef) : String :=
  let type := Text.trimEnd field.type
  if field.required || endsOptional field.type then type else type ++ "?"

def typeExpr (field : FieldDef) : Except TypeExpr.Fault TypeExpr :=
  TypeExpr.parse field.type

end FieldDef

/-! ## Structs, string enums and aliases -/

structure StructDef where
  direction : Direction
  doc : Option String
  fields : NameMap FieldDef
deriving DecidableEq

/-- An enum of strings: `values` holds the wire literal of each case. -/
structure StringEnumDef where
  direction : Direction
  doc : Option String
  unknownHandling : Option UnknownHandling
  values : NameMap String
deriving DecidableEq

def StringEnumDef.fallbackCase (d : StringEnumDef) : Option String :=
  fallbackOf d.unknownHandling

structure AliasDef where
  target : String
  deprecated : Bool
  doc : Option String
deriving DecidableEq

/-! ## Unions -/

/-- Where the payload of a tagged union lies. -/
inductive DiscriminatorStyle where
  /-- The tag sits next to the payload's own fields. -/
  | inline
  /-- The payload is nested under a key equal to the tag. -/
  | wrapped
deriving DecidableEq, Repr

namespace DiscriminatorStyle

def name : DiscriminatorStyle → String
  | inline => "inline"
  | wrapped => "wrapped"

def ofName? : String → Option DiscriminatorStyle
  | "inline" => some inline
  | "wrapped" => some wrapped
  | _ => none

end DiscriminatorStyle

/-- The wire key that holds the tag, and where the payload lies. -/
structure Discriminator where
  field : String
  style : DiscriminatorStyle
deriving DecidableEq, Repr

/-- The kind of source literal a variant may be written as. -/
inductive LiteralSugar where
  | string
  | array
deriving DecidableEq, Repr

namespace LiteralSugar

def name : LiteralSugar → String
  | string => "string"
  | array => "array"

def ofName? : String → Option LiteralSugar
  | "string" => some string
  | "array" => some array
  | _ => none

end LiteralSugar

/-- What a variant carries: nothing, one value of another type, or fields of its own. -/
inductive VariantPayload where
  | unit
  | wrapped (type : String)
  | inline (fields : NameMap FieldDef)
deriving DecidableEq

structure VariantDef where
  tag : Option String
  payload : VariantPayload
  literal : Option LiteralSugar
  doc : Option String
deriving DecidableEq

namespace VariantDef

def ofPayload (payload : VariantPayload) : VariantDef :=
  { tag := none, payload, literal := none, doc := none }

def isUnit (variant : VariantDef) : Bool :=
  variant.payload == .unit

/-- The tag on the wire, which is the variant's name if no tag is given. -/
def wireTag (variant : VariantDef) (name : String) : String :=
  variant.tag.getD name

end VariantDef

structure UnionDef where
  direction : Direction
  doc : Option String
  discriminator : Option Discriminator
  unknownHandling : Option UnknownHandling
  variants : NameMap VariantDef
deriving DecidableEq

inductive RawKind where
  | int
  | float
deriving DecidableEq, Repr

namespace RawKind

/-- Is the text the plain decimal form of a signed 64-bit integer? -/
def isIntTag (tag : String) : Bool :=
  match Number.readInt64? 10 tag.toList with
  | some n => Number.decimal n == tag
  | none => false

/-- Is the text a finite number written with digits at both ends, apart from a minus
sign in front? -/
def isFloatTag (tag : String) : Bool :=
  let digits := (Text.stripStart? ['-'] tag.toList).getD tag.toList
  let isInner := fun c : Char => c.isDigit || c == '.' || c == 'e' || c == 'E' || c == '-' || c == '+'
  (digits.head?.any Char.isDigit) && (digits.getLast?.any Char.isDigit) && digits.all isInner &&
    (Number.readFinite? tag.toList).isSome

def ofTag? (tag : String) : Option RawKind :=
  if isIntTag tag then some int
  else if isFloatTag tag then some float
  else none

def merge : RawKind → RawKind → RawKind
  | int, int => int
  | _, _ => float

end RawKind

namespace UnionDef

def fallbackVariant (d : UnionDef) : Option String :=
  fallbackOf d.unknownHandling

def isFallback (d : UnionDef) (name : String) : Bool :=
  d.fallbackVariant == some name

/-- The kind of number that tags one variant of a raw-valued enum: it must be a unit with
a tag that is a number. -/
def rawKindOf? (variant : VariantDef) : Option RawKind :=
  if variant.isUnit then variant.tag.bind RawKind.ofTag? else none

/-- The kind that covers a list of kinds, if none is missing and there is one at all. -/
def coveringKind? : List (Option RawKind) → Option RawKind
  | [] => none
  | [kind?] => kind?
  | kind? :: later =>
    match kind?, coveringKind? later with
    | some a, some b => some (a.merge b)
    | _, _ => none

/-- The number type of a union that is a raw-valued enum on the wire: no discriminator,
and every variant but the fallback a unit tagged with a number. -/
def rawValueType (d : UnionDef) : Option RawKind :=
  if d.discriminator.isSome then none
  else
    coveringKind?
      ((d.variants.entries.filter fun entry => !d.isFallback entry.1).map fun entry =>
        rawKindOf? entry.2)

end UnionDef

/-! ## Definitions and schemas -/

inductive TypeDef where
  | struct (d : StructDef)
  | stringEnum (d : StringEnumDef)
  | union (d : UnionDef)
  | typeAlias (d : AliasDef)
deriving DecidableEq

namespace TypeDef

def kind : TypeDef → String
  | struct _ => "struct"
  | stringEnum _ => "string_enum"
  | union _ => "union"
  | typeAlias _ => "alias"

def doc : TypeDef → Option String
  | struct d => d.doc
  | stringEnum d => d.doc
  | union d => d.doc
  | typeAlias d => d.doc

/-- Aliases have no direction of their own. -/
def direction? : TypeDef → Option Direction
  | struct d => some d.direction
  | stringEnum d => some d.direction
  | union d => some d.direction
  | typeAlias _ => none

end TypeDef

/-- A schema: the version of its form, the provider it describes, and its types. -/
structure Schema where
  version : String
  provider : String
  types : NameMap TypeDef
deriving DecidableEq

def Schema.ofProvider (provider : String) : Schema :=
  { version := schemaVersion, provider, types := .empty }

end WireSchema
