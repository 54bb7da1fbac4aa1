import WireSchema.Schema.Basic
import WireSchema.Swift.TypeSyntax

/-!
# Names and types in generated code

Declared types may get a lead in front of their names, and then so do all
references to them. Names that are keywords are put in backticks. `resolve` reads
the types of fields and variants, so that what is rendered is known to be right.
-/

namespace WireSchema.Generation

/-- Words that no declaration may have as its plain name. -/
def keywords : List String :=
  ["associatedtype", "class", "deinit", "enum", "extension", "fileprivate", "func", "import",
    "init", "inout", "internal", "let", "operator", "private", "precedencegroup", "protocol",
    "public", "rethrows", "static", "struct", "subscript", "typealias", "var", "break", "case",
    "catch", "continue", "default", "defer", "do", "else", "fallthrough", "for", "guard", "if",
    "in", "repeat", "return", "throw", "switch", "where", "while", "as", "Any", "is", "nil",
    "self", "Self"]

/-- Further words that are only sometimes keywords. -/
def contextualKeywords : List String :=
  ["super", "throws", "true", "false", "try", "Protocol"]

/-- The name as it is written in code. -/
def identifier (name : String) : String :=
  if keywords.contains name || contextualKeywords.contains name then "\x60" ++ name ++ "\x60"
  else name

/-- How types are named: `lead` stands in front of the names in `declared`. -/
structure Namer where
  lead : String
  declared : List String

namespace Namer

def ofSchema (lead : String) (schema : Schema) : Namer :=
  ⟨lead, schema.types.names⟩

def typeName (namer : Namer) (name : String) : String :=
  namer.lead ++ name

def reference (namer : Namer) (name : String) : String :=
  if namer.declared.contains name then namer.typeName name else name

/-- The type that a text denotes, declared types under their names in code. -/
def resolve (namer : Namer) (type : String) : Except TypeExpr.Fault TypeExpr :=
  (TypeExpr.parse type).map (TypeExpr.rename namer.reference)

def fieldType (namer : Namer) (field : FieldDef) : Except TypeExpr.Fault TypeExpr :=
  (namer.resolve field.type).map fun t => if field.isOptional then t.asOptional else t

end Namer

/-! ## Resolved definitions -/

/-- A field with the type it has in code. -/
structure FieldForm where
  name : String
  wireName : String
  type : TypeExpr
  isOptional : Bool
  doc : Option String

inductive PayloadForm where
  | unit
  | wrapped (type : TypeExpr)
  | inline (fields : List FieldForm)

structure VariantForm where
  name : String
  tag : String
  payload : PayloadForm
  literal : Option LiteralSugar
  doc : Option String
  isFallback : Bool

namespace Namer

def resolveFields (namer : Namer) :
    List (String × FieldDef) → Except TypeExpr.Fault (List FieldForm)
  | [] => .ok []
  | (name, field) :: later => do
    let type ← namer.fieldType field
    let fields ← namer.resolveFields later
    let form : FieldForm :=
      { name, wireName := field.effectiveWireName name, type, isOptional := field.isOptional
        doc := field.doc }
    return form :: fields

/-- The payload; one of no fields is none. -/
def resolvePayload (namer : Namer) : VariantPayload → Except TypeExpr.Fault PayloadForm
  | .unit => .ok .unit
  | .wrapped type => (namer.resolve type).map .wrapped
  | .inline fields =>
    if fields.isEmpty then .ok .unit else (namer.resolveFields fields.entries).map .inline

def resolveVariants (namer : Namer) (d : UnionDef) :
    List (String × VariantDef) → Except TypeExpr.Fault (List VariantForm)
  | [] => .ok []
  | (name, variant) :: later => do
    let payload ← namer.resolvePayload variant.payload
    let variants ← namer.resolveVariants d later
    let form : VariantForm :=
      { name, tag := variant.wireTag name, payload, literal := variant.literal
        doc := variant.doc, isFallback := d.isFallback name }
    return form :: variants

end Namer

/-- The variants of a union, the fallback after all others. -/
def orderedVariants (d : UnionDef) : List (String × VariantDef) :=
  (d.variants.entries.filter fun entry => !d.isFallback entry.1) ++
    d.variants.entries.filter fun entry => d.isFallback entry.1

end WireSchema.Generation
