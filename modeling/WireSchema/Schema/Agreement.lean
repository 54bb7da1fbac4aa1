import WireSchema.Schema.Basic

/-!
# Agreement of schemas

Two schemas agree if they say the same about the wire. Fields are compared by
their canonical type, so a field that is not required agrees with one of optional
type; variants by their wire tag, so a variant tagged with its own name agrees
with an untagged one; and unspecified handling of unknown values agrees with
rejecting them.
-/

namespace WireSchema

/-- Do two lists of entries have the same names in the same order, with values that
agree? -/
def entriesAgree {α : Type} (agree : String → α → α → Bool) :
    List (String × α) → List (String × α) → Bool
  | [], [] => true
  | a :: as, b :: bs => a.1 == b.1 && agree a.1 a.2 b.2 && entriesAgree agree as bs
  | _, _ => false

namespace FieldDef

def agrees (a b : FieldDef) : Bool :=
  a.canonicalType == b.canonicalType && a.wireName == b.wireName && a.doc == b.doc

end FieldDef

def fieldsAgree (a b : NameMap FieldDef) : Bool :=
  entriesAgree (fun _ => FieldDef.agrees) a.entries b.entries

namespace VariantPayload

def agrees : VariantPayload → VariantPayload → Bool
  | unit, unit => true
  | wrapped a, wrapped b => a == b
  | inline a, inline b => fieldsAgree a b
  | _, _ => false

end VariantPayload

def VariantDef.agrees (name : String) (a b : VariantDef) : Bool :=
  a.wireTag name == b.wireTag name && a.payload.agrees b.payload && a.literal == b.literal &&
    a.doc == b.doc

def StructDef.agrees (a b : StructDef) : Bool :=
  a.direction == b.direction && a.doc == b.doc && fieldsAgree a.fields b.fields

def StringEnumDef.agrees (a b : StringEnumDef) : Bool :=
  a.direction == b.direction && a.doc == b.doc && a.fallbackCase == b.fallbackCase &&
    a.values == b.values

def UnionDef.agrees (a b : UnionDef) : Bool :=
  a.direction == b.direction && a.doc == b.doc && a.discriminator == b.discriminator &&
    a.fallbackVariant == b.fallbackVariant &&
    entriesAgree VariantDef.agrees a.variants.entries b.variants.entries

def TypeDef.agrees : TypeDef → TypeDef → Bool
  | struct a, struct b => a.agrees b
  | stringEnum a, stringEnum b => a.agrees b
  | union a, union b => a.agrees b
  | typeAlias a, typeAlias b => a == b
  | _, _ => false

def Schema.agrees (a b : Schema) : Bool :=
  a.version == b.version && a.provider == b.provider &&
    entriesAgree (fun _ => TypeDef.agrees) a.types.entries b.types.entries

end WireSchema
