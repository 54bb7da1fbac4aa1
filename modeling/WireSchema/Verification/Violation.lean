import WireSchema.Schema.Basic
import WireSchema.Text.Quoted

/-!
# Rules a schema can violate

Code can be generated only from a schema whose names can be declared and whose
wire form is unambiguous. Each constructor is one way to violate that.
-/

namespace WireSchema.Verification

open Text (quote)

inductive Violation where
  | typeNotIdentifier (name : String)
  | typeReserved (name : String)
  | emptyTarget (alias_ : String)
  | invalidType (place typeName : String) (fault : TypeExpr.Fault)
  | fieldNotIdentifier (field typeName : String)
  | wireNameTwice (wireName typeName : String)
  | caseNotIdentifier (case_ typeName : String)
  | valueTwice (value typeName : String)
  | fallbackNotIdentifier (fallback typeName : String)
  | fallbackNotVariant (fallback union : String)
  | fallbackNotUnit (fallback union : String)
  | variantNotIdentifier (variant union : String)
  | inlineWithoutDiscriminator (variant union : String)
  | inlineUnderWrapped (variant union : String)
  | discriminatorCollision (variant union field : String)
  | tagTwice (tag union : String)
  | literalMismatch (literal : LiteralSugar) (variant union : String)
  | literalTwice (literal : LiteralSugar) (union : String)
  | emptyDiscriminator (union : String)
  | mixedUntagged (union : String)
  | severalUnits (union : String)
deriving DecidableEq, Repr

def Violation.message : Violation → String
  | typeNotIdentifier name => "The type name " ++ quote name ++ " is not an identifier"
  | typeReserved name => "The type name " ++ quote name ++ " is reserved"
  | emptyTarget alias_ => "The alias " ++ quote alias_ ++ " has an empty target"
  | invalidType place typeName fault =>
    quote place ++ " of " ++ quote typeName ++ " has an invalid type: " ++
      TypeExpr.invalidMessage fault.message
  | fieldNotIdentifier field typeName =>
    "The field " ++ quote field ++ " of " ++ quote typeName ++ " is not an identifier"
  | wireNameTwice wireName typeName =>
    "The wire name " ++ quote wireName ++ " is used twice in " ++ quote typeName
  | caseNotIdentifier case_ typeName =>
    "The case " ++ quote case_ ++ " of " ++ quote typeName ++ " is not an identifier"
  | valueTwice value typeName =>
    "The value " ++ quote value ++ " is used twice in " ++ quote typeName
  | fallbackNotIdentifier fallback typeName =>
    "The fallback case " ++ quote fallback ++ " of " ++ quote typeName ++ " is not an identifier"
  | fallbackNotVariant fallback union =>
    "The fallback variant " ++ quote fallback ++ " is not a variant of " ++ quote union
  | fallbackNotUnit fallback union =>
    "The fallback variant " ++ quote fallback ++ " of " ++ quote union ++
      " must not carry a payload"
  | variantNotIdentifier variant union =>
    "The variant " ++ quote variant ++ " of " ++ quote union ++ " is not an identifier"
  | inlineWithoutDiscriminator variant union =>
    "The variant " ++ quote variant ++ " of " ++ quote union ++
      " has inline fields but the union has no discriminator"
  | inlineUnderWrapped variant union =>
    "The variant " ++ quote variant ++ " of " ++ quote union ++
      " has inline fields, which need the inline style"
  | discriminatorCollision variant union field =>
    "A field of variant " ++ quote variant ++ " in " ++ quote union ++
      " collides with the discriminator " ++ quote field
  | tagTwice tag union => "The tag " ++ quote tag ++ " is used twice in " ++ quote union
  | literalMismatch literal variant union =>
    "The " ++ literal.name ++ " literal of variant " ++ quote variant ++ " in " ++ quote union ++
      " needs a matching wrapped payload"
  | literalTwice literal union =>
    "More than one variant of " ++ quote union ++ " takes a " ++ literal.name ++ " literal"
  | emptyDiscriminator union => "The discriminator of " ++ quote union ++ " is empty"
  | mixedUntagged union =>
    "The untagged union " ++ quote union ++
      " mixes tagged variants with payloads or non-numeric tags"
  | severalUnits union => "The untagged union " ++ quote union ++ " has more than one unit variant"

end WireSchema.Verification
