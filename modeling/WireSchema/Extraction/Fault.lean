import WireSchema.Swift.TypeSyntax

/-!
# What can go wrong in an extraction

A declaration that has no counterpart in a schema is dropped, with a warning or as
a fault; `DropReason` says why.
-/

namespace WireSchema.Extraction

inductive DropReason where
  | rawType (type : TypeExpr)
  | fieldType (field : String) (error : Swift.TypeError)
  | carriesValues (case_ : String)
  | rawValueNotString (case_ raw : String)
  | rawValueNotNumber (case_ : String)
  | payloadType (case_ : String) (error : Swift.TypeError)
  | labeledType (case_ label : String) (error : Swift.TypeError)
  | mixedPayload (case_ : String)
  | labeledWithoutDiscriminator
  | labeledWrapped
  | aliasTarget (error : Swift.TypeError)
deriving DecidableEq, Repr

def DropReason.message : DropReason → String
  | rawType type => "raw type " ++ type.text ++ " is not supported"
  | fieldType field error => "field \"" ++ field ++ "\": " ++ error.message
  | carriesValues case_ => "case \"" ++ case_ ++ "\" has associated values"
  | rawValueNotString case_ raw => "case \"" ++ case_ ++ "\" has raw value " ++ raw
  | rawValueNotNumber case_ => "case \"" ++ case_ ++ "\" has no numeric raw value"
  | payloadType case_ error => "case \"" ++ case_ ++ "\": " ++ error.message
  | labeledType case_ label error => "case \"" ++ case_ ++ "." ++ label ++ "\": " ++ error.message
  | mixedPayload case_ => "case \"" ++ case_ ++ "\" mixes labeled and positional values"
  | labeledWithoutDiscriminator => "labeled case payloads need a discriminator"
  | labeledWrapped => "labeled case payloads cannot use the wrapped style"
  | aliasTarget error => error.message

inductive Warning where
  | dropping (name : String) (reason : DropReason)
  | missingType (typeName property : String)
  | noTags (union : String) (cases : List String)
  /-- A union conforms to a literal protocol, but no case is known to be written so. -/
  | unclearLiteral (union protocol : String)
  | duplicateType (name : String)
deriving DecidableEq, Repr

def Warning.message : Warning → String
  | dropping name reason => "Dropping \"" ++ name ++ "\": " ++ reason.message
  | missingType typeName property =>
    "Skipping \"" ++ typeName ++ "." ++ property ++ "\": no type annotation"
  | noTags union cases =>
    "Union \"" ++ union ++ "\": no wire tag found for " ++ String.intercalate ", " cases ++
      "; they use their case names"
  | unclearLiteral union protocol =>
    "Union \"" ++ union ++ "\": cannot tell which case " ++ protocol ++ " initializes"
  | duplicateType name =>
    "Type \"" ++ name ++ "\" is declared more than once; keeping the last one"

inductive Fault where
  | dropped (name : String) (reason : DropReason)
  | duplicateType (name : String)
deriving DecidableEq, Repr

def Fault.message : Fault → String
  | dropped name reason => "Could not extract \"" ++ name ++ "\": " ++ reason.message
  | duplicateType name => "The type \"" ++ name ++ "\" is declared more than once"

end WireSchema.Extraction
