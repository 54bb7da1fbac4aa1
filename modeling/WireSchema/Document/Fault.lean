import WireSchema.TypeExpr.Parser

/-!
# What can be wrong with a schema document

Faults end the reading of a document. A malformed entry is a fault in strict
reading and a warning otherwise; `SkipReason` says what was wrong with it.
-/

namespace WireSchema.Document

inductive SkipReason where
  | notBoolean
  | notDirection
  | notString
  | notUnknownHandling
  | notMapping
  | fieldNameNotString
  | fieldWithoutType
  | wireNameNotString
  | requiredNotBoolean
  | literalNotScalar
  | caseNameNotString
  | discriminatorWithoutField
  | unknownStyle
  | variantNameNotString
  | tagNotScalar
  | payloadAndFields
  | payloadNotType
  | unknownLiteral
  | invalidType (fault : TypeExpr.Fault)
deriving DecidableEq, Repr

def SkipReason.message : SkipReason → String
  | notBoolean => "expected a boolean"
  | notDirection => "expected one of encode, decode, both"
  | notString => "expected a string"
  | notUnknownHandling => "expected fallback or error"
  | notMapping => "expected a mapping"
  | fieldNameNotString => "field name is not a string"
  | fieldWithoutType => "field has no type"
  | wireNameNotString => "wire_name is not a string"
  | requiredNotBoolean => "required is not a boolean"
  | literalNotScalar => "enum value is not a scalar"
  | caseNameNotString => "case name is not a string"
  | discriminatorWithoutField => "missing field"
  | unknownStyle => "style must be inline or wrapped"
  | variantNameNotString => "variant name is not a string"
  | tagNotScalar => "tag is not a scalar"
  | payloadAndFields => "variant has both payload and fields"
  | payloadNotType => "payload is not a type string"
  | unknownLiteral => "literal must be string or array"
  | invalidType fault => TypeExpr.invalidMessage fault.message

inductive Malformation where
  | rootNotMapping
  | versionNotScalar
  | providerNotScalar
  | typesNotMapping
  | typeNameNotString (shown : String)
  | typeNotMapping (name : String)
deriving DecidableEq, Repr

def Malformation.message : Malformation → String
  | rootNotMapping => "the document root is not a mapping"
  | versionNotScalar => "\"version\" must be a scalar"
  | providerNotScalar => "\"provider\" must be a scalar"
  | typesNotMapping => "\"types\" is not a mapping"
  | typeNameNotString shown => "type name " ++ shown ++ " is not a string"
  | typeNotMapping name => "type \"" ++ name ++ "\" is not a mapping"

inductive Fault where
  /-- The text is no YAML. -/
  | unreadable
  | malformed (what : Malformation)
  | missingField (field typeName : String)
  | unknownKind (kind typeName : String)
  | invalidEntry (typeName entry : String) (reason : SkipReason)
deriving DecidableEq, Repr

/-- The message of a fault; a text that is no YAML has none. -/
def Fault.message? : Fault → Option String
  | unreadable => none
  | malformed what => some ("Malformed schema document: " ++ what.message)
  | missingField field typeName =>
    some ("Missing required field \"" ++ field ++ "\" in type \"" ++ typeName ++ "\"")
  | unknownKind kind typeName =>
    some ("Unknown kind \"" ++ kind ++ "\" for type \"" ++ typeName ++ "\"")
  | invalidEntry typeName entry reason =>
    some ("Invalid entry \"" ++ entry ++ "\" in type \"" ++ typeName ++ "\": " ++ reason.message)

inductive Warning where
  | unrecognizedVersion (version : String)
  | skippedEntry (typeName entry : String) (reason : SkipReason)
deriving DecidableEq, Repr

def Warning.message : Warning → String
  | unrecognizedVersion _ => "schema document has an unrecognized version"
  | skippedEntry .. => "skipping malformed schema entry"

end WireSchema.Document
