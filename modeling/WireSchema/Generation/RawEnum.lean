import WireSchema.Generation.Lines

/-!
# Enums with raw values in generated code

String enums, and unions whose tags are numbers. The fallback case of a string enum
has its own name as its raw value; that of a numbered enum takes the first whole
number after the greatest tag.
-/

namespace WireSchema.Generation

/-! ## String enums -/

/-- The fallback case, if there is one that is not among the values. -/
def addedCase (d : StringEnumDef) : List String :=
  match d.fallbackCase with
  | some fallback =>
    if d.values.contains fallback then [] else ["    case " ++ identifier fallback]
  | none => []

def fallbackDecoder (direction : Direction) (rawType : String) (fallback : Option String) :
    List String :=
  match fallback with
  | some fallback => if direction.allowsDecode then rawValueDecoder rawType fallback else []
  | none => []

def stringEnumLines (namer : Namer) (name : String) (d : StringEnumDef) : List String :=
  docLines "" d.doc ++
    ["public enum " ++ namer.typeName name ++ ": String, " ++ conformance d.direction ++
      ", Sendable \x7b"] ++
    (d.values.entries.map fun entry => stringCase "    " entry.1 entry.2) ++ addedCase d ++
    fallbackDecoder d.direction "String" d.fallbackCase ++ ["\x7d"]

/-! ## Numbered enums -/

def rawTypeName : RawKind → String
  | .int => "Int"
  | .float => "Double"

/-- The greater of two numbers that may be missing. -/
def greatest (a b : Option Int) : Option Int :=
  match a, b with
  | some m, some n => some (max m n)
  | some m, none => some m
  | none, n => n

/-- The number that a tag denotes as a double, in units of the least one. -/
def tagUnits? (tag : String) : Option Int :=
  (Number.readFinite? tag.toList).bind Number.Binary64.units?

/-- The first whole number after the greatest of the tags, all taken as doubles. After the last
integer of 64 bits it is the least one, as in a build without overflow checks (`nextInt64`). -/
def nextRawValue (tags : List String) : Int :=
  match (tags.map tagUnits?).foldl greatest none with
  | some units => Number.nextInt64 (Number.clampInt64 (Number.floorUnits units))
  | none => 0

/-- The variants of a numbered enum that have a tag of their own. -/
def numberedVariants (d : UnionDef) : List (String × VariantDef) :=
  d.variants.entries.filter fun entry => !d.isFallback entry.1

def fallbackRawValue (d : UnionDef) : Int :=
  nextRawValue ((numberedVariants d).map fun entry => entry.2.wireTag entry.1)

def numberedCaseLines (name : String) (variant : VariantDef) : List String :=
  docLines "    " variant.doc ++
    ["    case " ++ identifier name ++ " = " ++ variant.wireTag name]

def numberedFallbackLines (d : UnionDef) : List String :=
  match d.fallbackVariant with
  | some fallback =>
    docLines "    " ((d.variants.get? fallback).bind VariantDef.doc) ++
      ["    case " ++ identifier fallback ++ " = " ++ Number.decimal (fallbackRawValue d)]
  | none => []

def numberedEnumLines (namer : Namer) (name : String) (d : UnionDef) (raw : RawKind) :
    List String :=
  docLines "" d.doc ++
    ["public enum " ++ namer.typeName name ++ ": " ++ rawTypeName raw ++ ", " ++
      conformance d.direction ++ ", Sendable \x7b"] ++
    ((numberedVariants d).flatMap fun entry => numberedCaseLines entry.1 entry.2) ++
    numberedFallbackLines d ++
    fallbackDecoder d.direction (rawTypeName raw) d.fallbackVariant ++ ["\x7d"]

end WireSchema.Generation
