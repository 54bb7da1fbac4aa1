import WireSchema.Generation.Lines

/-!
# Structs in generated code

A struct has a constant for each field, coding keys if some wire key differs from
its field, and an initializer for all fields, in which optional ones may be left
out.
-/

namespace WireSchema.Generation

def fieldLines (field : FieldForm) : List String :=
  docLines "    " field.doc ++
    ["    public let " ++ identifier field.name ++ ": " ++ Swift.typeText field.type]

def parameter (field : FieldForm) : String :=
  "        " ++ identifier field.name ++ ": " ++ Swift.typeText field.type ++
    (if field.isOptional then " = nil" else "")

def assignment (field : FieldForm) : String :=
  "        self." ++ identifier field.name ++ " = " ++ identifier field.name

/-- The coding keys of a struct; none if every wire key is the name of its field. -/
def structKeyLines (fields : List FieldForm) : List String :=
  if fields.any fun field => field.wireName != field.name then
    codingKeyLines (fields.map fun field => (field.name, field.wireName))
  else []

def initializerLines (fields : List FieldForm) : List String :=
  if fields.isEmpty then ["    public init() \x7b\x7d"]
  else
    ["", "    public init("] ++ commaSeparated (fields.map parameter) ++ ["    ) \x7b"] ++
      fields.map assignment ++ ["    \x7d"]

def structLines (namer : Namer) (name : String) (d : StructDef) :
    Except TypeExpr.Fault (List String) := do
  let fields ← namer.resolveFields d.fields.entries
  return docLines "" d.doc ++
    ["public struct " ++ namer.typeName name ++ ": " ++ conformance d.direction ++
      ", Sendable \x7b"] ++
    fields.flatMap fieldLines ++ structKeyLines fields ++ initializerLines fields ++ ["\x7d"]

end WireSchema.Generation
