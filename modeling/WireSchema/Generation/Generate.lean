import WireSchema.Generation.Struct
import WireSchema.Generation.Union
import WireSchema.Verification.Rules

/-!
# Generating code

`render` writes one file for each type of a schema, in the order of their names.
`generate` does so only for a schema that passes verification.
-/

namespace WireSchema.Generation

structure GeneratedFile where
  fileName : String
  content : String
deriving DecidableEq, Repr

def header : String := "// Generated by wirekit. Do not edit."

def aliasLines (namer : Namer) (name : String) (d : AliasDef) :
    Except TypeExpr.Fault (List String) := do
  let target := Swift.typeText (← namer.resolve d.target)
  let deprecation :=
    if d.deprecated then
      ["@available(*, deprecated, message: " ++
        Swift.stringLiteral ("Use " ++ target ++ " instead") ++ ")"]
    else []
  return docLines "" d.doc ++ deprecation ++
    ["public typealias " ++ namer.typeName name ++ " = " ++ target]

def definitionLines (namer : Namer) (name : String) : TypeDef → Except TypeExpr.Fault (List String)
  | .struct d => structLines namer name d
  | .stringEnum d => .ok (stringEnumLines namer name d)
  | .union d => unionLines namer name d
  | .typeAlias d => aliasLines namer name d

def renderType (namer : Namer) (name : String) (definition : TypeDef) :
    Except TypeExpr.Fault GeneratedFile := do
  let lines ← definitionLines namer name definition
  let content := header ++ "\n\nimport Foundation\n\n" ++ joinLines lines
  return ⟨namer.typeName name ++ ".swift", content⟩

def renderTypes (namer : Namer) :
    List (String × TypeDef) → Except TypeExpr.Fault (List GeneratedFile)
  | [] => .ok []
  | (name, definition) :: later => do
    let file ← renderType namer name definition
    let files ← renderTypes namer later
    return file :: files

/-- The files for a schema, with `lead` in front of the names of all types. -/
def render (schema : Schema) (lead : String) : Except TypeExpr.Fault (List GeneratedFile) :=
  renderTypes (.ofSchema lead schema) schema.types.entries

/-! ## Languages -/

inductive Language where
  | swift
deriving DecidableEq, Repr

namespace Language

def name : Language → String
  | swift => "swift"

def fileExtension : Language → String
  | swift => "swift"

/-- The language of a name, whatever its case and the white space around it. -/
def ofName? (text : String) : Option Language :=
  if (Text.trim text).toLower = "swift" then some swift else none

end Language

inductive Fault where
  | violation (violation : Verification.Violation)
  | invalidType (fault : TypeExpr.Fault)
deriving DecidableEq, Repr

/-- The files for a schema that passes verification. -/
def generate (schema : Schema) (language : Language) (lead : String) :
    Except Fault (List GeneratedFile) :=
  match Verification.verify schema with
  | .error violation => .error (.violation violation)
  | .ok () =>
    match language with
    | .swift => (render schema lead).mapError .invalidType

end WireSchema.Generation
