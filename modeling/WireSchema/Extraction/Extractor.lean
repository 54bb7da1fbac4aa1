import WireSchema.Extraction.Lowering
import WireSchema.Swift.Parser.Source

/-!
# Extraction

Sources are parsed one by one; extraction sees all of them at once, because an
extension in one may belong to a type in another. `declarations` lowers what the
sources declare, in their order, and `extract` merges the result into a schema.
-/

namespace WireSchema.Extraction

open Swift

structure Options where
  /-- The provider of the schema. -/
  provider : String
  /-- The name of the case that absorbs unknown values. -/
  fallbackCase : String
  strictness : Strictness
deriving DecidableEq, Repr

abbrev Extracting := Logged Warning Fault

/-- A declaration that must be dropped is a fault in strict extraction, and left out with a
warning otherwise. -/
def settle (strictness : Strictness) (name : String) (lowering : Lowering TypeDef) :
    Extracting (Option TypeDef) :=
  match lowering.result with
  | .ok definition => ⟨lowering.log, .ok (some definition)⟩
  | .error reason =>
    match strictness with
    | .strict => ⟨lowering.log, .error (.dropped name reason)⟩
    | .lenient => ⟨lowering.log ++ [.dropping name reason], .ok none⟩

def extensionsOf (decls : List Decl) : List ExtensionDecl :=
  decls.filterMap fun decl =>
    match decl with
    | .extension extension_ => some extension_
    | _ => none

def extensionsNamed (extensions : List ExtensionDecl) (name : String) : List ExtensionDecl :=
  extensions.filter fun extension_ => extension_.name == name

/-- The name of a declaration and its lowering, if it declares a data type. -/
def lowerDecl (fallbackCase : String) (extensions : List ExtensionDecl) :
    Decl → Option (String × Lowering TypeDef)
  | .type decl =>
    (lowerType fallbackCase ⟨decl, extensionsNamed extensions decl.name⟩).map (decl.name, ·)
  | .typealias decl => if decl.isGeneric then none else some (decl.name, lowerAlias decl)
  | .extension _ => none

def extractDecl (options : Options) (extensions : List ExtensionDecl) (decl : Decl) :
    Extracting (Option (String × TypeDef)) :=
  match lowerDecl options.fallbackCase extensions decl with
  | none => return none
  | some (name, lowering) => do
    let definition? ← settle options.strictness name lowering
    return definition?.map (name, ·)

def declarations (options : Options) (sources : List (List Decl)) :
    Extracting (List (String × TypeDef)) :=
  Logged.collect (extractDecl options (extensionsOf sources.flatten)) sources.flatten

/-- Adds definitions to a schema. Of two with one name the later counts; in strict extraction
they are a fault. -/
def mergeInto (strictness : Strictness) (schema : Schema) :
    List (String × TypeDef) → Extracting Schema
  | [] => return schema
  | (name, definition) :: later => do
    if schema.types.contains name then
      match strictness with
      | .strict => Logged.fail (.duplicateType name)
      | .lenient => Logged.warn (.duplicateType name)
    mergeInto strictness { schema with types := schema.types.insert name definition } later

def extract (options : Options) (sources : List (List Decl)) : Extracting Schema := do
  let definitions ← declarations options sources
  mergeInto options.strictness (.ofProvider options.provider) definitions

end WireSchema.Extraction
