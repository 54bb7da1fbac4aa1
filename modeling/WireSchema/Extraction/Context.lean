import WireSchema.NameMap
import WireSchema.Schema.Basic
import WireSchema.Swift.Declaration
import WireSchema.Swift.TypeSyntax

/-!
# A type together with its extensions

Conformances and functions may be declared with the type or in any extension of
it, so they are looked up in both: first in the declaration, then in the
extensions in their order.
-/

namespace WireSchema.Extraction

open Swift

/-- A type declaration with the extensions of the type. -/
structure TypeContext where
  decl : TypeDecl
  extensions : List ExtensionDecl

inductive RawType where
  | number
  | text
  | unsupported (p : Primitive)
deriving DecidableEq, Repr

namespace TypeContext

variable (ctx : TypeContext)

/-- The names of all types that the type conforms to or inherits from. -/
def conformances : List String :=
  (ctx.decl.inherited ++ ctx.extensions.flatMap fun extension_ => extension_.inherited).map
    localName

def conformsTo (protocol : String) : Bool :=
  ctx.conformances.contains protocol

def directionOf? : String → Option Direction
  | "Codable" => some .both
  | "Encodable" => some .encode
  | "Decodable" => some .decode
  | _ => none

def mergeDirections : List Direction → Option Direction
  | [] => none
  | first :: later => some (later.foldl Direction.merge first)

/-- The direction of the type. Without any evidence values travel both ways. -/
def direction : Direction :=
  (mergeDirections (ctx.conformances.filterMap directionOf?)).getD .both

def rawTypeOf? (inherited : String) : Option RawType :=
  match readType inherited with
  | .ok (.primitive .int) => some .number
  | .ok (.primitive .float) => some .number
  | .ok (.primitive .string) => some .text
  | .ok (.primitive p) => some (.unsupported p)
  | _ => if inherited = "Character" || inherited = "Swift.Character" then some .text else none

/-- The raw type of an enum: its first inherited type, if that is a primitive. -/
def rawType? : Option RawType :=
  ctx.decl.inherited.head?.bind rawTypeOf?

def functions : List FunctionDecl :=
  functionsOf ctx.decl.members ++ ctx.extensions.flatMap fun extension_ =>
    functionsOf extension_.members

/-- The first function of a name with a label on its first parameter. -/
def function? (name label : String) : Option FunctionDecl :=
  ctx.functions.find? (·.isNamed name label)

def decoder? : Option FunctionDecl :=
  ctx.function? "init" "from"

def encoder? : Option FunctionDecl :=
  ctx.function? "encode" "to"

end TypeContext

def codingKeyWire (case_ : EnumCase) : String :=
  match case_.rawValue with
  | some (.string wire) => wire
  | _ => case_.name

def TypeContext.codingKeys? (ctx : TypeContext) : Option (NameMap String) :=
  (nestedType? ctx.decl.members "CodingKeys").map fun keys =>
    .ofList ((casesOf keys.members).map fun case_ => (case_.name, codingKeyWire case_))

def joinDocs (docs : List String) : Option String :=
  if docs.isEmpty then none else some (String.intercalate "\n" docs)

end WireSchema.Extraction
