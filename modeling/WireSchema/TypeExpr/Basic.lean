/-!
# Type expressions

The language-neutral types of schema fields and payloads: five primitives, lists,
maps, optionals and names of other types. `text` is the one written form:
`list[T]`, `map[K, V]`, `T?`, and a name as it is.
-/

namespace WireSchema

/-- The types every target language has. -/
inductive Primitive where
  | string
  | int
  | float
  | bool
  | any
deriving DecidableEq, Repr

namespace Primitive

def name : Primitive → String
  | string => "string"
  | int => "int"
  | float => "float"
  | bool => "bool"
  | any => "any"

def all : List Primitive :=
  [string, int, float, bool, any]

def ofName? (text : String) : Option Primitive :=
  all.find? fun p => p.name == text

end Primitive

inductive TypeExpr where
  | primitive (p : Primitive)
  | list (element : TypeExpr)
  | map (key value : TypeExpr)
  | optional (wrapped : TypeExpr)
  | custom (name : String)
deriving DecidableEq, Repr

namespace TypeExpr

def isOptional : TypeExpr → Bool
  | optional _ => true
  | _ => false

/-- The expression made optional, unless it already is. -/
def asOptional (t : TypeExpr) : TypeExpr :=
  if t.isOptional then t else optional t

def unwrapOptional : TypeExpr → TypeExpr
  | optional t => t
  | t => t

def customNames : TypeExpr → List String
  | primitive _ => []
  | list t => t.customNames
  | map key value => key.customNames ++ value.customNames
  | optional t => t.customNames
  | custom name => [name]

def rename (f : String → String) : TypeExpr → TypeExpr
  | primitive p => primitive p
  | list t => list (t.rename f)
  | map key value => map (key.rename f) (value.rename f)
  | optional t => (t.rename f).asOptional
  | custom name => custom (f name)

def text : TypeExpr → String
  | primitive p => p.name
  | list t => "list[" ++ t.text ++ "]"
  | map key value => "map[" ++ key.text ++ ", " ++ value.text ++ "]"
  | optional t => t.text ++ "?"
  | custom name => name

def invalidMessage (reason : String) : String :=
  "Invalid type expression: " ++ reason

@[simp] theorem isOptional_asOptional (t : TypeExpr) : t.asOptional.isOptional = true := by
  unfold asOptional
  split
  · assumption
  · rfl

@[simp] theorem asOptional_asOptional (t : TypeExpr) : t.asOptional.asOptional = t.asOptional := by
  rw [asOptional, if_pos (isOptional_asOptional t)]

end TypeExpr

end WireSchema
