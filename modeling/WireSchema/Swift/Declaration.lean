import WireSchema.Swift.Token

/-!
# Declarations of a Swift source

What the parser keeps of a source text: the declarations of types, extensions and
type aliases with the members that bear on the wire form of a type. Types are kept
as text and the bodies of functions as tokens.
-/

namespace WireSchema.Swift

inductive DeclKind where
  | struct
  | classType
  | actor
  | enum
  | protocol
deriving DecidableEq, Repr

namespace DeclKind

def keyword : DeclKind → String
  | struct => "struct"
  | .classType => "class"
  | actor => "actor"
  | enum => "enum"
  | protocol => "protocol"

def all : List DeclKind :=
  [struct, .classType, actor, enum, protocol]

def ofKeyword? (text : String) : Option DeclKind :=
  all.find? fun kind => kind.keyword == text

end DeclKind

/-- An attribute with the texts of the tokens between its parentheses. -/
structure Attribute where
  name : String
  arguments : List String
deriving DecidableEq, Repr

structure PropertyDecl where
  name : String
  position : Position
  docs : List String
  type : Option String
  isStatic : Bool
  isComputed : Bool
  isLet : Bool
  hasInitializer : Bool
deriving DecidableEq, Repr

inductive RawLiteral where
  /-- The text that a string literal stands for. -/
  | string (value : String)
  | number (text : String)
  | other (text : String)
deriving DecidableEq, Repr

structure AssociatedValue where
  label : Option String
  type : String
deriving DecidableEq, Repr

structure EnumCase where
  name : String
  position : Position
  docs : List String
  rawValue : Option RawLiteral
  associated : List AssociatedValue
deriving DecidableEq, Repr

/-- A function or an initializer; the name of an initializer is `init`. The body is what
stands between its braces, and empty if there are none. -/
structure FunctionDecl where
  name : String
  position : Position
  isStatic : Bool
  firstLabel : Option String
  body : List Token
deriving DecidableEq, Repr

def FunctionDecl.isNamed (f : FunctionDecl) (name label : String) : Bool :=
  f.name == name && f.firstLabel == some label

structure AliasDecl where
  name : String
  position : Position
  docs : List String
  attributes : List Attribute
  isGeneric : Bool
  target : String
deriving DecidableEq, Repr

/-- What a type declaration says before its body. -/
structure TypeHeader where
  kind : DeclKind
  name : String
  position : Position
  docs : List String
  attributes : List Attribute
  isGeneric : Bool
  inherited : List String
deriving DecidableEq, Repr

inductive Member where
  | property (decl : PropertyDecl)
  /-- One declaration may introduce several cases. -/
  | cases (introduced : List EnumCase)
  | function (decl : FunctionDecl)
  | type (header : TypeHeader) (members : List Member)
  | typealias (decl : AliasDecl)

structure TypeDecl extends TypeHeader where
  members : List Member

structure ExtensionHeader where
  name : String
  position : Position
  inherited : List String
deriving DecidableEq, Repr

structure ExtensionDecl extends ExtensionHeader where
  members : List Member

inductive Decl where
  | type (decl : TypeDecl)
  | extension (decl : ExtensionDecl)
  | typealias (decl : AliasDecl)

/-! ## Members by kind -/

namespace Member

def property? : Member → Option PropertyDecl
  | property decl => some decl
  | _ => none

def enumCases : Member → List EnumCase
  | .cases introduced => introduced
  | _ => []

def function? : Member → Option FunctionDecl
  | function decl => some decl
  | _ => none

def type? : Member → Option TypeDecl
  | type header members => some { header with members }
  | _ => none

end Member

def propertiesOf (members : List Member) : List PropertyDecl :=
  members.filterMap Member.property?

def casesOf (members : List Member) : List EnumCase :=
  members.flatMap Member.enumCases

def functionsOf (members : List Member) : List FunctionDecl :=
  members.filterMap Member.function?

def nestedType? (members : List Member) (name : String) : Option TypeDecl :=
  (members.filterMap Member.type?).find? fun decl => decl.name == name

end WireSchema.Swift
