/-!
# Identifiers

An identifier is an ASCII letter or underscore followed by ASCII letters, digits
and underscores. `keyCaseName` turns any wire string into one: a string that is
an identifier already is kept, every other one is rewritten in lower camel case.
-/

namespace WireSchema.Text

def isIdentStart (c : Char) : Bool :=
  c.isAlpha || c == '_'

def isIdentRest (c : Char) : Bool :=
  c.isAlphanum || c == '_'

def isIdentChars : List Char → Bool
  | [] => false
  | c :: rest => isIdentStart c && rest.all isIdentRest

def isIdentifier (s : String) : Bool :=
  isIdentChars s.toList

/-- The maximal runs of ASCII letters and digits, in order. -/
def alphanumericWords : List Char → List (List Char)
  | [] => []
  | c :: rest =>
    if c.isAlphanum then
      match rest, alphanumericWords rest with
      | d :: _, word :: later => if d.isAlphanum then (c :: word) :: later else [c] :: word :: later
      | _, later => [c] :: later
    else alphanumericWords rest

def capitalized : List Char → List Char
  | [] => []
  | c :: rest => c.toUpper :: rest

def decapitalized : List Char → List Char
  | [] => []
  | c :: rest => c.toLower :: rest

/-- The words run together, each but the first starting in upper case. -/
def camelCased : List (List Char) → List Char
  | [] => []
  | word :: later => decapitalized word ++ (later.map capitalized).flatten

/-- An underscore in front of a text that is empty or starts with a digit. -/
def withIdentStart : List Char → List Char
  | [] => ['_']
  | c :: rest => if c.isDigit then '_' :: c :: rest else c :: rest

/-- The text in lower camel case: its words run together, everything between them
dropped. -/
def lowerCamelCase (s : String) : String :=
  String.ofList (withIdentStart (camelCased (alphanumericWords s.toList)))

/-- The case name that stands for a wire string. -/
def keyCaseName (wire : String) : String :=
  if isIdentifier wire then wire else lowerCamelCase wire

end WireSchema.Text
