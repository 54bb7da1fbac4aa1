import WireSchema.Generation.Naming
import WireSchema.Swift.Literal

/-!
# Lines of generated code

Code is made as a list of lines. Documentation is written as comments, one for
each of its lines.
-/

namespace WireSchema.Generation

/-- The lines as a text that ends in a line feed. -/
def joinLines (lines : List String) : String :=
  String.intercalate "\n" lines ++ "\n"

def docLine (indent : String) (line : List Char) : String :=
  if line.isEmpty then indent ++ "///" else indent ++ "/// " ++ String.ofList line

def docLines (indent : String) (doc : Option String) : List String :=
  match doc with
  | none => []
  | some doc => (Text.lines doc.toList).map (docLine indent)

def conformance : Direction → String
  | .both => "Codable"
  | .encode => "Encodable"
  | .decode => "Decodable"

def stringCase (indent name value : String) : String :=
  if name = value then indent ++ "case " ++ identifier name
  else indent ++ "case " ++ identifier name ++ " = " ++ Swift.stringLiteral value

/-- The nested enum that gives the wire key of each name. -/
def codingKeyLines (keys : List (String × String)) : List String :=
  ["", "    enum CodingKeys: String, CodingKey \x7b"] ++
    (keys.map fun key => stringCase "        " key.1 key.2) ++ ["    \x7d"]

/-- The items, all but the last with a comma after them. -/
def commaSeparated : List String → List String
  | [] => []
  | [item] => [item]
  | item :: later => (item ++ ",") :: commaSeparated later

/-- An initializer that decodes one value without keys. -/
def singleValueDecoder (body : List String) : List String :=
  ["", "    public init(from decoder: Decoder) throws \x7b",
    "        let container = try decoder.singleValueContainer()"] ++ body ++ ["    \x7d"]

/-- An initializer that decodes a raw value, with the fallback for an unknown one. -/
def rawValueDecoder (rawType fallback : String) : List String :=
  singleValueDecoder
    ["        let rawValue = try container.decode(" ++ rawType ++ ".self)",
      "        self = Self(rawValue: rawValue) ?? ." ++ identifier fallback]

end WireSchema.Generation
