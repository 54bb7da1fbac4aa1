import WireSchema.Proofs.Generation.Lines
import WireSchema.Proofs.Swift.NumberText

/-!
# Where names stand in generated code

A row of code is put together from phrases that are the same in all code, from literals and
numbers, and from names: those of types, and those of fields, cases and coding keys, which are
members. `CodeRow` and `CodeLines` say which names stand in code, in their order, and whether
each of them is in backticks.
-/

namespace WireSchema.Generation

open Swift (IsSignedNumber stringLiteral typeText)
open Text (isBlank)

/-! ## Sites -/

def isKeyword (name : String) : Bool :=
  keywords.contains name || contextualKeywords.contains name

inductive NameRole where
  | member
  | type
deriving DecidableEq, Repr

/-- A place in code where a name from a schema stands. -/
structure NameSite where
  role : NameRole
  name : String
  inBackticks : Bool
deriving DecidableEq, Repr

namespace NameSite

def text (site : NameSite) : String :=
  if site.inBackticks then "\x60" ++ site.name ++ "\x60" else site.name

/-- A keyword at this place would not be read as a name. -/
def IsBare (site : NameSite) : Prop :=
  isKeyword site.name = true ∧ site.inBackticks = false

instance (site : NameSite) : Decidable site.IsBare :=
  inferInstanceAs (Decidable (_ ∧ _))

end NameSite

/-- The name of a member, in backticks if it is a keyword. -/
def memberSite (name : String) : NameSite :=
  ⟨.member, name, isKeyword name⟩

def typeSite (name : String) : NameSite :=
  ⟨.type, name, false⟩

@[simp] theorem text_memberSite (name : String) : (memberSite name).text = identifier name := rfl

@[simp] theorem text_typeSite (name : String) : (typeSite name).text = name := rfl

@[simp] theorem memberSite_ne_typeSite (name type : String) : memberSite name ≠ typeSite type :=
  fun h => nomatch congrArg NameSite.role h

@[simp] theorem typeSite_ne_memberSite (type name : String) : typeSite type ≠ memberSite name :=
  (memberSite_ne_typeSite name type).symm

@[simp] theorem typeSite_inj {name other : String} :
    typeSite name = typeSite other ↔ name = other :=
  ⟨congrArg NameSite.name, congrArg typeSite⟩

def typeSites (t : TypeExpr) : List NameSite :=
  t.customNames.map typeSite

/-! ## Rows -/

/-- The texts between names, numbers and literals. -/
def phrases : List String :=
  -- types, and what stands around any name
  ["", "String", "Int", "Double", "Bool", "JSONValue", "[", "]", "?", ": ", ", ", ",", " = ", "(",
    ")", ":", "        ", "            ", "                ", "nil", "    \x7d", "        \x7d",
    "\x7d",
    -- declarations
    "public struct ", "public enum ", "public typealias ", "extension ", "Codable", "Encodable",
    "Decodable", ", Sendable \x7b", ": String, ", "@available(*, deprecated, message: ",
    "    enum CodingKeys: String, CodingKey \x7b", "    case ", "        case ",
    -- structs
    "    public let ", " = nil", "        self.", "    public init() \x7b\x7d", "    public init(",
    "    ) \x7b",
    -- decoders
    "    public init(from decoder: Decoder) throws \x7b",
    "        let container = try decoder.singleValueContainer()",
    "        let container = try decoder.container(keyedBy: CodingKeys.self)",
    "        let rawValue = try container.decode(", "        self = Self(rawValue: rawValue) ?? .",
    "        let tag = try container.decode(String.self, forKey: .", "        switch tag \x7b",
    "        default:", "        self = .", "            self = .", ".self)", ".self) \x7b",
    "            throw DecodingError.dataCorruptedError(forKey: .",
    ", in: container, debugDescription: \"UnknownVariant(\\(tag))\")",
    "        throw DecodingError.dataCorruptedError(in: container, debugDescription: ",
    "            )", "(try ", "(from: decoder))", "        if container.decodeNil() \x7b",
    "        if let value = try? container.decode(", "(value)", "            return",
    -- encoders
    "    public func encode(to encoder: Encoder) throws \x7b", "        var container = encoder.",
    "container(keyedBy: CodingKeys.self)", "singleValueContainer()", "        switch self \x7b",
    "        case .", "(let payload):", "(let value):", "let ", "):", "payload",
    "            try payload.encode(to: encoder)", "            try container.encode(value)",
    "            try container.encodeNil()",
    "            throw EncodingError.invalidValue(self, EncodingError.Context(codingPath: ",
    "encoder.codingPath, debugDescription: \"An unknown variant cannot be encoded\"))",
    -- calls of coders
    "try container.", "decode", "decodeIfPresent", "encode", "encodeIfPresent", ".self, forKey: .",
    ", forKey: .",
    -- tags and literals
    "    /// Wire tag of this case.", "    public var wireTag: String? \x7b", ": return ",
    ": ExpressibleByStringLiteral \x7b", "    public init(stringLiteral value: String) \x7b",
    ": ExpressibleByArrayLiteral \x7b", "    public init(arrayLiteral elements: ", "...) \x7b",
    "(elements)"]

/-- The row is made of phrases, literals and numbers with the given names between them. -/
inductive CodeRow : String → List NameSite → Prop where
  | empty : CodeRow "" []
  | phrase {row : String} {sites : List NameSite} (h : CodeRow row sites) (text : String)
    (htext : text ∈ phrases) : CodeRow (row ++ text) sites
  | literal {row : String} {sites : List NameSite} (h : CodeRow row sites) (value : String) :
    CodeRow (row ++ stringLiteral value) sites
  | number {row : String} {sites : List NameSite} (h : CodeRow row sites) {text : String}
    {negative : Bool} {number : List Char} (htext : IsSignedNumber text.toList negative number) :
    CodeRow (row ++ text) sites
  | member {row : String} {sites : List NameSite} (h : CodeRow row sites) (name : String) :
    CodeRow (row ++ (memberSite name).text) (sites ++ [memberSite name])
  | typeName {row : String} {sites : List NameSite} (h : CodeRow row sites) (name : String) :
    CodeRow (row ++ (typeSite name).text) (sites ++ [typeSite name])

namespace CodeRow

variable {row row' : String} {sites sites' : List NameSite}

theorem start (text : String) (htext : text ∈ phrases) : CodeRow text [] := by
  have h := empty.phrase text htext
  rwa [String.empty_append] at h

theorem ofMember (name : String) : CodeRow (identifier name) [memberSite name] := by
  have h := empty.member name
  rwa [text_memberSite, String.empty_append] at h

theorem append (h : CodeRow row sites) (h' : CodeRow row' sites') :
    CodeRow (row ++ row') (sites ++ sites') := by
  induction h' with
  | empty => rwa [String.append_empty, List.append_nil]
  | phrase _ text htext ih => exact String.append_assoc ▸ ih.phrase text htext
  | literal _ value ih => exact String.append_assoc ▸ ih.literal value
  | number _ htext ih => exact String.append_assoc ▸ ih.number htext
  | member _ name ih =>
    rw [← String.append_assoc, ← List.append_assoc]
    exact ih.member name
  | typeName _ name ih =>
    rw [← String.append_assoc, ← List.append_assoc]
    exact ih.typeName name

theorem ofType (t : TypeExpr) : CodeRow (typeText t) (typeSites t) := by
  have hname : ∀ name, CodeRow name [typeSite name] := by
    intro name
    have h := empty.typeName name
    rwa [text_typeSite, String.empty_append] at h
  fun_induction typeText t with
  | case1 p => exact start _ (by cases p <;> simp [phrases, Swift.primitiveText])
  | case2 t ih => exact ((start "[" (by simp [phrases])).append ih).phrase "]" (by simp [phrases])
  | case3 key value ihkey ihvalue =>
    have hkey := ((start "[" (by simp [phrases])).append ihkey).phrase ": " (by simp [phrases])
    have hboth := (hkey.append ihvalue).phrase "]" (by simp [phrases])
    rw [typeSites, TypeExpr.customNames, List.map_append]
    exact hboth
  | case4 t ih => exact ih.phrase "?" (by simp [phrases])
  | case5 t _ ih => exact ih.phrase "?" (by simp [phrases])
  | case6 name => exact hname name

theorem type (h : CodeRow row sites) (t : TypeExpr) :
    CodeRow (row ++ typeText t) (sites ++ typeSites t) :=
  h.append (ofType t)

/-- Items with commas between them on one line. -/
theorem items (h : CodeRow row sites) {α : Type} (items : List α) {text : α → String}
    {sitesOf : α → List NameSite} (hitem : ∀ item ∈ items, CodeRow (text item) (sitesOf item)) :
    CodeRow (row ++ String.intercalate ", " (items.map text)) (sites ++ items.flatMap sitesOf) := by
  refine h.append ?_
  induction items with
  | nil => exact empty
  | cons item later ih =>
    have hfirst := hitem item List.mem_cons_self
    cases later with
    | nil => simpa using hfirst
    | cons next later =>
      have hlater := ih fun other hother => hitem other (List.mem_cons_of_mem item hother)
      rw [List.map_cons, List.map_cons, String.intercalate_cons_cons, ← List.map_cons,
        List.flatMap_cons]
      exact (hfirst.phrase ", " (by simp [phrases])).append hlater

/-- Names stand there as members, in backticks if they are keywords, or bare as types. -/
theorem mem_cases (h : CodeRow row sites) {site : NameSite} (hsite : site ∈ sites) :
    site = memberSite site.name ∨ site = typeSite site.name := by
  induction h with
  | empty => cases hsite
  | phrase _ _ _ ih => exact ih hsite
  | literal _ _ ih => exact ih hsite
  | number _ _ ih => exact ih hsite
  | member _ name ih =>
    rcases List.mem_append.mp hsite with hsite | hsite
    · exact ih hsite
    · exact .inl (by rw [List.mem_singleton.mp hsite]; rfl)
  | typeName _ name ih =>
    rcases List.mem_append.mp hsite with hsite | hsite
    · exact ih hsite
    · exact .inr (by rw [List.mem_singleton.mp hsite]; rfl)

end CodeRow

/-! ## Lines -/

/-- The lines are rows of code and comments, with the given names in the rows. -/
inductive CodeLines : List String → List NameSite → Prop where
  | nil : CodeLines [] []
  | comment {lines : List String} {sites : List NameSite} (h : CodeLines lines sites)
    {indent : String} (hindent : indent.toList.all isBlank = true) {line : List Char}
    (hline : '\n' ∉ line) : CodeLines (lines ++ [docLine indent line]) sites
  | row {lines : List String} {sites added : List NameSite} (h : CodeLines lines sites)
    {row : String} (hrow : CodeRow row added) : CodeLines (lines ++ [row]) (sites ++ added)

theorem CodeRow.line {row : String} {sites : List NameSite} (h : CodeRow row sites) :
    CodeLines [row] sites :=
  CodeLines.nil.row h

namespace CodeLines

variable {lines lines' : List String} {sites sites' : List NameSite}

theorem append (h : CodeLines lines sites) (h' : CodeLines lines' sites') :
    CodeLines (lines ++ lines') (sites ++ sites') := by
  induction h' with
  | nil => rwa [List.append_nil, List.append_nil]
  | comment _ hindent hline ih => exact List.append_assoc .. ▸ ih.comment hindent hline
  | row _ hrow ih =>
    rw [← List.append_assoc, ← List.append_assoc]
    exact ih.row hrow

/-- Rows that are the same in all code. -/
theorem phrases (h : CodeLines lines sites) (rows : List String)
    (hrows : ∀ row ∈ rows, row ∈ Generation.phrases) : CodeLines (lines ++ rows) sites := by
  induction rows generalizing lines with
  | nil => rwa [List.append_nil]
  | cons row rows ih =>
    have hrow := h.row (.start row (hrows row List.mem_cons_self))
    rw [List.append_nil] at hrow
    have hlater := ih hrow fun other hother => hrows other (List.mem_cons_of_mem row hother)
    rwa [List.append_assoc] at hlater

theorem ofPhrases (rows : List String) (hrows : ∀ row ∈ rows, row ∈ Generation.phrases) :
    CodeLines rows [] :=
  nil.phrases rows hrows

theorem flatMap {α : Type} (as : List α) {f : α → List String} {g : α → List NameSite}
    (h : ∀ a ∈ as, CodeLines (f a) (g a)) : CodeLines (as.flatMap f) (as.flatMap g) := by
  induction as with
  | nil => exact nil
  | cons a later ih =>
    exact (h a List.mem_cons_self).append (ih fun b hb => h b (List.mem_cons_of_mem a hb))

theorem map {α : Type} (as : List α) {f : α → String} {g : α → List NameSite}
    (h : ∀ a ∈ as, CodeRow (f a) (g a)) : CodeLines (as.map f) (as.flatMap g) := by
  rw [List.map_eq_flatMap]
  exact flatMap as fun a ha => (h a ha).line

/-- Rows with one name each. -/
theorem mapMembers {α : Type} (as : List α) {f : α → String} {name : α → String}
    (h : ∀ a ∈ as, CodeRow (f a) [memberSite (name a)]) :
    CodeLines (as.map f) (as.map fun a => memberSite (name a)) := by
  have hlines := map as h
  rwa [← List.map_eq_flatMap] at hlines

theorem commaSeparated {α : Type} (items : List α) {text : α → String}
    {sitesOf : α → List NameSite} (h : ∀ item ∈ items, CodeRow (text item) (sitesOf item)) :
    CodeLines (Generation.commaSeparated (items.map text)) (items.flatMap sitesOf) := by
  induction items with
  | nil => exact nil
  | cons item later ih =>
    have hitem := h item List.mem_cons_self
    have hlater := ih fun next hnext => h next (List.mem_cons_of_mem item hnext)
    cases later with
    | nil =>
      rw [List.flatMap_singleton]
      exact hitem.line
    | cons next later => exact (hitem.phrase "," (by simp [Generation.phrases])).line.append hlater

theorem docs (indent : String) (hindent : indent.toList.all isBlank = true)
    (doc : Option String) : CodeLines (docLines indent doc) [] := by
  cases doc with
  | none => exact nil
  | some text =>
    have hlines : CodeLines ((Text.lines text.toList).flatMap fun line => [docLine indent line])
        ((Text.lines text.toList).flatMap fun _ => []) :=
      flatMap _ fun _ hline => nil.comment hindent (Text.lineFeed_notMem_of_mem_lines hline)
    rw [List.flatMap_eq_nil_iff.mpr fun _ _ => rfl] at hlines
    rwa [docLines, List.map_eq_flatMap]

theorem mem_cases (h : CodeLines lines sites) {site : NameSite} (hsite : site ∈ sites) :
    site = memberSite site.name ∨ site = typeSite site.name := by
  induction h with
  | nil => cases hsite
  | comment _ _ _ ih => exact ih hsite
  | row _ hrow ih =>
    rcases List.mem_append.mp hsite with hsite | hsite
    · exact ih hsite
    · exact hrow.mem_cases hsite

end CodeLines

end WireSchema.Generation
