import WireSchema.Document.Fault
import WireSchema.Logged
import WireSchema.Schema.Basic
import WireSchema.Yaml.Document

/-!
# Reading schema documents

`read` turns the value of a YAML document into a schema. The root, the table of
types and the kind of each type must be right; a malformed field, value, variant
or attribute is skipped with a warning, or is a fault in strict reading. `parse`
reads a text.
-/

namespace WireSchema.Document

open Yaml (Value Entries)

abbrev Reading := Logged Warning Fault

/-- The type whose entry is being read, and how its malformed parts are met. -/
structure EntryContext where
  typeName : String
  strictness : Strictness

namespace EntryContext

/-- Meets a malformed part: a warning, or a fault in strict reading. -/
def skip (ctx : EntryContext) (entry : String) (reason : SkipReason) : Reading Unit :=
  match ctx.strictness with
  | .lenient => .warn (.skippedEntry ctx.typeName entry reason)
  | .strict => .fail (.invalidEntry ctx.typeName entry reason)

/-- Skips a malformed part and goes on with `value` in its place. -/
def skipWith {α : Type} (ctx : EntryContext) (entry : String) (reason : SkipReason) (value : α) :
    Reading α := do
  ctx.skip entry reason
  return value

def missing {α : Type} (ctx : EntryContext) (field : String) : Reading α :=
  .fail (.missingField field ctx.typeName)

def requireString (ctx : EntryContext) (entry : Entries) (key : String) : Reading String :=
  match (Yaml.get? entry key).bind Value.asString? with
  | some s => return s
  | none => ctx.missing key

/-! ## Attributes -/

def readDirection (ctx : EntryContext) (entry : Entries) : Reading Direction :=
  match Yaml.get? entry "direction" with
  | none => return .both
  | some value =>
    match value.asString?.bind Direction.ofName? with
    | some direction => return direction
    | none => ctx.skipWith "direction" .notDirection .both

def readDoc (ctx : EntryContext) (entry : Entries) : Reading (Option String) :=
  match Yaml.get? entry "doc" with
  | none => return none
  | some .null => return none
  | some (.string doc) => return some doc
  | some _ => ctx.skipWith "doc" .notString none

def readUnknownHandling (ctx : EntryContext) (entry : Entries) :
    Reading (Option UnknownHandling) :=
  match Yaml.get? entry "unknown_handling" with
  | none => return none
  | some value =>
    match value.asString? with
    | some "error" => return some .error
    | some "fallback" => do
      let name ← ctx.requireString entry "fallback_value"
      return some (.fallback name)
    | _ => ctx.skipWith "unknown_handling" .notUnknownHandling none

def readStyle (ctx : EntryContext) (entry : Entries) : Reading DiscriminatorStyle :=
  match Yaml.get? entry "style" with
  | none => return .inline
  | some value =>
    match value.asString?.bind DiscriminatorStyle.ofName? with
    | some style => return style
    | none => ctx.skipWith "discriminator" .unknownStyle .inline

/-- A discriminator may be given as the name of its field alone. -/
def readDiscriminator (ctx : EntryContext) (entry : Entries) : Reading (Option Discriminator) :=
  match Yaml.get? entry "discriminator" with
  | none => return none
  | some .null => return none
  | some (.string field) => return some ⟨field, .inline⟩
  | some (.mapping disc) =>
    match (Yaml.get? disc "field").bind Value.asString? with
    | none => ctx.skipWith "discriminator" .discriminatorWithoutField none
    | some field => do
      let style ← ctx.readStyle disc
      return some ⟨field, style⟩
  | some _ => ctx.skipWith "discriminator" .notMapping none

def readDeprecated (ctx : EntryContext) (entry : Entries) : Reading Bool :=
  match Yaml.get? entry "deprecated" with
  | none => return false
  | some value =>
    match value.asBool? with
    | some flag => return flag
    | none => ctx.skipWith "deprecated" .notBoolean false

/-! ## Fields -/

/-- The wire name of a field, nothing if it is the name of the field itself; the outer
option is empty if the field is skipped. -/
def readWireName (ctx : EntryContext) (name : String) (entry : Entries) :
    Reading (Option (Option String)) :=
  match Yaml.get? entry "wire_name" with
  | none => return some none
  | some .null => return some none
  | some (.string wire) => return some (if wire = name then none else some wire)
  | some _ => ctx.skipWith name .wireNameNotString none

/-- The given requiredness of a field; empty if the field is skipped. -/
def readRequired (ctx : EntryContext) (name : String) (entry : Entries) (otherwise : Bool) :
    Reading (Option Bool) :=
  match Yaml.get? entry "required" with
  | none => return some otherwise
  | some (.bool required) => return some required
  | some _ => ctx.skipWith name .requiredNotBoolean none

/-- The attributes of a field beside its type, which is in canonical form. -/
def readFieldEntry (ctx : EntryContext) (name type : String) (entry : Entries) :
    Reading (Option FieldDef) := do
  let plain := FieldDef.ofType type
  match ← ctx.readWireName name entry with
  | none => return none
  | some wireName =>
    match ← ctx.readRequired name entry plain.required with
    | none => return none
    | some required =>
      let field := { plain with wireName, required }
      let doc ← ctx.readDoc entry
      return some { field with type := field.canonicalType, doc }

/-- A type text in canonical form; empty if the entry is skipped. -/
def readType (ctx : EntryContext) (name type : String) : Reading (Option String) :=
  match TypeExpr.canonicalize type with
  | .ok text => return some text
  | .error fault => ctx.skipWith name (.invalidType fault) none

/-- A field, given as a mapping or as its type alone. -/
def readField (ctx : EntryContext) (name : String) (value : Value) : Reading (Option FieldDef) :=
  match value with
  | .string type => do
    match ← ctx.readType name type with
    | none => return none
    | some type => return some (.ofType type)
  | .mapping entry =>
    match (Yaml.get? entry "type").bind Value.asString? with
    | none => ctx.skipWith name .fieldWithoutType none
    | some type => do
      match ← ctx.readType name type with
      | none => return none
      | some type => ctx.readFieldEntry name type entry
  | _ => ctx.skipWith name .notMapping none

/-- Reads the entries of a table one by one into a map. A key that is no string is
skipped under the name `table`; `readEntry` gives nothing for an entry that it skips. -/
def readTable {α : Type} (ctx : EntryContext) (table : String) (badKey : SkipReason)
    (readEntry : String → Value → Reading (Option α)) (entries : Entries) :
    Reading (NameMap α) :=
  entries.foldlM (fun map (key, value) => do
    match key.asString? with
    | none => ctx.skipWith table badKey map
    | some name =>
      match ← readEntry name value with
      | none => return map
      | some a => return map.insert name a) .empty

/-- Reads the table under a key, which may be missing or null. -/
def readTableValue {α : Type} (ctx : EntryContext) (table : String) (badKey : SkipReason)
    (readEntry : String → Value → Reading (Option α)) : Option Value → Reading (NameMap α)
  | none => return .empty
  | some .null => return .empty
  | some (.mapping entries) => ctx.readTable table badKey readEntry entries
  | some _ => ctx.skipWith table .notMapping .empty

/-- Fields of a struct or of a variant; `table` is what a malformed table is reported as. -/
def readFields (ctx : EntryContext) (table : String) (value : Option Value) :
    Reading (NameMap FieldDef) :=
  ctx.readTableValue table .fieldNameNotString ctx.readField value

/-! ## Cases and variants -/

def readLiteralValue (ctx : EntryContext) (name : String) (value : Value) :
    Reading (Option String) :=
  match value.scalarText? with
  | some literal => return some literal
  | none => ctx.skipWith name .literalNotScalar none

def readValues (ctx : EntryContext) (entry : Entries) : Reading (NameMap String) :=
  ctx.readTableValue "values" .caseNameNotString ctx.readLiteralValue (Yaml.get? entry "values")

/-- The tag of a variant; the outer option is empty if the variant is skipped. -/
def readTag (ctx : EntryContext) (name : String) (entry : Entries) :
    Reading (Option (Option String)) :=
  match Yaml.get? entry "tag" with
  | none => return some none
  | some .null => return some none
  | some value =>
    match value.scalarText? with
    | some tag => return some (some tag)
    | none => ctx.skipWith name .tagNotScalar none

def readPayload (ctx : EntryContext) (name : String) (entry : Entries) :
    Reading (Option VariantPayload) :=
  match Yaml.get? entry "payload", Yaml.get? entry "fields" with
  | some _, some _ => ctx.skipWith name .payloadAndFields none
  | some (.string type), none => do
    match ← ctx.readType name type with
    | none => return none
    | some type => return some (.wrapped type)
  | some _, none => ctx.skipWith name .payloadNotType none
  | none, some fields => do
    let fields ← ctx.readFields name (some fields)
    return some (.inline fields)
  | none, none => return some .unit

def readLiteral (ctx : EntryContext) (name : String) (entry : Entries) :
    Reading (Option (Option LiteralSugar)) :=
  match Yaml.get? entry "literal" with
  | none => return some none
  | some .null => return some none
  | some value =>
    match value.asString?.bind LiteralSugar.ofName? with
    | some literal => return some (some literal)
    | none => ctx.skipWith name .unknownLiteral none

/-- A variant; one without anything to say about it may be null. -/
def readVariant (ctx : EntryContext) (name : String) (value : Value) :
    Reading (Option VariantDef) :=
  match value with
  | .null => return some (.ofPayload .unit)
  | .mapping entry => do
    match ← ctx.readTag name entry with
    | none => return none
    | some tag =>
      match ← ctx.readPayload name entry with
      | none => return none
      | some payload =>
        match ← ctx.readLiteral name entry with
        | none => return none
        | some literal =>
          let doc ← ctx.readDoc entry
          return some { tag, payload, literal, doc }
  | _ => ctx.skipWith name .notMapping none

def readVariants (ctx : EntryContext) (entry : Entries) : Reading (NameMap VariantDef) :=
  ctx.readTableValue "variants" .variantNameNotString ctx.readVariant (Yaml.get? entry "variants")

/-! ## Types -/

def readStruct (ctx : EntryContext) (entry : Entries) : Reading StructDef := do
  let direction ← ctx.readDirection entry
  let doc ← ctx.readDoc entry
  let fields ← ctx.readFields "fields" (Yaml.get? entry "fields")
  return { direction, doc, fields }

def readStringEnum (ctx : EntryContext) (entry : Entries) : Reading StringEnumDef := do
  let direction ← ctx.readDirection entry
  let doc ← ctx.readDoc entry
  let unknownHandling ← ctx.readUnknownHandling entry
  let values ← ctx.readValues entry
  return { direction, doc, unknownHandling, values }

def readUnion (ctx : EntryContext) (entry : Entries) : Reading UnionDef := do
  let direction ← ctx.readDirection entry
  let doc ← ctx.readDoc entry
  let discriminator ← ctx.readDiscriminator entry
  let unknownHandling ← ctx.readUnknownHandling entry
  let variants ← ctx.readVariants entry
  return { direction, doc, discriminator, unknownHandling, variants }

def readAlias (ctx : EntryContext) (entry : Entries) : Reading AliasDef := do
  let target ← ctx.requireString entry "target"
  let deprecated ← ctx.readDeprecated entry
  let doc ← ctx.readDoc entry
  return { target, deprecated, doc }

def readTypeDef (ctx : EntryContext) (entry : Entries) : Reading TypeDef :=
  match Yaml.get? entry "kind" with
  | none => ctx.missing "kind"
  | some kind =>
    match kind.asString? with
    | none => .fail (.unknownKind kind.shown ctx.typeName)
    | some "struct" => TypeDef.struct <$> ctx.readStruct entry
    | some "string_enum" => TypeDef.stringEnum <$> ctx.readStringEnum entry
    | some "union" => TypeDef.union <$> ctx.readUnion entry
    | some "alias" => TypeDef.typeAlias <$> ctx.readAlias entry
    | some other => .fail (.unknownKind other ctx.typeName)

end EntryContext

/-! ## Documents -/

/-- A scalar of the root, or what stands for it if it is missing. -/
def readRootScalar (root : Entries) (key otherwise : String) (bad : Malformation) :
    Reading String :=
  match Yaml.get? root key with
  | none => return otherwise
  | some value =>
    match value.scalarText? with
    | some text => return text
    | none => .fail (.malformed bad)

/-- The table of types; a missing or null one is empty. -/
def typeEntries (root : Entries) : Reading Entries :=
  match Yaml.get? root "types" with
  | none => return []
  | some .null => return []
  | some (.mapping types) => return types
  | some _ => .fail (.malformed .typesNotMapping)

def readTypeEntry (strictness : Strictness) (types : NameMap TypeDef) (key value : Value) :
    Reading (NameMap TypeDef) :=
  match key.asString? with
  | none => .fail (.malformed (.typeNameNotString key.shown))
  | some name =>
    match value.asMapping? with
    | none => .fail (.malformed (.typeNotMapping name))
    | some entry => do
      let definition ← EntryContext.readTypeDef ⟨name, strictness⟩ entry
      return types.insert name definition

def read (strictness : Strictness) (value : Value) : Reading Schema :=
  match value.asMapping? with
  | none => .fail (.malformed .rootNotMapping)
  | some root => do
    let version ← readRootScalar root "version" schemaVersion .versionNotScalar
    if version ≠ schemaVersion then Logged.warn (.unrecognizedVersion version)
    let provider ← readRootScalar root "provider" "" .providerNotScalar
    let entries ← typeEntries root
    let types ← entries.foldlM (fun types (key, value) =>
      readTypeEntry strictness types key value) .empty
    return { version, provider, types }

def parse (strictness : Strictness) (text : String) : Reading Schema :=
  match Value.parse? text with
  | none => .fail .unreadable
  | some value => read strictness value

end WireSchema.Document
