import WireSchema.Schema.Basic
import WireSchema.Yaml.Render

/-!
# Writing schema documents

`toValue` lays a schema out as a YAML value: collections in the order of their
names, the keys of every entry in a fixed order, types in canonical form, and
nothing that the reader fills in by itself. `emit` is the text.
-/

namespace WireSchema.Document

open Yaml (Value Entries)

def textEntry (key value : String) : Value × Value :=
  (.string key, .string value)

/-- A type text in canonical form; a text that is no type stays as it is. -/
def canonicalOrSame (type : String) : String :=
  match TypeExpr.canonicalize type with
  | .ok text => text
  | .error _ => type

def docEntries (doc : Option String) : Entries :=
  match doc with
  | some doc => [textEntry "doc" doc]
  | none => []

def unknownHandlingEntries : Option UnknownHandling → Entries
  | none => []
  | some .error => [textEntry "unknown_handling" "error"]
  | some (.fallback name) =>
    [textEntry "unknown_handling" "fallback", textEntry "fallback_value" name]

def tableValue {α : Type} (map : NameMap α) (layOut : String → α → Value) : Value :=
  .mapping (map.entries.map fun entry => (.string entry.1, layOut entry.1 entry.2))

def fieldEntries (name : String) (field : FieldDef) : Entries :=
  let type := canonicalOrSame field.canonicalType
  let optional := type.toList.getLast? == some '?'
  textEntry "type" type ::
    (if field.isRemapped name then [textEntry "wire_name" (field.effectiveWireName name)] else []) ++
    (if field.required = !optional then [] else [(.string "required", .bool field.required)]) ++
    docEntries field.doc

def fieldsValue (fields : NameMap FieldDef) : Value :=
  tableValue fields fun name field => .mapping (fieldEntries name field)

def payloadEntries : VariantPayload → Entries
  | .unit => []
  | .wrapped type => [textEntry "payload" (canonicalOrSame type)]
  | .inline fields => [(.string "fields", fieldsValue fields)]

def variantEntries (variant : VariantDef) : Entries :=
  (match variant.tag with
    | some tag => [textEntry "tag" tag]
    | none => []) ++
  payloadEntries variant.payload ++
  (match variant.literal with
    | some literal => [textEntry "literal" literal.name]
    | none => []) ++
  docEntries variant.doc

def discriminatorEntries : Option Discriminator → Entries
  | none => []
  | some disc =>
    [(.string "discriminator",
      .mapping [textEntry "field" disc.field, textEntry "style" disc.style.name])]

def definitionEntries (definition : TypeDef) : Entries :=
  textEntry "kind" definition.kind ::
    match definition with
    | .struct d =>
      textEntry "direction" d.direction.name ::
        docEntries d.doc ++ [(.string "fields", fieldsValue d.fields)]
    | .stringEnum d =>
      textEntry "direction" d.direction.name ::
        docEntries d.doc ++ unknownHandlingEntries d.unknownHandling ++
        [(.string "values", tableValue d.values fun _ literal => .string literal)]
    | .union d =>
      textEntry "direction" d.direction.name ::
        docEntries d.doc ++ discriminatorEntries d.discriminator ++
        unknownHandlingEntries d.unknownHandling ++
        [(.string "variants", tableValue d.variants fun _ variant => .mapping (variantEntries variant))]
    | .typeAlias d =>
      textEntry "target" d.target ::
        (if d.deprecated then [(.string "deprecated", .bool true)] else []) ++ docEntries d.doc

def toValue (schema : Schema) : Value :=
  .mapping [
    textEntry "version" schema.version,
    textEntry "provider" schema.provider,
    (.string "types", tableValue schema.types fun _ definition =>
      .mapping (definitionEntries definition))]

def emit (schema : Schema) : String :=
  Yaml.render (toValue schema)

end WireSchema.Document
