import Mathlib.Data.Set.List
import WireSchema.Proofs.Extraction.RoundTrip
import WireSchema.Proofs.Extraction.Unions

/-!
# Generated unions read back

The file of a union holds an enum and an extension for each of its literals, and is
extracted to one definition. The definition agrees with the union exactly if the code
tells the tags and the place of payloads: not every way in which code is generated is
one that extraction looks for.
-/

namespace WireSchema

/-! ## Names of types -/

theorem MeansItself.namesDotted {type : String} (h : MeansItself type) : NamesDotted type :=
  fun name hname => (h.names name hname).parts

theorem VariantPayload.IsPlain.namesDotted {payload : VariantPayload} (h : payload.IsPlain) :
    ∀ type ∈ payload.typeTexts, NamesDotted type := by
  intro type htype
  cases payload with
  | unit => cases htype
  | wrapped wrapped =>
    rw [List.mem_singleton.mp htype]
    exact MeansItself.namesDotted h
  | inline fields =>
    obtain ⟨entry, hentry, rfl⟩ := List.mem_map.mp htype
    exact (h.2 entry hentry).type.namesDotted

theorem UnionDef.IsPlain.isNameable {usualFallback : String} {d : UnionDef}
    (h : d.IsPlain usualFallback) : (TypeDef.union d).IsNameable := by
  intro type htype
  obtain ⟨entry, hentry, htype⟩ := List.mem_flatMap.mp htype
  exact (h.payloads entry hentry).namesDotted type htype

namespace Extraction

open Generation Swift Verification

/-! ## A type with its extensions -/

/-- A source with a type and extensions of it is extracted to the definition of the type. -/
theorem extract_type {options : Options} {typeDecl : TypeDecl} {extensions : List ExtensionDecl}
    {log : List Warning} {definition : TypeDef}
    (hnamed : ∀ extensionDecl ∈ extensions, extensionDecl.name = typeDecl.name)
    (hlower : lowerType options.fallbackCase ⟨typeDecl, extensions⟩ =
      some ⟨log, .ok definition⟩) :
    extract options [.type typeDecl :: extensions.map .extension] =
      ⟨log, .ok { Schema.ofProvider options.provider with
        types := .ofList [(typeDecl.name, definition)] }⟩ := by
  have hextensions : extensionsOf (.type typeDecl :: extensions.map .extension) = extensions := by
    rw [extensionsOf_cons, extensionsOf, extensionsOf, List.filterMap_map]
    exact List.filterMap_some
  have hown : extensionsNamed extensions typeDecl.name = extensions :=
    List.filter_eq_self.mpr fun extensionDecl hmem => beq_iff_eq.mpr (hnamed extensionDecl hmem)
  have htype : extractDecl options extensions (.type typeDecl) =
      ⟨log, .ok (some (typeDecl.name, definition))⟩ := by
    rw [extractDecl, lowerDecl, hown, hlower]
    simp [settle, Logged.bind_of_ok]
  have hothers : Logged.collect (extractDecl options extensions) (extensions.map .extension) =
      pure [] := by
    rw [Logged.collect_eq_pure (g := fun _ => none), List.filterMap_none]
    intro decl hdecl
    obtain ⟨extensionDecl, -, rfl⟩ := List.mem_map.mp hdecl
    rfl
  have hdeclarations : declarations options [.type typeDecl :: extensions.map .extension] =
      ⟨log, .ok [(typeDecl.name, definition)]⟩ := by
    rw [declarations, List.flatten_singleton, hextensions, Logged.collect, htype, hothers]
    simp [Logged.bind_of_ok]
  have hmerge : mergeInto options.strictness (.ofProvider options.provider)
      [(typeDecl.name, definition)] = pure { Schema.ofProvider options.provider with
        types := .ofList [(typeDecl.name, definition)] } :=
    mergeInto_eq _ _ (List.pairwise_singleton _ _) fun _ hdone => absurd hdone List.not_mem_nil
  rw [extract, hdeclarations, Logged.bind_of_ok, hmerge, Logged.log_pure, List.append_nil]
  rfl

/-! ## One union -/

section

variable {name : String} {namer : Namer} {d : UnionDef}

/-- What the declarations in the file of a union are. -/
theorem exists_unionContext {decls : List Decl} (haccepted : UnionAccepted d)
    (houtlines : decls.map Decl.outline = unionOutlines name d (namer.unionForms d)) :
    ∃ typeDecl extensions, decls = .type typeDecl :: extensions.map .extension ∧
      typeDecl.name = name ∧ (∀ extensionDecl ∈ extensions, extensionDecl.name = name) ∧
      IsUnionContext name namer d ⟨typeDecl, extensions⟩ := by
  obtain ⟨decl, later, rfl, houtline, hlater⟩ := List.map_eq_cons_iff.mp houtlines
  rw [literalOutlines_unionForms haccepted] at hlater
  obtain ⟨typeDecl, rfl, hheader, hmembers⟩ := exists_type_of_outline houtline
  have hextension : ∀ decl ∈ later, decl ∈ Set.range Decl.extension := by
    intro decl hdecl
    have hmem : decl.outline ∈ (literalVariants d).map (literalExtension name) :=
      hlater ▸ List.mem_map_of_mem hdecl
    obtain ⟨literal, -, hliteral⟩ := List.mem_map.mp hmem
    cases decl with
    | type => cases hliteral
    | typealias => cases hliteral
    | «extension» extensionDecl => exact ⟨extensionDecl, rfl⟩
  obtain ⟨extensions, rfl⟩ : later ∈ Set.range (List.map Decl.extension) := by
    rw [Set.range_list_map]
    exact hextension
  rw [List.map_map] at hlater
  refine ⟨typeDecl, extensions, rfl, congrArg TypeHeader.name hheader, ?_, hheader, hmembers,
    hlater⟩
  intro extensionDecl hmem
  have houtline : (Decl.extension extensionDecl).outline ∈
      (literalVariants d).map (literalExtension name) :=
    hlater ▸ List.mem_map_of_mem (f := Decl.outline ∘ Decl.extension) hmem
  obtain ⟨literal, -, hliteral⟩ := List.mem_map.mp houtline
  exact (congrArg ExtensionHeader.name (DeclOutline.extension.inj hliteral).1).symm

/-- An enum whose first inherited type is a conformance is no raw enum. -/
theorem lowerType_union {usualFallback : String} {ctx : TypeContext}
    (h : IsUnionContext name namer d ctx) :
    lowerType usualFallback ctx = some (lowerUnion usualFallback ctx) := by
  have hconformance : IsPlainName (conformance d.direction) := by
    cases d.direction <;> decide
  have hread : readType (typeText (.custom (conformance d.direction))) =
      .ok (.custom (conformance d.direction)) := readType_typeText hconformance
  have hraw : ctx.rawType? = none := by
    rw [TypeContext.rawType?, h.inherited, conformances, List.map_cons, List.head?_cons,
      Option.bind_some, TypeContext.rawTypeOf?, hread]
    cases d.direction <;> rfl
  rw [lowerType_enum h.header, lowerEnum, hraw]

/-- The file of a plain union is extracted to one definition of its name. -/
theorem extract_renderType {options : Options} (hlead : namer.lead = "")
    (haccepted : EntryAccepted (name, .union d)) (hraw : d.rawValueType = none)
    (hplain : d.IsPlain options.fallbackCase) :
    ∃ file decls log rejects, renderType namer name (.union d) = .ok file ∧
      file.fileName = name ++ ".swift" ∧ parse file.content = .ok decls ∧
      extract options [decls] = ⟨log, .ok { Schema.ofProvider options.provider with
        types := .ofList [(name, .union (unionExtracted d rejects))] }⟩ := by
  have hunion : UnionAccepted d := haccepted.definition
  have hwritable := isWritableUnion_unionForms hlead haccepted.identifier hunion hplain.isNameable
  obtain ⟨file, decls, hfile, hfileName, hparse, houtlines⟩ :=
    exists_file_union hlead haccepted hraw hwritable
  obtain ⟨typeDecl, extensions, rfl, rfl, hnamed, hctx⟩ := exists_unionContext hunion houtlines
  obtain ⟨log, rejects, hlower⟩ := lowerUnion_generated hlead haccepted hplain hwritable hctx
  refine ⟨file, _, log, rejects, hfile, hfileName, hparse, extract_type hnamed ?_⟩
  rw [lowerType_union hctx, hlower]

end

/-- From the file generated for a plain union of an accepted schema one definition of its name is
extracted, whatever the strictness. It agrees with the union exactly if the code tells the tags and
the place of payloads. -/
theorem extract_generate_union {schema : Schema} {options : Options} {name : String}
    {d : UnionDef} (hverify : verify schema = .ok ())
    (hentry : (name, .union d) ∈ schema.types.entries) (hraw : d.rawValueType = none)
    (hplain : d.IsPlain options.fallbackCase) :
    ∃ files file decls log definition, generate schema .swift "" = .ok files ∧
      file ∈ files ∧ file.fileName = name ++ ".swift" ∧ parse file.content = .ok decls ∧
      extract options [decls] = ⟨log, .ok { Schema.ofProvider options.provider with
        types := .ofList [(name, definition)] }⟩ ∧
      (definition.agrees (.union d) = true ↔ ∀ disc ∈ d.discriminator, TellsWire d disc) := by
  have haccepted : EntryAccepted (name, .union d) := verify_eq_ok_iff.mp hverify _ hentry
  have hlead : (Namer.ofSchema "" schema).lead = "" := rfl
  obtain ⟨files, hfiles⟩ := render_succeeds hverify ""
  obtain ⟨file, decls, log, rejects, hfile, hfileName, hparse, hextract⟩ :=
    extract_renderType hlead haccepted hraw hplain
  exact ⟨files, file, decls, log, _, generate_of_render hverify hfiles,
    mem_renderTypes hfiles hentry hfile, hfileName, hparse, hextract,
    agrees_unionExtracted_iff haccepted.definition hplain hraw rejects⟩

/-- A union with a payload of each form, a literal, documentation on two lines, a fallback, a tag
that has to be quoted and cases named like keywords. -/
def mailUnion : UnionDef :=
  { direction := .both, doc := some "What was sent.\n\n  Once."
    discriminator := some ⟨"kind", .inline⟩, unknownHandling := some (.fallback "other")
    variants := .ofList
      [("case", ⟨none, .unit, none, none⟩),
        ("default", ⟨some "letter", .inline (.ofList
          [("from", ⟨"Person", none, true, none⟩),
            ("pages", ⟨"list[map[string, any]?]", some "all_pages", false, none⟩)]), none,
          some "On paper."⟩),
        ("other", ⟨none, .unit, none, none⟩),
        ("text", ⟨some "\"plain\"", .wrapped "string", some .string, none⟩)] }

def mailSchema : Schema :=
  { version := schemaVersion, provider := "post", types := .ofList [("Mail", .union mailUnion)] }

theorem extract_generate_mailUnion :
    verify mailSchema = .ok () ∧ ("Mail", .union mailUnion) ∈ mailSchema.types.entries ∧
      mailUnion.rawValueType = none ∧ mailUnion.IsPlain "other" ∧
      ∃ files file decls log definition, generate mailSchema .swift "" = .ok files ∧
        file ∈ files ∧ file.fileName = "Mail.swift" ∧ parse file.content = .ok decls ∧
        extract ⟨"post", "other", .lenient⟩ [decls] = ⟨log, .ok { Schema.ofProvider "post" with
          types := .ofList [("Mail", definition)] }⟩ ∧
        definition.agrees (.union mailUnion) = true := by
  have hverify : verify mailSchema = .ok () := by decide +kernel
  have hentry : ("Mail", .union mailUnion) ∈ mailSchema.types.entries := List.mem_singleton_self _
  have hraw : mailUnion.rawValueType = none := by decide +kernel
  have hplain : mailUnion.IsPlain "other" := by decide +kernel
  have htells : ∀ disc ∈ mailUnion.discriminator, TellsWire mailUnion disc := by decide +kernel
  obtain ⟨files, file, decls, log, definition, hfiles, hfile, hfileName, hparse, hextract, hagrees⟩ :=
    @extract_generate_union mailSchema ⟨"post", "other", .lenient⟩ "Mail" mailUnion hverify hentry
      hraw hplain
  exact ⟨hverify, hentry, hraw, hplain, files, file, decls, log, definition, hfiles, hfile,
    hfileName, hparse, hextract, hagrees.mpr htells⟩

/-! ## Unions of which something is lost -/

/-- A union that is only decoded, with a case named like the word that starts an arm. -/
def eventUnion : UnionDef :=
  { direction := .decode, doc := none, discriminator := some ⟨"type", .inline⟩
    unknownHandling := none
    variants := .ofList [("case", ⟨some "matter", .unit, none, none⟩),
      ("note", ⟨some "memo", .unit, none, none⟩)] }

/-- A union that is only encoded, with a payload that may be absent. -/
def filterUnion : UnionDef :=
  { direction := .encode, doc := none, discriminator := some ⟨"type", .wrapped⟩
    unknownHandling := none, variants := .ofList [("name", .ofPayload (.wrapped "string?"))] }

/-- A union with a payload whose type is spelled like the decoding of a whole value. -/
def tableUnion : UnionDef :=
  { direction := .both, doc := none, discriminator := some ⟨"type", .wrapped⟩
    unknownHandling := none
    variants := .ofList [("rows", .ofPayload (.wrapped "map[from, decoder]"))] }

def lossyUnions : List (String × UnionDef) :=
  [("Event", eventUnion), ("Filter", filterUnion), ("Table", tableUnion)]

def lossySchema : Schema :=
  { version := schemaVersion, provider := "shop"
    types := .ofList (lossyUnions.map fun entry => (entry.1, .union entry.2)) }

/-- Each of these unions comes back as another one. The initializer of the first does not show the
tag of its case. The encoder of the second writes the payload only if there is one, which is not
seen as a payload under a key, and the payload of the third is taken for the whole value: both come
back with the payload beside the tag. -/
theorem extract_generate_lossyUnions :
    verify lossySchema = .ok () ∧
      ∀ entry ∈ lossyUnions, (entry.1, .union entry.2) ∈ lossySchema.types.entries ∧
        entry.2.rawValueType = none ∧ entry.2.IsPlain "unknown" ∧
        ∃ files file decls log d, generate lossySchema .swift "" = .ok files ∧
          file ∈ files ∧ file.fileName = entry.1 ++ ".swift" ∧ parse file.content = .ok decls ∧
          extract ⟨"shop", "unknown", .lenient⟩ [decls] =
            ⟨log, .ok { Schema.ofProvider "shop" with types := .ofList [(entry.1, .union d)] }⟩ ∧
          d.agrees entry.2 = false := by
  have hverify : verify lossySchema = .ok () := by decide +kernel
  have hunions : ∀ entry ∈ lossyUnions, (entry.1, .union entry.2) ∈ lossySchema.types.entries ∧
      entry.2.rawValueType = none ∧ entry.2.IsPlain "unknown" ∧
      ¬ ∀ disc ∈ entry.2.discriminator, TellsWire entry.2 disc := by decide +kernel
  have hlead : (Namer.ofSchema "" lossySchema).lead = "" := rfl
  obtain ⟨files, hfiles⟩ := render_succeeds hverify ""
  refine ⟨hverify, fun entry hunion => ?_⟩
  obtain ⟨hentry, hraw, hplain, hhidden⟩ := hunions entry hunion
  have haccepted := verify_eq_ok_iff.mp hverify _ hentry
  obtain ⟨file, decls, log, rejects, hfile, hfileName, hparse, hextract⟩ :=
    @extract_renderType entry.1 _ entry.2 ⟨"shop", "unknown", .lenient⟩ hlead haccepted hraw hplain
  have hagrees := agrees_unionExtracted_iff haccepted.definition hplain hraw rejects
  exact ⟨hentry, hraw, hplain, files, file, decls, log, unionExtracted entry.2 rejects,
    generate_of_render hverify hfiles, mem_renderTypes hfiles hentry hfile, hfileName, hparse,
    hextract, Bool.eq_false_iff.mpr fun hsame => hhidden (hagrees.mp hsame)⟩

end Extraction

end WireSchema
