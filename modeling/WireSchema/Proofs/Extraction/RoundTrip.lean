import WireSchema.Proofs.Extraction.Definitions

/-!
# Generated code read back

A schema of structs, string enums and aliases that code keeps whole is extracted from
the files generated for it. Each file gives back its definition, and the definitions
come in the order of their names, so none of them meets another of its name.
-/

namespace WireSchema.Extraction

open Generation Swift Verification

/-! ## One file -/

/-- The declaration is lowered to a definition that agrees with the given one. -/
structure GivesBack (usualFallback name : String) (definition : TypeDef) (decl : Decl) : Prop where
  alone : extensionsOf [decl] = []
  lowered : ∃ extracted, lowerDecl usualFallback [] decl = some (name, pure extracted) ∧
    extracted.agrees definition = true

variable {usualFallback name : String}

/-- A file with one declaration in it. -/
theorem exists_decl_of_parse {content : String} {o : DeclOutline}
    (h : ∃ decls, decls.map Decl.outline = [o] ∧ parse content = .ok decls) :
    ∃ decl, decl.outline = o ∧ parse content = .ok [decl] := by
  obtain ⟨decls, houtlines, hparse⟩ := h
  obtain ⟨decl, later, rfl, houtline, hlater⟩ := List.map_eq_cons_iff.mp houtlines
  cases List.map_eq_nil_iff.mp hlater
  exact ⟨decl, houtline, hparse⟩

theorem exists_type_of_outline {decl : Decl} {header : TypeHeader} {o : Outline}
    (h : decl.outline = .type header o) :
    ∃ typeDecl, decl = .type typeDecl ∧ HasHeader ⟨typeDecl, []⟩ header ∧
      outline typeDecl.members = o := by
  cases decl with
  | type typeDecl =>
    obtain ⟨hheader, houtline⟩ := DeclOutline.type.inj h
    exact ⟨typeDecl, rfl, hheader, houtline⟩
  | extension => cases h
  | typealias => cases h

section

variable {ctx : TypeContext} {docs : List String} {inherited : List TypeExpr}

theorem lowerType_struct (hheader : HasHeader ctx (typeHeader docs .struct name inherited)) :
    lowerType usualFallback ctx = some (lowerStruct ctx) := by
  have hgeneric : ctx.decl.isGeneric = false := congrArg TypeHeader.isGeneric hheader
  have hkind : ctx.decl.kind = .struct := congrArg TypeHeader.kind hheader
  rw [lowerType, hgeneric, hkind]
  rfl

theorem lowerType_enum (hheader : HasHeader ctx (typeHeader docs .enum name inherited)) :
    lowerType usualFallback ctx = some (lowerEnum usualFallback ctx) := by
  have hgeneric : ctx.decl.isGeneric = false := congrArg TypeHeader.isGeneric hheader
  have hkind : ctx.decl.kind = .enum := congrArg TypeHeader.kind hheader
  rw [lowerType, hgeneric, hkind]
  rfl

end

/-- A source with one type in it gives back what this is lowered to. -/
theorem givesBack_type (definition extracted : TypeDef) {content : String} {kind : DeclKind}
    {docs : List String} {inherited : List TypeExpr} {o : Outline}
    (hparse : ∃ decls, decls.map Decl.outline = [.type (typeHeader docs kind name inherited) o] ∧
      parse content = .ok decls)
    (hlower : ∀ typeDecl : TypeDecl,
      HasHeader ⟨typeDecl, []⟩ (typeHeader docs kind name inherited) →
        outline typeDecl.members = o →
          lowerType usualFallback ⟨typeDecl, []⟩ = some (pure extracted))
    (hagrees : extracted.agrees definition = true) :
    ∃ decl, parse content = .ok [decl] ∧ GivesBack usualFallback name definition decl := by
  obtain ⟨decl, houtline, hparse⟩ := exists_decl_of_parse hparse
  obtain ⟨typeDecl, rfl, hheader, hmembers⟩ := exists_type_of_outline houtline
  have hname : typeDecl.name = name := congrArg TypeHeader.name hheader
  have hown : extensionsNamed [] typeDecl.name = [] := rfl
  refine ⟨.type typeDecl, hparse, rfl, extracted, ?_, hagrees⟩
  rw [lowerDecl, hown, hlower typeDecl hheader hmembers, hname]
  rfl

theorem givesBack_struct {namer : Namer} (hlead : namer.lead = "") {d : StructDef}
    (haccepted : EntryAccepted (name, .struct d)) (hplain : d.IsPlain) :
    ∃ file decl, renderType namer name (.struct d) = .ok file ∧
      parse file.content = .ok [decl] ∧ GivesBack usualFallback name (.struct d) decl := by
  have htypeName := Namer.typeName_of_lead hlead name
  have hidentifier : Text.isIdentifier (namer.typeName name) = true := by
    rw [htypeName]
    exact haccepted.identifier
  have hforms := isPlain_of_mem_formsOf hlead hplain haccepted.definition
  obtain ⟨lines, hlines, hne, hspells⟩ := spellsLines_structLines hidentifier
    (Namer.resolveFields_eq_ok namer (FieldsAccepted.typed haccepted.definition))
    fun form hform => (hforms form hform).isWritable
  have hparse := parse_content hne hspells (readsSource_structFaces _ d hforms).whole
    (endsType_head?_typeDeclFaces _ _ _ _ _)
  rw [htypeName] at hparse
  obtain ⟨decl, hdecl, hgives⟩ := givesBack_type (.struct d) (.struct (structExtracted d)) hparse
    (fun typeDecl hheader hmembers => (lowerType_struct hheader).trans
      (congrArg some (lowerStruct_generated hlead hplain rfl hheader hmembers)))
    (agrees_structExtracted hplain)
  exact ⟨_, decl, renderType_of_lines hlines, hdecl, hgives⟩

theorem givesBack_stringEnum {namer : Namer} (hlead : namer.lead = "") {d : StringEnumDef}
    (haccepted : EntryAccepted (name, .stringEnum d)) (hplain : d.IsPlain usualFallback) :
    ∃ file decl, renderType namer name (.stringEnum d) = .ok file ∧
      parse file.content = .ok [decl] ∧ GivesBack usualFallback name (.stringEnum d) decl := by
  have htypeName := Namer.typeName_of_lead hlead name
  have hidentifier : Text.isIdentifier (namer.typeName name) = true := by
    rw [htypeName]
    exact haccepted.identifier
  have hvalues : StringEnumAccepted d := haccepted.definition
  have hparse := parse_stringEnum hidentifier hvalues.values.identifiers hvalues.fallback
  rw [htypeName] at hparse
  obtain ⟨decl, hdecl, hgives⟩ := givesBack_type (.stringEnum d)
    (.stringEnum (stringEnumExtracted d)) hparse
    (fun typeDecl hheader hmembers => (lowerType_enum hheader).trans
      (congrArg some (lowerStringEnum_generated hplain rfl hheader hmembers)))
    agrees_stringEnumExtracted
  exact ⟨_, decl, renderType_of_lines rfl, hdecl, hgives⟩

theorem givesBack_typeAlias {namer : Namer} (hlead : namer.lead = "") {d : AliasDef}
    (haccepted : EntryAccepted (name, .typeAlias d)) (hplain : d.IsPlain) :
    ∃ file decl, renderType namer name (.typeAlias d) = .ok file ∧
      parse file.content = .ok [decl] ∧ GivesBack usualFallback name (.typeAlias d) decl := by
  have htypeName := Namer.typeName_of_lead hlead name
  have hidentifier : Text.isIdentifier (namer.typeName name) = true := by
    rw [htypeName]
    exact haccepted.identifier
  have hresolve : namer.resolve d.target = .ok (denoted d.target) := by
    rw [Namer.resolve_of_parse namer (parse_eq_denoted hplain.target.denotesType),
      TypeExpr.rename_eq_self (Namer.reference_of_lead hlead)
        (wellFormed_denoted hplain.target.denotesType)]
  have htarget := hplain.target.meansItself.isPlain_denoted.writable
  obtain ⟨lines, hlines, hne, hspells⟩ := spellsLines_aliasLines hidentifier hresolve htarget
  obtain ⟨decl, houtline, hparse⟩ := exists_decl_of_parse (parse_content hne hspells
    (readsWhole_aliasFaces _ d htarget) (endsType_head?_aliasFaces _ _ _ _))
  rw [htypeName] at houtline
  cases decl with
  | type => cases houtline
  | extension => cases houtline
  | typealias aliasDecl' =>
    have hdecl := DeclOutline.typealias.inj houtline
    have hname : aliasDecl'.name = name := congrArg AliasDecl.name hdecl
    have hgeneric : aliasDecl'.isGeneric = false := congrArg AliasDecl.isGeneric hdecl
    refine ⟨_, .typealias aliasDecl', renderType_of_lines hlines, hparse, rfl,
      .typeAlias d, ?_, by simp [TypeDef.agrees]⟩
    rw [lowerDecl, hgeneric, hname, lowerAlias_generated hplain hdecl]
    rfl

/-- The file of a plain definition is one declaration, which gives the definition back. -/
theorem givesBack_of_isPlain {namer : Namer} (hlead : namer.lead = "") {definition : TypeDef}
    (haccepted : EntryAccepted (name, definition)) (hplain : definition.IsPlain usualFallback) :
    ∃ file decl, renderType namer name definition = .ok file ∧
      parse file.content = .ok [decl] ∧ GivesBack usualFallback name definition decl := by
  cases definition with
  | struct d => exact givesBack_struct hlead haccepted hplain
  | stringEnum d => exact givesBack_stringEnum hlead haccepted hplain
  | typeAlias d => exact givesBack_typeAlias hlead haccepted hplain
  | union d => exact hplain.elim

/-! ## All files -/

/-- Extracting a declaration that gives a definition back. -/
theorem GivesBack.extractDecl_eq {options : Options} {definition : TypeDef} {decl : Decl}
    (h : GivesBack options.fallbackCase name definition decl) :
    ∃ extracted, extractDecl options [] decl = pure (some (name, extracted)) ∧
      extracted.agrees definition = true := by
  obtain ⟨extracted, hlower, hagrees⟩ := h.lowered
  refine ⟨extracted, ?_, hagrees⟩
  rw [extractDecl, hlower]
  rfl

theorem extensionsOf_cons (decl : Decl) (later : List Decl) :
    extensionsOf (decl :: later) = extensionsOf [decl] ++ extensionsOf later := by
  rw [extensionsOf, extensionsOf, extensionsOf, ← List.filterMap_append]
  rfl

/-- The files of plain definitions are one declaration each, and what these are extracted to
agrees with the definitions. -/
theorem exists_declarations {namer : Namer} (hlead : namer.lead = "") {options : Options}
    {entries : List (String × TypeDef)} (haccepted : ∀ entry ∈ entries, EntryAccepted entry)
    (hplain : ∀ entry ∈ entries, entry.2.IsPlain options.fallbackCase) :
    ∃ files decls extracted, renderTypes namer entries = .ok files ∧
      files.mapM (fun file => parse file.content) = .ok (decls.map fun decl => [decl]) ∧
      extensionsOf decls = [] ∧
      Logged.collect (extractDecl options []) decls = pure extracted ∧
      extracted.map Prod.fst = entries.map Prod.fst ∧
      entriesAgree (fun _ => TypeDef.agrees) extracted entries = true := by
  induction entries with
  | nil => exact ⟨[], [], [], rfl, rfl, rfl, rfl, rfl, rfl⟩
  | cons entry later ih =>
    obtain ⟨name, definition⟩ := entry
    obtain ⟨files, decls, extracted, hfiles, hparse, halone, hcollect, hnames, hagree⟩ :=
      ih (fun next hnext => haccepted next (List.mem_cons_of_mem _ hnext))
        (fun next hnext => hplain next (List.mem_cons_of_mem _ hnext))
    obtain ⟨file, decl, hfile, hdecl, hgives⟩ := givesBack_of_isPlain hlead
      (haccepted _ List.mem_cons_self) (hplain (name, definition) List.mem_cons_self)
    obtain ⟨extracted', hextract, hagrees⟩ := hgives.extractDecl_eq
    refine ⟨file :: files, decl :: decls, (name, extracted') :: extracted, ?_, ?_, ?_, ?_, ?_, ?_⟩
    · rw [renderTypes, hfile, hfiles]
      rfl
    · rw [List.mapM_cons, hdecl, hparse]
      rfl
    · rw [extensionsOf_cons, hgives.alone, halone]
      rfl
    · rw [Logged.collect, hextract, hcollect]
      rfl
    · rw [List.map_cons, List.map_cons, hnames]
    · simp [entriesAgree, hagrees, hagree]

/-- Definitions in ascending order of names are merged without meeting one another. -/
theorem mergeInto_eq (strictness : Strictness) (schema : Schema) {entries : List (String × TypeDef)}
    (hasc : Ascending entries)
    (hafter : ∀ done ∈ schema.types.entries, ∀ entry ∈ entries, done.1 < entry.1) :
    mergeInto strictness schema entries =
      pure { schema with
        types := entries.foldl (fun map entry => map.insert entry.1 entry.2) schema.types } := by
  induction entries generalizing schema with
  | nil => rfl
  | cons entry later ih =>
    obtain ⟨name, definition⟩ := entry
    have hnew : schema.types.contains name = false := by
      refine List.any_eq_false.mpr fun done hdone heq => ?_
      have hlt := hafter done hdone (name, definition) List.mem_cons_self
      rw [beq_iff_eq.mp heq] at hlt
      exact String.lt_irrefl name hlt
    have hinsert : (schema.types.insert name definition).entries =
        schema.types.entries ++ [(name, definition)] :=
      insertEntry_of_forall_lt fun done hdone => hafter done hdone _ List.mem_cons_self
    have hlater := ih { schema with types := schema.types.insert name definition }
      (List.pairwise_cons.mp hasc).2 (by
        intro done hdone next hnext
        rw [hinsert] at hdone
        rcases List.mem_append.mp hdone with hold | hlast
        · exact hafter done hold next (List.mem_cons_of_mem _ hnext)
        · rw [List.mem_singleton.mp hlast]
          exact (List.pairwise_cons.mp hasc).1 next hnext)
    rw [mergeInto.eq_def]
    dsimp only
    rw [hnew]
    exact hlater

theorem ascending_iff_names {α : Type} {entries : List (String × α)} :
    Ascending entries ↔ (entries.map Prod.fst).Pairwise fun a b => a < b :=
  List.pairwise_map.symm

/-- Generating code without a lead and extracting it again gives back every accepted schema that
code keeps whole, whatever the strictness, and nothing is warned of. -/
theorem extract_render {schema : Schema} {options : Options} (hverify : verify schema = .ok ())
    (hversion : schema.version = schemaVersion) (hprovider : options.provider = schema.provider)
    (hplain : ∀ entry ∈ schema.types.entries, entry.2.IsPlain options.fallbackCase) :
    ∃ files sources extracted, render schema "" = .ok files ∧
      files.mapM (fun file => parse file.content) = .ok sources ∧
      extract options sources = ⟨[], .ok extracted⟩ ∧ extracted.agrees schema = true := by
  have hlead : (Namer.ofSchema "" schema).lead = "" := rfl
  obtain ⟨files, decls, extracted, hfiles, hparse, halone, hcollect, hnames, hagree⟩ :=
    exists_declarations hlead (verify_eq_ok_iff.mp hverify) hplain
  have hasc : Ascending extracted := by
    rw [ascending_iff_names, hnames, ← ascending_iff_names]
    exact schema.types.ascending
  have hflatten : (decls.map fun decl => [decl]).flatten = decls := by
    rw [← List.flatMap_def, List.flatMap_singleton']
  have hdeclarations : declarations options (decls.map fun decl => [decl]) = pure extracted := by
    rw [declarations, hflatten, halone, hcollect]
  have hmerge := mergeInto_eq options.strictness (.ofProvider options.provider) hasc (by
    intro done hdone
    cases hdone)
  have hentries : (NameMap.ofList extracted).entries = extracted := NameMap.entries_ofList hasc
  refine ⟨files, decls.map fun decl => [decl],
    { Schema.ofProvider options.provider with types := .ofList extracted }, hfiles, hparse, ?_, ?_⟩
  · rw [extract, hdeclarations, Logged.pure_bind, hmerge]
    rfl
  · simp [Schema.agrees, Schema.ofProvider, hversion, hprovider, hentries, hagree]

/-- A schema with a field remapped to a key and documented on two lines, an enum with a fallback,
and a deprecated alias. -/
def shopSchema : Schema :=
  { version := schemaVersion
    provider := "shop"
    types := .ofList
      [("Cart", .struct
        { direction := .both, doc := some "What is bought.\n\n  Once."
          fields := .ofList
            [("default", ⟨"map[string, list[Item]?]", some "\"default\"", true, some "Goods."⟩),
              ("note", ⟨"string", none, false, none⟩)] }),
        ("Kind", .stringEnum
          { direction := .decode, doc := none, unknownHandling := some (.fallback "other")
            values := .ofList [("case", "case"), ("new", "brand \\ new")] }),
        ("Old", .typeAlias
          { target := "Shop.Cart?", deprecated := true, doc := some "Kept for now." })] }

theorem extract_render_shopSchema :
    verify shopSchema = .ok () ∧ shopSchema.version = schemaVersion ∧
      (∀ entry ∈ shopSchema.types.entries, entry.2.IsPlain "other") ∧
      ∃ files sources extracted, render shopSchema "" = .ok files ∧
        files.mapM (fun file => parse file.content) = .ok sources ∧
        extract ⟨"shop", "other", .strict⟩ sources = ⟨[], .ok extracted⟩ ∧
        extracted.agrees shopSchema = true := by
  have hverify : verify shopSchema = .ok () := by decide +kernel
  have hplain : ∀ entry ∈ shopSchema.types.entries, entry.2.IsPlain "other" := by decide +kernel
  exact ⟨hverify, rfl, hplain, extract_render hverify rfl rfl hplain⟩

end WireSchema.Extraction
