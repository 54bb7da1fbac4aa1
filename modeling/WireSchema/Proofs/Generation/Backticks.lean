import WireSchema.Proofs.Generation.References
import WireSchema.Proofs.Generation.UnionSites

/-!
# Keywords among the names in generated code

The names of fields, cases and coding keys stand in backticks wherever they are keywords, in
declarations, parameters, assignments, patterns, bindings and references to keys alike. The
names of types never do. So no keyword is left bare exactly if no type has one as its name in
code.
-/

namespace WireSchema.Generation

open Text (isIdentifier)
open Verification

/-! ## Definitions -/

def Namer.sites (namer : Namer) (name : String) : TypeDef → List NameSite
  | .struct d => structSites (namer.typeName name) (d.fields.entries.map namer.fieldForm)
  | .stringEnum d => stringEnumSites (namer.typeName name) d
  | .union d =>
    if d.rawValueType.isSome then numberedEnumSites (namer.typeName name) d
    else unionSites (namer.typeName name) d (namer.unionForms d)
  | .typeAlias d =>
    typeSite (namer.typeName name) :: typeSites ((denoted d.target).rename namer.reference)

variable {namer : Namer} {name : String}

theorem codeLines_aliasLines {d : AliasDef} {t : TypeExpr} (htarget : namer.resolve d.target = .ok t) :
    ∃ lines, aliasLines namer name d = .ok lines ∧
      CodeLines lines (typeSite (namer.typeName name) :: typeSites t) := by
  have hdeprecation : CodeLines (if d.deprecated then
      ["@available(*, deprecated, message: " ++
        Swift.stringLiteral ("Use " ++ Swift.typeText t ++ " instead") ++ ")"] else []) [] := by
    split
    · exact (((CodeRow.start "@available(*, deprecated, message: " (by simp [phrases])).literal
        _).phrase ")" (by simp [phrases])).line
    · exact .nil
  have hrow := (((CodeRow.start "public typealias " (by simp [phrases])).typeName
    (namer.typeName name)).phrase " = " (by simp [phrases])).type t
  refine ⟨_, by rw [aliasLines, htarget]; rfl, ?_⟩
  exact ((CodeLines.docs "" (by decide) d.doc).append hdeprecation).append hrow.line

/-- The code of every accepted definition is made of rows and comments with the names of the
definition. -/
theorem codeLines_definitionLines {definition : TypeDef} (h : DefinitionAccepted definition)
    (hname : isIdentifier (namer.typeName name) = true) :
    ∃ lines, definitionLines namer name definition = .ok lines ∧
      CodeLines lines (namer.sites name definition) := by
  cases definition with
  | struct d =>
    exact codeLines_structLines (Namer.resolveFields_eq_ok namer (fieldsWellTyped_of_accepted h))
  | stringEnum d => exact ⟨_, rfl, codeLines_stringEnumLines namer name d⟩
  | union d =>
    cases hraw : d.rawValueType with
    | some raw =>
      refine ⟨numberedEnumLines namer name d raw, by rw [definitionLines, unionLines, hraw], ?_⟩
      rw [Namer.sites, hraw]
      exact codeLines_numberedEnumLines namer name hraw
    | none =>
      refine ⟨_, unionLines_eq_ok h hraw namer name, ?_⟩
      rw [Namer.sites, hraw]
      exact codeLines_union hname d (namer.unionForms d)
  | typeAlias d =>
    exact codeLines_aliasLines (Namer.resolve_of_parse namer (parse_eq_denoted h.typed))

/-! ## Names of types -/

theorem customNames_rename (f : String → String) (t : TypeExpr) :
    (t.rename f).customNames = t.customNames.map f := by
  induction t with
  | primitive p => rfl
  | list t ih => exact ih
  | map key value ihkey ihvalue =>
    rw [TypeExpr.rename, TypeExpr.customNames, ihkey, ihvalue, TypeExpr.customNames, List.map_append]
  | optional t ih =>
    rw [TypeExpr.rename, TypeExpr.customNames_asOptional, ih]
    rfl
  | custom name => rfl

section

variable {type typeName : String} {variant : VariantForm} {variants : List VariantForm}

@[simp] theorem typeSite_mem_typeSites {t : TypeExpr} :
    typeSite type ∈ typeSites t ↔ type ∈ t.customNames := by
  simp [typeSites]

@[simp] theorem typeSite_notMem_keySites (keys : List (String × String)) :
    typeSite type ∉ keySites keys := by
  simp [keySites]

@[simp] theorem typeSite_notMem_decoderSites (direction : Direction) (fallback : Option String) :
    typeSite type ∉ decoderSites direction fallback := by
  unfold decoderSites
  split <;> simp

@[simp] theorem typeSite_mem_fieldSites {field : FieldForm} :
    typeSite type ∈ field.sites ↔ type ∈ field.type.customNames := by
  simp [FieldForm.sites]

@[simp] theorem typeSite_notMem_twice (field : FieldForm) : typeSite type ∉ field.twice := by
  simp [FieldForm.twice]

theorem typeSite_mem_structSites {fields : List FieldForm} :
    typeSite type ∈ structSites typeName fields ↔
      type = typeName ∨ ∃ field ∈ fields, type ∈ field.type.customNames := by
  have hkeys : typeSite type ∉ structKeySites fields := by
    unfold structKeySites
    split <;> simp
  simp [structSites, initializerSites, hkeys]

def VariantForm.NamesType (variant : VariantForm) (type : String) : Prop :=
  ∃ t ∈ variant.payload.types, type ∈ t.customNames

theorem typeSite_mem_caseSites : typeSite type ∈ variant.caseSites ↔ variant.NamesType type := by
  rw [VariantForm.caseSites, VariantForm.NamesType]
  cases variant.payload <;> simp [PayloadForm.sites, PayloadForm.types]

@[simp] theorem typeSite_mem_decodedSites {t : TypeExpr} {key : String} :
    typeSite type ∈ decodedSites t key ↔ type ∈ t.customNames := by
  simp [decodedSites]

theorem VariantForm.namesType_of_decoded {style : DiscriminatorStyle}
    (h : typeSite type ∈ variant.taggedDecodeSites style) : variant.NamesType type := by
  unfold taggedDecodeSites decodedSites at h
  unfold NamesType
  split at h
  · cases h
  · cases hpayload : variant.payload with
    | unit => simp [hpayload] at h
    | wrapped t => cases style <;> simpa [hpayload, PayloadForm.types] using h
    | inline fields => simpa [hpayload, PayloadForm.types, FieldForm.decodedSites] using h

theorem VariantForm.namesType_of_attempt (h : typeSite type ∈ variant.attemptSites) :
    variant.NamesType type := by
  unfold attemptSites at h
  unfold NamesType
  split at h
  · cases h
  · cases hpayload : variant.payload with
    | wrapped t => simpa [hpayload, PayloadForm.types] using h
    | unit => simp [hpayload] at h
    | inline fields => simp [hpayload] at h

@[simp] theorem typeSite_notMem_taggedEncodeSites (disc : Discriminator) (variant : VariantForm) :
    typeSite type ∉ variant.taggedEncodeSites disc := by
  unfold VariantForm.taggedEncodeSites VariantForm.encodedSites
  split
  · simp
  · cases variant.payload with
    | unit => simp
    | wrapped t => cases disc.style <;> simp
    | inline fields => simp

theorem exists_namesType_of_unionBody {d : UnionDef}
    (h : typeSite type ∈ unionBodySites d variants) :
    ∃ variant ∈ variants, variant.NamesType type := by
  unfold unionBodySites at h
  cases hdisc : d.discriminator with
  | some disc =>
    rw [hdisc] at h
    have hdecoder : typeSite type ∈ taggedDecoderSites disc d.fallbackVariant variants := by
      simp only [taggedBodySites, List.mem_append] at h
      rcases h with ((hkeys | htags) | hdecoder) | hencoder
      · exact absurd hkeys (typeSite_notMem_keySites _)
      · simp at htags
      · split at hdecoder
        · exact hdecoder
        · cases hdecoder
      · split at hencoder
        · simp at hencoder
        · cases hencoder
    simp only [taggedDecoderSites, List.mem_cons, List.mem_append, typeSite_ne_memberSite,
      List.not_mem_nil, or_false, false_or] at hdecoder
    obtain ⟨variant, hvariant, hsite⟩ := List.mem_flatMap.mp hdecoder
    exact ⟨variant, hvariant, VariantForm.namesType_of_decoded hsite⟩
  | none =>
    rw [hdisc] at h
    simp only [untaggedBodySites, List.mem_append] at h
    rcases h with hdecoder | hencoder
    · split at hdecoder
      · rcases List.mem_append.mp hdecoder with hattempts | hfallback
        · obtain ⟨variant, hvariant, hsite⟩ := List.mem_flatMap.mp hattempts
          exact ⟨variant, hvariant, VariantForm.namesType_of_attempt hsite⟩
        · simp at hfallback
      · cases hdecoder
    · split at hencoder
      · simp at hencoder
      · cases hencoder

theorem namesType_of_literal (h : typeSite type ∈ variant.literalSites typeName) :
    type = typeName ∨ variant.NamesType type := by
  have helement : ∀ t : TypeExpr, (elementType t).customNames = t.customNames := by
    intro t
    cases t <;> rfl
  unfold VariantForm.literalSites at h
  unfold VariantForm.NamesType
  split at h
  · exact .inl (by simpa using h)
  · next t hliteral hpayload =>
    rw [hpayload]
    simpa [PayloadForm.types, helement] using h
  · cases h

theorem typeSite_mem_unionSites {d : UnionDef} :
    typeSite type ∈ unionSites typeName d variants ↔
      type = typeName ∨ ∃ variant ∈ variants, variant.NamesType type := by
  constructor
  · intro h
    simp only [unionSites, List.mem_cons, typeSite_inj, List.mem_append] at h
    rcases h with hname | (hcases | hbody) | hliterals
    · exact .inl hname
    · obtain ⟨variant, hvariant, hsite⟩ := List.mem_flatMap.mp hcases
      exact .inr ⟨variant, hvariant, typeSite_mem_caseSites.mp hsite⟩
    · exact .inr (exists_namesType_of_unionBody hbody)
    · obtain ⟨variant, hvariant, hsite⟩ := List.mem_flatMap.mp hliterals
      exact (namesType_of_literal hsite).imp_right fun hnames => ⟨variant, hvariant, hnames⟩
  · rintro (rfl | ⟨variant, hvariant, hnames⟩)
    · exact List.mem_cons_self
    · have hcases := List.mem_flatMap.mpr ⟨variant, hvariant, typeSite_mem_caseSites.mpr hnames⟩
      exact List.mem_cons_of_mem _ (List.mem_append_left _ (List.mem_append_left _ hcases))

end

/-- The types that are named in the code of a definition are its own and those it refers to. -/
theorem typeSite_mem_sites {definition : TypeDef} (h : DefinitionAccepted definition)
    {type : String} :
    typeSite type ∈ namer.sites name definition ↔
      type = namer.typeName name ∨ ∃ t ∈ namer.codeTypes definition, type ∈ t.customNames := by
  cases definition with
  | struct d =>
    rw [Namer.sites, typeSite_mem_structSites, Namer.codeTypes]
    simp
  | stringEnum d => simp [Namer.sites, stringEnumSites, Namer.codeTypes]
  | union d =>
    rw [Namer.sites]
    cases hraw : d.rawValueType with
    | some raw =>
      -- A numbered enum has units only, so it refers to no type.
      have htypes : namer.codeTypes (.union d) = [] := by
        refine List.flatMap_eq_nil_iff.mpr fun form hform => ?_
        obtain ⟨entry, hordered, rfl⟩ := List.mem_map.mp hform
        have hunit : entry.2.payload = .unit :=
          beq_iff_eq.mp (isUnit_of_rawValueType h hraw (mem_of_mem_orderedVariants hordered))
        rw [Namer.variantForm, hunit]
        rfl
      simp [numberedEnumSites, htypes]
    | none =>
      rw [if_neg (by simp), typeSite_mem_unionSites, Namer.codeTypes]
      simp only [VariantForm.NamesType, List.mem_flatMap]
      refine or_congr_right ⟨?_, ?_⟩
      · rintro ⟨form, hform, t, ht, htype⟩
        exact ⟨t, ⟨form, hform, ht⟩, htype⟩
      · rintro ⟨t, ⟨form, hform, ht⟩, htype⟩
        exact ⟨form, hform, t, ht, htype⟩
  | typeAlias d => simp [Namer.sites, Namer.codeTypes]

/-- A name of a type in the code of a schema is that of one of its types, or one from elsewhere. -/
theorem exists_typeSite_iff {schema : Schema} (hverify : verify schema = .ok ()) (lead : String)
    {type : String} :
    (∃ own ∈ schema.types.entries,
        typeSite type ∈ (Namer.ofSchema lead schema).sites own.1 own.2) ↔
      type ∈ codeNames schema lead ++ outsideNames schema := by
  have haccepted := verify_eq_ok_iff.mp hverify
  constructor
  · rintro ⟨own, hown, hsite⟩
    rcases (typeSite_mem_sites (haccepted own hown).definition).mp hsite with rfl | ⟨t, ht, htype⟩
    · exact List.mem_append_left _ (List.mem_map_of_mem (List.mem_map_of_mem hown))
    · rw [codeTypes_eq] at ht
      obtain ⟨source, hsource, rfl⟩ := List.mem_map.mp ht
      rw [customNames_rename] at htype
      obtain ⟨name, hname, rfl⟩ := List.mem_map.mp htype
      unfold Namer.reference
      split
      · next hdeclared =>
        exact List.mem_append_left _ (List.mem_map_of_mem (List.contains_iff_mem.mp hdeclared))
      · next houtside =>
        refine List.mem_append_right _ (List.mem_filter.mpr ⟨?_, by simpa [Namer.ofSchema] using houtside⟩)
        exact List.mem_flatMap.mpr ⟨own, hown, List.mem_flatMap.mpr ⟨source, hsource, hname⟩⟩
  · intro htype
    rcases List.mem_append.mp htype with hcode | houtside
    · obtain ⟨name, hname, rfl⟩ := List.mem_map.mp hcode
      obtain ⟨own, hown, rfl⟩ := List.mem_map.mp hname
      exact ⟨own, hown, (typeSite_mem_sites (haccepted own hown).definition).mpr (.inl rfl)⟩
    · obtain ⟨hmem, hforeign⟩ := List.mem_filter.mp houtside
      obtain ⟨own, hown, htypes⟩ := List.mem_flatMap.mp hmem
      obtain ⟨source, hsource, hname⟩ := List.mem_flatMap.mp htypes
      have hreference : (Namer.ofSchema lead schema).reference type = type := by
        rw [Namer.reference, if_neg (by simpa [Namer.ofSchema] using hforeign)]
      refine ⟨own, hown, (typeSite_mem_sites (haccepted own hown).definition).mpr (.inr ?_)⟩
      refine ⟨source.rename (Namer.ofSchema lead schema).reference, ?_, ?_⟩
      · rw [codeTypes_eq]
        exact List.mem_map_of_mem hsource
      · rw [customNames_rename]
        exact List.mem_map.mpr ⟨type, hname, hreference⟩

/-! ## Files -/

/-- The file is named for the type, and its code is made of rows and comments with the given
names. -/
structure HasSites (typeName : String) (sites : List NameSite) (file : GeneratedFile) : Prop where
  fileName : file.fileName = typeName ++ ".swift"
  content : ∃ lines, file.content = header ++ "\n\nimport Foundation\n\n" ++ joinLines lines ∧
    CodeLines lines sites

theorem renderTypes_hasSites {entries : List (String × TypeDef)}
    (haccepted : ∀ entry ∈ entries, EntryAccepted entry)
    (hnames : ∀ entry ∈ entries, isIdentifier (namer.typeName entry.1) = true) :
    ∃ files, renderTypes namer entries = .ok files ∧
      List.Forall₂ (fun entry => HasSites (namer.typeName entry.1) (namer.sites entry.1 entry.2))
        entries files := by
  induction entries with
  | nil => exact ⟨[], rfl, .nil⟩
  | cons entry later ih =>
    obtain ⟨name, definition⟩ := entry
    obtain ⟨files, hfiles, hlater⟩ :=
      ih (fun next hnext => haccepted next (List.mem_cons_of_mem _ hnext))
        fun next hnext => hnames next (List.mem_cons_of_mem _ hnext)
    obtain ⟨lines, hlines, hsites⟩ := codeLines_definitionLines
      (haccepted _ List.mem_cons_self).definition (hnames (name, definition) List.mem_cons_self)
    refine ⟨⟨namer.typeName name ++ ".swift",
      header ++ "\n\nimport Foundation\n\n" ++ joinLines lines⟩ :: files, ?_,
      .cons ⟨rfl, lines, rfl, hsites⟩ hlater⟩
    rw [renderTypes, renderType, hlines, hfiles]
    rfl

/-- In the code of every accepted schema, with any lead that can stand in front of a name, the
names of members are in backticks exactly if they are keywords, and the names of types are
bare. So every keyword is in backticks exactly if none is the name of a type in code. -/
theorem generate_backticks_iff {schema : Schema} (hverify : verify schema = .ok ()) {lead : String}
    (hlead : lead = "" ∨ isIdentifier lead = true) :
    ∃ files, generate schema .swift lead = .ok files ∧
      List.Forall₂ (fun own => HasSites (lead ++ own.1)
        ((Namer.ofSchema lead schema).sites own.1 own.2)) schema.types.entries files ∧
      (∀ own ∈ schema.types.entries, ∀ site ∈ (Namer.ofSchema lead schema).sites own.1 own.2,
        (site.role = .member → site.inBackticks = isKeyword site.name) ∧
          (site.role = .type → site.inBackticks = false ∧
            site.name ∈ codeNames schema lead ++ outsideNames schema)) ∧
      ((∀ own ∈ schema.types.entries,
          ∀ site ∈ (Namer.ofSchema lead schema).sites own.1 own.2, ¬ site.IsBare) ↔
        ∀ name ∈ codeNames schema lead ++ outsideNames schema, isKeyword name = false) := by
  have haccepted := verify_eq_ok_iff.mp hverify
  have hnames : ∀ own ∈ schema.types.entries,
      isIdentifier ((Namer.ofSchema lead schema).typeName own.1) = true := fun own hown =>
    isIdentifier_of_mem_codeNames hverify hlead _ (List.mem_map_of_mem (List.mem_map_of_mem hown))
  obtain ⟨files, hfiles, hsites⟩ := renderTypes_hasSites haccepted hnames
  have hcases : ∀ own ∈ schema.types.entries,
      ∀ site ∈ (Namer.ofSchema lead schema).sites own.1 own.2,
        site = memberSite site.name ∨ site = typeSite site.name := by
    intro own hown site hsite
    obtain ⟨lines, -, hlines⟩ :=
      codeLines_definitionLines (haccepted own hown).definition (hnames own hown)
    exact hlines.mem_cases hsite
  refine ⟨files, generate_of_render hverify hfiles, hsites, fun own hown site hsite => ?_, ?_⟩
  · rcases hcases own hown site hsite with hmember | htype
    · rw [hmember]
      exact ⟨fun _ => rfl, nofun⟩
    · rw [htype] at hsite ⊢
      exact ⟨nofun, fun _ => ⟨rfl, (exists_typeSite_iff hverify lead).mp ⟨own, hown, hsite⟩⟩⟩
  · constructor
    · intro hbare name hname
      obtain ⟨own, hown, hsite⟩ := (exists_typeSite_iff hverify lead).mpr hname
      exact Bool.eq_false_iff.mpr fun hkeyword => hbare own hown _ hsite ⟨hkeyword, rfl⟩
    · rintro hkeywords own hown site hsite ⟨hkeyword, hbackticks⟩
      rcases hcases own hown site hsite with hmember | htype
      · rw [hmember] at hbackticks
        cases hkeyword.symm.trans hbackticks
      · rw [htype] at hsite
        have hname := (exists_typeSite_iff hverify lead).mp ⟨own, hown, hsite⟩
        cases hkeyword.symm.trans (hkeywords site.name hname)

/-- A union and a string enum with keywords for their members. -/
def keywordSchema : Schema :=
  { version := schemaVersion
    provider := "shop"
    types := .ofList
      [("Notice", .union
        { direction := .both, doc := none
          discriminator := some { field := "case", style := .inline }
          unknownHandling := some (.fallback "default")
          variants := .ofList
            [("default", { tag := none, payload := .unit, literal := none, doc := none }),
              ("init", { tag := none, literal := none, doc := none
                         payload := .inline (.ofList [("self", .ofType "Mode")]) })] }),
        ("Mode", .stringEnum
          { direction := .both, doc := none, unknownHandling := none
            values := .ofList [("in", "in"), ("out", "out")] })] }

theorem generate_backticks_keywordSchema :
    verify keywordSchema = .ok () ∧ isIdentifier "Shop" = true ∧
      (∃ own ∈ keywordSchema.types.entries,
        ∃ site ∈ (Namer.ofSchema "Shop" keywordSchema).sites own.1 own.2,
          isKeyword site.name = true) ∧
      ∀ own ∈ keywordSchema.types.entries,
        ∀ site ∈ (Namer.ofSchema "Shop" keywordSchema).sites own.1 own.2, ¬ site.IsBare := by
  have hverify : verify keywordSchema = .ok () := by decide +kernel
  have hlead : isIdentifier "Shop" = true := by decide
  obtain ⟨-, -, -, -, hiff⟩ := generate_backticks_iff hverify (.inr hlead)
  exact ⟨hverify, hlead, by decide +kernel, hiff.mpr (by decide +kernel)⟩

def classSchema : Schema :=
  { version := schemaVersion
    provider := "shop"
    types := .ofList
      [("class", .struct { direction := .both, doc := none, fields := .ofList [] })] }

/-- The name of a type is written as it is, though it is a keyword. -/
theorem generate_bareKeyword_classSchema :
    verify classSchema = .ok () ∧ "class" ∈ keywords ∧
      (Namer.ofSchema "" classSchema).sites "class"
        (.struct { direction := .both, doc := none, fields := .ofList [] }) = [typeSite "class"] ∧
      (typeSite "class").IsBare ∧
      generate classSchema .swift "" = .ok [⟨"class.swift",
        "// Generated by wirekit. Do not edit.\n\nimport Foundation\n\n" ++
          "public struct class: Codable, Sendable \x7b\n    public init() \x7b\x7d\n\x7d\n"⟩] := by
  decide +kernel

end WireSchema.Generation
