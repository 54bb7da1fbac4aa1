import WireSchema.Proofs.Extraction.Accepted
import WireSchema.Proofs.Extraction.Merging
import WireSchema.Proofs.Extraction.TaggedCases
import WireSchema.Proofs.Extraction.UnionRoundTrip
import WireSchema.Proofs.Generation.Parses

/-!
# Generated unions of numbers read back

The file of a union of numbers holds one enum, and no other file is about a type of its name. So
the union comes back, from its file alone or from all files together, exactly if its tags last.
-/

namespace WireSchema

namespace Swift

def Decl.typeName : Decl → String
  | .type decl => decl.name
  | .extension decl => decl.name
  | .typealias decl => decl.name

end Swift

namespace Extraction

open Generation Swift Verification

/-! ## Types declared once -/

theorem typeName_of_lowerDecl {usualFallback name : String} {extensions : List ExtensionDecl}
    {decl : Decl} {lowered : Lowering TypeDef}
    (h : lowerDecl usualFallback extensions decl = some (name, lowered)) : decl.typeName = name := by
  cases decl with
  | type decl =>
    obtain ⟨_, -, hpair⟩ := Option.map_eq_some_iff.mp h
    exact congrArg Prod.fst hpair
  | typealias decl =>
    rw [lowerDecl] at h
    split at h
    · cases h
    · exact congrArg Prod.fst (Option.some.inj h)
  | extension => cases h

theorem typeName_of_definitionOf? {usualFallback : String} {extensions : List ExtensionDecl}
    {decl : Decl} {found : String × TypeDef}
    (h : definitionOf? usualFallback extensions decl = some found) : decl.typeName = found.1 := by
  unfold definitionOf? at h
  split at h
  · next hlower =>
    cases h
    exact typeName_of_lowerDecl hlower
  · cases h

/-- The sources declare the type, and nothing else in them is about a type of its name. -/
structure DeclaredOnce (typeDecl : TypeDecl) (sources : List (List Decl)) : Prop where
  mem : .type typeDecl ∈ sources.flatten
  only : ∀ decl ∈ sources.flatten, decl.typeName = typeDecl.name → decl = .type typeDecl

namespace DeclaredOnce

variable {typeDecl : TypeDecl} {sources : List (List Decl)} (h : DeclaredOnce typeDecl sources)

include h

theorem extensionsNamed_eq :
    extensionsNamed (extensionsOf sources.flatten) typeDecl.name = [] := by
  refine List.filter_eq_nil_iff.mpr fun found hfound hname => ?_
  obtain ⟨decl, hdecl, hextension⟩ := List.mem_filterMap.mp hfound
  cases decl with
  | type => cases hextension
  | typealias => cases hextension
  | «extension» other =>
    cases hextension
    cases h.only _ hdecl (beq_iff_eq.mp hname)

theorem lowerDecl_eq (usualFallback : String) :
    lowerDecl usualFallback (extensionsOf sources.flatten) (.type typeDecl) =
      (lowerType usualFallback ⟨typeDecl, []⟩).map (typeDecl.name, ·) := by
  rw [lowerDecl, h.extensionsNamed_eq]

/-- A definition of the name is that of the type, however strict the extraction is. -/
theorem exists_lowerType {options : Options} {schema : Schema} {definition : TypeDef}
    (hextract : (extract options sources).result = .ok schema)
    (hget : schema.types.get? typeDecl.name = some definition) :
    ∃ lowered, lowerType options.fallbackCase ⟨typeDecl, []⟩ = some lowered ∧
      lowered.result = .ok definition := by
  obtain ⟨definitions, hdefinitions, hmerge⟩ := Logged.result_bind_eq_ok_iff.mp hextract
  have hentry : (typeDecl.name, definition) ∈ definitions := by
    rcases mem_of_mergeInto hmerge _ (mem_of_get? hget) with hnone | hmem
    · cases hnone
    · exact hmem
  obtain ⟨decl, hdecl, hresult⟩ := Logged.exists_of_mem_collect hdefinitions hentry
  obtain ⟨lowered, hlower, hlowered⟩ := exists_lowerDecl_of_extractDecl hresult
  cases h.only decl hdecl (typeName_of_lowerDecl hlower)
  rw [h.lowerDecl_eq] at hlower
  obtain ⟨_, hlower, hpair⟩ := Option.map_eq_some_iff.mp hlower
  cases hpair
  exact ⟨lowered, hlower, hlowered⟩

/-- Whatever else is dropped, a definition of the type is kept by lenient extraction. -/
theorem exists_extract_lenient {options : Options} {log : List Warning} {definition : TypeDef}
    (hlower : lowerType options.fallbackCase ⟨typeDecl, []⟩ = some ⟨log, .ok definition⟩) :
    ∃ schema, (extract (options.withStrictness .lenient) sources).result = .ok schema ∧
      schema.types.get? typeDecl.name = some definition := by
  obtain ⟨_, hdeclarations, -⟩ := declarations_lenient options sources
  have hfound : definitionOf? options.fallbackCase (extensionsOf sources.flatten)
      (.type typeDecl) = some (typeDecl.name, definition) := by
    rw [definitionOf?, h.lowerDecl_eq, hlower]
    rfl
  refine ⟨_, congrArg Logged.result (extract_lenient hdeclarations), ?_⟩
  refine NameMap.get?_ofList_of_forall_eq (List.mem_filterMap.mpr ⟨_, h.mem, hfound⟩)
    fun binding hbinding hname => ?_
  obtain ⟨decl, hdecl, hother⟩ := List.mem_filterMap.mp hbinding
  cases h.only decl hdecl ((typeName_of_definitionOf? hother).trans hname)
  exact Option.some.inj (hother.symm.trans hfound)

end DeclaredOnce

/-- A definition of a type that stands alone is kept, however strict the extraction is. -/
theorem exists_extract_alone {options : Options} {typeDecl : TypeDecl} {log : List Warning}
    {definition : TypeDef}
    (hlower : lowerType options.fallbackCase ⟨typeDecl, []⟩ = some ⟨log, .ok definition⟩) :
    ∃ schema, (extract options [[.type typeDecl]]).result = .ok schema ∧
      schema.types.get? typeDecl.name = some definition := by
  have hnone : ∀ extensionDecl ∈ ([] : List ExtensionDecl), extensionDecl.name = typeDecl.name :=
    nofun
  refine ⟨_, congrArg Logged.result (extract_type hnone hlower), ?_⟩
  exact NameMap.get?_ofList_of_forall_eq (List.mem_singleton_self (typeDecl.name, definition))
    fun _ hother _ => List.mem_singleton.mp hother

/-! ## Unions of numbers -/

/-- The union is extracted with its names and tags and the kind of its numbers. -/
def ComesBack (options : Options) (sources : List (List Decl)) (name : String) (d : UnionDef) :
    Prop :=
  ∃ schema back, (extract options sources).result = .ok schema ∧
    schema.types.get? name = some (.union back) ∧ KeepsNumbers d back

section

variable {options : Options} {name : String} {d : UnionDef} {raw : RawKind} {typeDecl : TypeDecl}
  {sources : List (List Decl)}

theorem IsNumberedContext.name_eq {ctx : TypeContext} (h : IsNumberedContext name d raw ctx) :
    ctx.decl.name = name :=
  (congrArg TypeHeader.name h.header :)

variable (h : IsNumberedContext name d raw ⟨typeDecl, []⟩) (hraw : d.rawValueType = some raw)
  (husual : ∀ fallback ∈ d.fallbackVariant, fallback = options.fallbackCase)

include h hraw husual

theorem tagsLast_of_comesBack (honce : DeclaredOnce typeDecl sources)
    (hback : ComesBack options sources name d) : TagsLast d := by
  obtain ⟨schema, back, hextract, hget, hkept⟩ := hback
  rw [← h.name_eq] at hget
  obtain ⟨lowered, hlower, hlowered⟩ := honce.exists_lowerType hextract hget
  exact h.tagsLast_of_keepsNumbers hraw husual hlower hlowered hkept

/-- Among other declarations the union comes back from lenient extraction if its tags last. -/
theorem comesBack_lenient_iff (haccepted : UnionAccepted d)
    (honce : DeclaredOnce typeDecl sources) :
    ComesBack (options.withStrictness .lenient) sources name d ↔ TagsLast d := by
  constructor
  · exact tagsLast_of_comesBack h hraw husual honce
  · intro hlast
    obtain ⟨back, hlower, hkept⟩ := h.exists_keepsNumbers hraw husual haccepted hlast
    obtain ⟨schema, hextract, hget⟩ := honce.exists_extract_lenient hlower
    exact ⟨schema, back, hextract, h.name_eq ▸ hget, hkept⟩

/-- Alone it comes back then from strict extraction too. -/
theorem comesBack_alone_iff (haccepted : UnionAccepted d) :
    ComesBack options [[.type typeDecl]] name d ↔ TagsLast d := by
  have honce : DeclaredOnce typeDecl [[.type typeDecl]] :=
    ⟨List.mem_singleton_self _, fun decl hdecl _ => List.mem_singleton.mp hdecl⟩
  constructor
  · exact tagsLast_of_comesBack h hraw husual honce
  · intro hlast
    obtain ⟨back, hlower, hkept⟩ := h.exists_keepsNumbers hraw husual haccepted hlast
    obtain ⟨schema, hextract, hget⟩ := exists_extract_alone hlower
    exact ⟨schema, back, hextract, h.name_eq ▸ hget, hkept⟩

end

/-! ## Files -/

theorem typeName_of_isDeclarationOf {name : String} {definition : TypeDef} {decl : Decl}
    (h : isDeclarationOf name definition decl = true) : decl.typeName = name := by
  unfold isDeclarationOf at h
  split at h
  all_goals first
    | exact beq_iff_eq.mp h
    | exact beq_iff_eq.mp (Bool.and_eq_true_iff.mp h).2
    | cases h

theorem typeName_of_isLiteralExtension {name : String} {kind : LiteralSugar} {decl : Decl}
    (h : isLiteralExtension name kind decl = true) : decl.typeName = name := by
  cases decl with
  | «extension» decl => exact beq_iff_eq.mp (Bool.and_eq_true_iff.mp h).1
  | type => cases h
  | typealias => cases h

/-- The declarations are those in the file of the entry, and all are about its type. -/
structure IsSourceOf (namer : Namer) (entry : String × TypeDef) (decls : List Decl) : Prop where
  parsed : ∃ file, renderType namer entry.1 entry.2 = .ok file ∧ parse file.content = .ok decls
  named : ∀ decl ∈ decls, decl.typeName = entry.1

section

variable {namer : Namer}

theorem named_of_declaresOnly {name : String} {definition : TypeDef} {source : String}
    (h : DeclaresOnly name definition source) :
    ∃ decls, parse source = .ok decls ∧ ∀ decl ∈ decls, decl.typeName = name := by
  obtain ⟨first, extensions, hparse, hfirst, hextensions⟩ := h
  refine ⟨first :: extensions, hparse,
    List.forall_mem_cons.mpr ⟨typeName_of_isDeclarationOf hfirst, fun decl hdecl => ?_⟩⟩
  have hzip : decl ∈ ((literalsOf definition).zip extensions).map Prod.snd := by
    rwa [List.map_snd_zip hextensions.length_eq.ge]
  obtain ⟨⟨kind, _⟩, hpair, rfl⟩ := List.mem_map.mp hzip
  exact typeName_of_isLiteralExtension (List.forall₂_zip hextensions hpair)

/-- Every file is parsed, and there is a source for each entry. -/
theorem exists_sources (hlead : namer.lead = "") {entries : List (String × TypeDef)}
    (haccepted : ∀ entry ∈ entries, EntryAccepted entry)
    (h : ∀ entry ∈ entries, entry.2.IsNameable) :
    ∃ files sources, renderTypes namer entries = .ok files ∧
      files.mapM (fun file => parse file.content) = .ok sources ∧
      (∀ entry ∈ entries, ∃ decls ∈ sources, IsSourceOf namer entry decls) ∧
      ∀ decls ∈ sources, ∃ entry ∈ entries, IsSourceOf namer entry decls := by
  induction entries with
  | nil => exact ⟨[], [], rfl, rfl, nofun, nofun⟩
  | cons entry later ih =>
    obtain ⟨files, sources, hfiles, hsources, hentries, hbacks⟩ :=
      ih (fun next hnext => haccepted next (List.mem_cons_of_mem _ hnext))
        (fun next hnext => h next (List.mem_cons_of_mem _ hnext))
    obtain ⟨file, hfile, -, hdeclares⟩ := fileDeclares_of_isNameable hlead
      (haccepted entry List.mem_cons_self) (h entry List.mem_cons_self)
    obtain ⟨decls, hparse, hnamed⟩ := named_of_declaresOnly hdeclares
    have hsource : IsSourceOf namer entry decls := ⟨⟨file, hfile, hparse⟩, hnamed⟩
    refine ⟨file :: files, decls :: sources, ?_, ?_, ?_, ?_⟩
    · rw [renderTypes, hfile, hfiles]
      rfl
    · rw [List.mapM_cons, hparse, hsources]
      rfl
    · refine List.forall_mem_cons.mpr ⟨⟨decls, List.mem_cons_self, hsource⟩, fun next hnext => ?_⟩
      obtain ⟨found, hfound, hnextSource⟩ := hentries next hnext
      exact ⟨found, List.mem_cons_of_mem _ hfound, hnextSource⟩
    · refine List.forall_mem_cons.mpr ⟨⟨entry, List.mem_cons_self, hsource⟩, fun next hnext => ?_⟩
      obtain ⟨found, hfound, hnextSource⟩ := hbacks next hnext
      exact ⟨found, List.mem_cons_of_mem _ hfound, hnextSource⟩

/-- A type that is all its file declares is declared once in all files. -/
theorem declaredOnce_of_sources {types : NameMap TypeDef} {sources : List (List Decl)}
    (hentries : ∀ entry ∈ types.entries, ∃ decls ∈ sources, IsSourceOf namer entry decls)
    (hbacks : ∀ decls ∈ sources, ∃ entry ∈ types.entries, IsSourceOf namer entry decls)
    {entry : String × TypeDef} (hentry : entry ∈ types.entries) {file : GeneratedFile}
    (hfile : renderType namer entry.1 entry.2 = .ok file) {typeDecl : TypeDecl}
    (hparse : parse file.content = .ok [.type typeDecl]) (hname : typeDecl.name = entry.1) :
    DeclaredOnce typeDecl sources := by
  have hown : ∀ decls, IsSourceOf namer entry decls → decls = [.type typeDecl] := by
    rintro decls ⟨⟨found, hfound, hdecls⟩, -⟩
    cases hfound.symm.trans hfile
    exact Except.ok.inj (hdecls.symm.trans hparse)
  constructor
  · obtain ⟨decls, hdecls, hsource⟩ := hentries entry hentry
    cases hown decls hsource
    exact List.mem_flatten.mpr ⟨_, hdecls, List.mem_singleton_self _⟩
  · -- the name of a declaration tells the entry that its file is from
    intro decl hdecl hsame
    obtain ⟨decls, hdecls, hmem⟩ := List.mem_flatten.mp hdecl
    obtain ⟨other, hother, hsource⟩ := hbacks decls hdecls
    cases types.eq_of_name_eq hother hentry
      ((hsource.named decl hmem).symm.trans (hsame.trans hname))
    cases hown decls hsource
    exact List.mem_singleton.mp hmem

/-- The file of a union of numbers is the declaration that is generated for it. -/
theorem exists_numberedDecl (hlead : namer.lead = "") {name : String} {d : UnionDef} {raw : RawKind}
    (haccepted : EntryAccepted (name, .union d)) (hraw : d.rawValueType = some raw) :
    ∃ file typeDecl, renderType namer name (.union d) = .ok file ∧
      file.fileName = name ++ ".swift" ∧ parse file.content = .ok [.type typeDecl] ∧
      IsNumberedContext name d raw ⟨typeDecl, []⟩ := by
  obtain ⟨file, decl, hfile, hfileName, hparse, houtline⟩ :=
    exists_file_numberedEnum hlead haccepted hraw
  obtain ⟨typeDecl, rfl, hheader, hmembers⟩ := exists_type_of_outline houtline
  exact ⟨file, typeDecl, hfile, hfileName, hparse, hheader, hmembers, rfl⟩

end

/-! ## Schemas -/

/-- A union of numbers in an accepted schema, with its fallback under the usual name, is generated
and extracted again with its names, its tags and the kind of its numbers exactly if the tags last:
from its file alone, however strict the extraction is, and from all files together, if these can
be parsed. -/
theorem extract_generate_numbers {schema : Schema} {options : Options} {name : String}
    {d : UnionDef} {raw : RawKind} (hverify : verify schema = .ok ())
    (hentry : (name, .union d) ∈ schema.types.entries) (hraw : d.rawValueType = some raw)
    (husual : ∀ fallback ∈ d.fallbackVariant, fallback = options.fallbackCase) :
    ∃ files, generate schema .swift "" = .ok files ∧
      (∃ file ∈ files, ∃ decls, file.fileName = name ++ ".swift" ∧
        parse file.content = .ok decls ∧ (ComesBack options [decls] name d ↔ TagsLast d)) ∧
      ((∀ entry ∈ schema.types.entries, entry.2.IsNameable) →
        ∃ sources, files.mapM (fun file => parse file.content) = .ok sources ∧
          (ComesBack (options.withStrictness .lenient) sources name d ↔ TagsLast d)) := by
  have hentries := verify_eq_ok_iff.mp hverify
  have haccepted : EntryAccepted (name, .union d) := hentries _ hentry
  have hlead : (Namer.ofSchema "" schema).lead = "" := rfl
  obtain ⟨files, hfiles⟩ := render_succeeds hverify ""
  obtain ⟨file, typeDecl, hfile, hfileName, hparse, hctx⟩ :=
    exists_numberedDecl hlead haccepted hraw
  refine ⟨files, generate_of_render hverify hfiles, ⟨file, mem_renderTypes hfiles hentry hfile, _,
    hfileName, hparse, comesBack_alone_iff hctx hraw husual haccepted.definition⟩, ?_⟩
  intro hnameable
  obtain ⟨found, sources, hfound, hsources, hof, hback⟩ := exists_sources hlead hentries hnameable
  cases hfiles.symm.trans hfound
  have honce := declaredOnce_of_sources hof hback hentry hfile hparse hctx.name_eq
  exact ⟨sources, hsources, comesBack_lenient_iff hctx hraw husual haccepted.definition honce⟩

/-- Numbers with an exponent, the sign of a zero and a fallback. -/
def scaleUnion : UnionDef :=
  { direction := .both, doc := some "What is shown.", discriminator := none
    unknownHandling := some (.fallback "other")
    variants := .ofList
      [("boiling", { VariantDef.ofPayload .unit with tag := some "1.0E+2" }),
        ("freezing", { VariantDef.ofPayload .unit with tag := some "-0.0" }),
        ("other", .ofPayload .unit),
        ("warm", { VariantDef.ofPayload .unit with tag := some "25", doc := some "As wanted." })] }

def scaleSchema : Schema :=
  { version := schemaVersion, provider := "home"
    types := .ofList
      [("Room", .struct
          { direction := .both, doc := none, fields := .ofList [("scale", .ofType "Scale")] }),
        ("Scale", .union scaleUnion)] }

theorem extract_generate_scaleUnion :
    verify scaleSchema = .ok () ∧ ("Scale", .union scaleUnion) ∈ scaleSchema.types.entries ∧
      scaleUnion.rawValueType = some .float ∧
      (∀ fallback ∈ scaleUnion.fallbackVariant, fallback = "other") ∧
      (∀ entry ∈ scaleSchema.types.entries, entry.2.IsNameable) ∧
      ∃ files, generate scaleSchema .swift "" = .ok files ∧
        (∃ file ∈ files, ∃ decls, file.fileName = "Scale.swift" ∧
          parse file.content = .ok decls ∧
          ComesBack ⟨"home", "other", .strict⟩ [decls] "Scale" scaleUnion) ∧
        ∃ sources, files.mapM (fun file => parse file.content) = .ok sources ∧
          ComesBack ⟨"home", "other", .lenient⟩ sources "Scale" scaleUnion := by
  have hverify : verify scaleSchema = .ok () := by decide +kernel
  have hentry : ("Scale", .union scaleUnion) ∈ scaleSchema.types.entries := by decide +kernel
  have hraw : scaleUnion.rawValueType = some .float := by decide +kernel
  have husual : ∀ fallback ∈ scaleUnion.fallbackVariant, fallback = "other" := by decide
  have hnameable : ∀ entry ∈ scaleSchema.types.entries, entry.2.IsNameable := by decide +kernel
  have hlast : TagsLast scaleUnion := by decide +kernel
  obtain ⟨files, hfiles, ⟨file, hfile, decls, hfileName, hparse, halone⟩, hall⟩ :=
    @extract_generate_numbers scaleSchema ⟨"home", "other", .strict⟩ "Scale" scaleUnion .float
      hverify hentry hraw husual
  obtain ⟨sources, hsources, hback⟩ := hall hnameable
  exact ⟨hverify, hentry, hraw, husual, hnameable, files, hfiles,
    ⟨file, hfile, decls, hfileName, hparse, halone.mpr hlast⟩, sources, hsources, hback.mpr hlast⟩

/-! ## Tags of which something is lost -/

def gradeUnion (tag : String) : UnionDef :=
  { direction := .both, doc := none, discriminator := none, unknownHandling := none
    variants := .ofList [("best", { VariantDef.ofPayload .unit with tag := some tag })] }

/-- A number ends where the exponent stands right behind the point, and a zero in front and the
sign of a zero are taken off an integer. -/
def lossyGrades : List (String × UnionDef) :=
  [("Exact", gradeUnion "1.e5"), ("Padded", gradeUnion "007"), ("Signed", gradeUnion "-0")]

def gradeSchema : Schema :=
  { version := schemaVersion, provider := "school"
    types := .ofList (lossyGrades.map fun entry => (entry.1, .union entry.2)) }

/-- None of these unions comes back, whatever the options are. -/
theorem extract_generate_lossyGrades :
    verify gradeSchema = .ok () ∧
      ∀ entry ∈ lossyGrades, (entry.1, .union entry.2) ∈ gradeSchema.types.entries ∧
        entry.2.rawValueType = some .float ∧ entry.2.fallbackVariant = none ∧
        ∃ files file decls, generate gradeSchema .swift "" = .ok files ∧ file ∈ files ∧
          file.fileName = entry.1 ++ ".swift" ∧ parse file.content = .ok decls ∧
          ∀ options, ¬ ComesBack options [decls] entry.1 entry.2 := by
  have hverify : verify gradeSchema = .ok () := by decide +kernel
  have hgrades : ∀ entry ∈ lossyGrades, (entry.1, .union entry.2) ∈ gradeSchema.types.entries ∧
      entry.2.rawValueType = some .float ∧ entry.2.fallbackVariant = none ∧
      ¬ TagsLast entry.2 := by
    decide +kernel
  have hlead : (Namer.ofSchema "" gradeSchema).lead = "" := rfl
  obtain ⟨files, hfiles⟩ := render_succeeds hverify ""
  refine ⟨hverify, fun entry hgrade => ?_⟩
  obtain ⟨hentry, hraw, hnone, hlost⟩ := hgrades entry hgrade
  have haccepted : EntryAccepted (entry.1, .union entry.2) := verify_eq_ok_iff.mp hverify _ hentry
  obtain ⟨file, typeDecl, hfile, hfileName, hparse, hctx⟩ :=
    exists_numberedDecl hlead haccepted hraw
  refine ⟨hentry, hraw, hnone, files, file, _, generate_of_render hverify hfiles,
    mem_renderTypes hfiles hentry hfile, hfileName, hparse, fun options hback => hlost ?_⟩
  have husual : ∀ fallback ∈ entry.2.fallbackVariant, fallback = options.fallbackCase := by
    rw [hnone]
    nofun
  exact (comesBack_alone_iff hctx hraw husual haccepted.definition).mp hback

end Extraction

end WireSchema
