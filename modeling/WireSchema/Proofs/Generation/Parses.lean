import WireSchema.Proofs.Generation.FirstWords
import WireSchema.Proofs.Generation.NumberEnum
import WireSchema.Proofs.Generation.Plain
import WireSchema.Proofs.Generation.UnionSource
import WireSchema.Proofs.NameMap

/-!
# Generated sources parse

The file for a type parses as the declaration of that type and an extension for each
variant that may be written as a literal, if only all types have names that Swift can
read. The grammar of types lets more through: a name may also end in a point, have two
in a row, or have a digit after one.
-/

namespace WireSchema

open Swift (IsDotted)

/-! ## Names of types -/

/-- Every name in the text of a type is made of identifiers with points between them. -/
def NamesDotted (type : String) : Prop :=
  ∀ name ∈ (denoted type).customNames, IsDotted name.toList

instance (type : String) : Decidable (NamesDotted type) :=
  inferInstanceAs (Decidable (∀ name ∈ (denoted type).customNames, IsDotted name.toList))

def VariantPayload.typeTexts : VariantPayload → List String
  | .unit => []
  | .wrapped type => [type]
  | .inline fields => fields.entries.map fun entry => entry.2.type

def TypeDef.typeTexts : TypeDef → List String
  | .struct d => d.fields.entries.map fun entry => entry.2.type
  | .stringEnum _ => []
  | .union d => d.variants.entries.flatMap fun entry => entry.2.payload.typeTexts
  | .typeAlias d => [d.target]

/-- Can Swift read the names of all types in the definition? -/
def TypeDef.IsNameable (definition : TypeDef) : Prop :=
  ∀ type ∈ definition.typeTexts, NamesDotted type

instance (definition : TypeDef) : Decidable definition.IsNameable :=
  inferInstanceAs (Decidable (∀ type ∈ definition.typeTexts, NamesDotted type))

namespace Generation

open Swift Verification
open Outcome (bind_eq_ok_iff)
open Text (isIdentifier)

variable {namer : Namer} {name : String}

theorem isWritable_denoted {type : String} (htype : DenotesType type) (h : NamesDotted type) :
    IsWritable (denoted type) :=
  isWritable_of_customNames (wellFormed_denoted htype) h

theorem isWritable_codeType {field : FieldDef} (htype : DenotesType field.type)
    (h : NamesDotted field.type) : IsWritable field.codeType := by
  refine isWritable_of_customNames (FieldDef.wellFormed_codeType htype) ?_
  rw [FieldDef.customNames_codeType]
  exact h

/-! ## Fields -/

theorem isWritable_fieldForm (hlead : namer.lead = "") {entry : String × FieldDef}
    (hname : isIdentifier entry.1 = true) (htype : DenotesType entry.2.type)
    (h : NamesDotted entry.2.type) : (namer.fieldForm entry).IsWritable := by
  refine ⟨hname, ?_⟩
  rw [Namer.fieldForm_of_lead hlead htype]
  exact isWritable_codeType htype h

theorem isWritable_fieldForms (hlead : namer.lead = "") {fields : NameMap FieldDef}
    (haccepted : FieldsAccepted fields.entries)
    (h : ∀ type ∈ fields.entries.map fun entry => entry.2.type, NamesDotted type) :
    ∀ form ∈ fields.entries.map namer.fieldForm, form.IsWritable := by
  intro form hform
  obtain ⟨entry, hentry, rfl⟩ := List.mem_map.mp hform
  exact isWritable_fieldForm hlead (haccepted.identifiers entry hentry)
    (haccepted.typed entry hentry) (h _ (List.mem_map.mpr ⟨entry, hentry, rfl⟩))

/-! ## Unions -/

theorem isWritable_payloadForm (hlead : namer.lead = "") {d : UnionDef} {payload : VariantPayload}
    (haccepted : PayloadAccepted d payload) (h : ∀ type ∈ payload.typeTexts, NamesDotted type) :
    (namer.payloadForm payload).IsWritable := by
  cases payload with
  | unit => trivial
  | wrapped type =>
    show IsWritable ((denoted type).rename namer.reference)
    rw [TypeExpr.rename_eq_self (Namer.reference_of_lead hlead) (wellFormed_denoted haccepted)]
    exact isWritable_denoted haccepted (h type List.mem_cons_self)
  | inline fields =>
    obtain ⟨-, -, hfields, -⟩ := haccepted
    rw [Namer.payloadForm]
    split
    · trivial
    · next hne =>
      refine ⟨?_, isWritable_fieldForms hlead hfields h⟩
      simpa [NameMap.isEmpty] using hne

theorem isIdentifier_fallback {d : UnionDef} (haccepted : UnionAccepted d) :
    ∀ fallback ∈ d.fallbackVariant, isIdentifier fallback = true := by
  intro fallback hfallback
  obtain ⟨variant, hvariant, -⟩ := haccepted.fallback fallback hfallback
  exact haccepted.variants.identifiers _ (mem_of_get? hvariant)

theorem isWritableUnion_unionForms (hlead : namer.lead = "") {d : UnionDef}
    (hname : isIdentifier name = true) (haccepted : UnionAccepted d)
    (h : (TypeDef.union d).IsNameable) : IsWritableUnion name d (namer.unionForms d) where
  name := hname
  fallback := isIdentifier_fallback haccepted
  variants := by
    intro form hform
    obtain ⟨entry, hordered, rfl⟩ := List.mem_map.mp hform
    have hentry := mem_of_mem_orderedVariants hordered
    refine ⟨haccepted.variants.identifiers entry hentry, ?_⟩
    refine isWritable_payloadForm hlead (haccepted.variants.payloads entry hentry) ?_
    exact fun type htype => h type (List.mem_flatMap.mpr ⟨entry, hentry, htype⟩)

/-! ## What a file declares -/

/-- Is it the declaration of a type of this name and of the kind of its definition? -/
def isDeclarationOf (name : String) : TypeDef → Decl → Bool
  | .struct _, .type decl => decl.kind == .struct && decl.name == name
  | .stringEnum _, .type decl => decl.kind == .enum && decl.name == name
  | .union _, .type decl => decl.kind == .enum && decl.name == name
  | .typeAlias _, .typealias decl => decl.name == name
  | _, _ => false

/-- Is it the extension by which a type of this name may be written as literals of a kind? -/
def isLiteralExtension (name : String) (kind : LiteralSugar) : Decl → Bool
  | .extension decl => decl.name == name && decl.inherited == [literalProtocol kind]
  | _ => false

def literalsOf : TypeDef → List LiteralSugar
  | .union d => (orderedVariants d).filterMap fun entry => entry.2.literal
  | _ => []

/-- The source is the declaration of the type, then an extension for each literal. -/
def DeclaresOnly (name : String) (definition : TypeDef) (source : String) : Prop :=
  ∃ decl extensions, parse source = .ok (decl :: extensions) ∧
    isDeclarationOf name definition decl = true ∧
    List.Forall₂ (fun kind extension => isLiteralExtension name kind extension = true)
      (literalsOf definition) extensions

theorem isDeclarationOf_of_outline {definition : TypeDef} {kind : DeclKind} {docs : List String}
    {inherited : List TypeExpr} {o : Outline} {decl : Decl}
    (h : decl.outline = .type (typeHeader docs kind name inherited) o)
    (hkind : ∀ typeDecl : TypeDecl, typeDecl.kind = kind → typeDecl.name = name →
      isDeclarationOf name definition (.type typeDecl) = true) :
    isDeclarationOf name definition decl = true := by
  cases decl with
  | type typeDecl =>
    have hheader := (DeclOutline.type.inj h).1
    exact hkind typeDecl (congrArg TypeHeader.kind hheader) (congrArg TypeHeader.name hheader)
  | extension => cases h
  | typealias => cases h

/-- A file whose lines are read as one declaration without literals. -/
theorem declaresOnly_of_outline {definition : TypeDef} (hliterals : literalsOf definition = [])
    {source : String} {o : DeclOutline}
    (hparse : ∃ decls, decls.map Decl.outline = [o] ∧ parse source = .ok decls)
    (hdecl : ∀ decl, Decl.outline decl = o → isDeclarationOf name definition decl = true) :
    DeclaresOnly name definition source := by
  obtain ⟨decls, houtlines, hparse⟩ := hparse
  obtain ⟨decl, later, rfl, houtline, hlater⟩ := List.map_eq_cons_iff.mp houtlines
  cases List.map_eq_nil_iff.mp hlater
  refine ⟨decl, [], hparse, hdecl decl houtline, ?_⟩
  rw [hliterals]
  exact .nil

/-! ## One file -/

def FileDeclares (namer : Namer) (name : String) (definition : TypeDef) : Prop :=
  ∃ file, renderType namer name definition = .ok file ∧ file.fileName = name ++ ".swift" ∧
    DeclaresOnly name definition file.content

theorem fileDeclares_struct (hlead : namer.lead = "") {d : StructDef}
    (haccepted : EntryAccepted (name, .struct d)) (h : (TypeDef.struct d).IsNameable) :
    FileDeclares namer name (.struct d) := by
  have htypeName := Namer.typeName_of_lead hlead name
  have hname : isIdentifier (namer.typeName name) = true := by
    rw [htypeName]
    exact haccepted.identifier
  have hfields : FieldsAccepted d.fields.entries := haccepted.definition
  have hforms := isWritable_fieldForms hlead hfields h
  obtain ⟨lines, hlines, hne, hspells⟩ := spellsLines_structLines hname
    (Namer.resolveFields_eq_ok namer hfields.typed) hforms
  refine ⟨_, renderType_of_lines hlines, by rw [htypeName], ?_⟩
  rw [htypeName] at hspells
  obtain ⟨decls, ⟨o, houtlines⟩, hparse⟩ := parse_content_of_readDecls hne hspells
    (fun tokens => readDecls_structFaces name d hforms) (endsType_head?_typeDeclFaces _ _ _ _ _)
  refine declaresOnly_of_outline rfl ⟨decls, houtlines, hparse⟩ fun decl houtline => ?_
  refine isDeclarationOf_of_outline houtline fun typeDecl hkind hdecl => ?_
  rw [isDeclarationOf, hkind, hdecl]
  simp

theorem fileDeclares_stringEnum (hlead : namer.lead = "") {d : StringEnumDef}
    (haccepted : EntryAccepted (name, .stringEnum d)) :
    FileDeclares namer name (.stringEnum d) := by
  have htypeName := Namer.typeName_of_lead hlead name
  have hname : isIdentifier (namer.typeName name) = true := by
    rw [htypeName]
    exact haccepted.identifier
  have hvalues : StringEnumAccepted d := haccepted.definition
  refine ⟨_, renderType_of_lines rfl, by rw [htypeName], ?_⟩
  refine declaresOnly_of_outline rfl
    (parse_stringEnum hname hvalues.values.identifiers hvalues.fallback) ?_
  intro decl houtline
  rw [htypeName] at houtline
  refine isDeclarationOf_of_outline houtline fun typeDecl hkind hdecl => ?_
  rw [isDeclarationOf, hkind, hdecl]
  simp

theorem fileDeclares_typeAlias (hlead : namer.lead = "") {d : AliasDef}
    (haccepted : EntryAccepted (name, .typeAlias d)) (h : (TypeDef.typeAlias d).IsNameable) :
    FileDeclares namer name (.typeAlias d) := by
  have htypeName := Namer.typeName_of_lead hlead name
  have hname : isIdentifier (namer.typeName name) = true := by
    rw [htypeName]
    exact haccepted.identifier
  have htyped : DenotesType d.target := AliasAccepted.typed haccepted.definition
  have hresolve : namer.resolve d.target = .ok (denoted d.target) := by
    rw [Namer.resolve_of_parse namer (parse_eq_denoted htyped),
      TypeExpr.rename_eq_self (Namer.reference_of_lead hlead) (wellFormed_denoted htyped)]
  have htarget := isWritable_denoted htyped (h d.target List.mem_cons_self)
  obtain ⟨lines, hlines, hne, hspells⟩ := spellsLines_aliasLines hname hresolve htarget
  refine ⟨_, renderType_of_lines hlines, by rw [htypeName], ?_⟩
  refine declaresOnly_of_outline rfl (parse_content hne hspells
    (readsWhole_aliasFaces _ d htarget) (endsType_head?_aliasFaces _ _ _ _)) ?_
  intro decl houtline
  rw [htypeName] at houtline
  cases decl with
  | type => cases houtline
  | extension => cases houtline
  | typealias aliasDecl' =>
    have hdecl := congrArg AliasDecl.name (DeclOutline.typealias.inj houtline)
    exact beq_iff_eq.mpr hdecl

/-! ### Unions -/

theorem isUnit_of_rawValueType {d : UnionDef} (haccepted : UnionAccepted d) {raw : RawKind}
    (hraw : d.rawValueType = some raw) {entry : String × VariantDef}
    (hentry : entry ∈ d.variants.entries) : entry.2.isUnit = true := by
  by_cases hfallback : d.isFallback entry.1 = true
  · have hname : d.fallbackVariant = some entry.1 := beq_iff_eq.mp hfallback
    obtain ⟨variant, hvariant, hunit⟩ := haccepted.fallback entry.1 hname
    rw [NameMap.get?_eq_some hentry] at hvariant
    rwa [Option.some.inj hvariant]
  · have hnumbered : entry ∈ numberedVariants d :=
      List.mem_filter.mpr ⟨hentry, by simpa using hfallback⟩
    exact isUnit_of_rawKindOf? (isSome_rawKindOf?_of_rawValueType hraw hnumbered)

theorem exists_wrapped_of_fitsLiteral {payload : VariantPayload} {kind : LiteralSugar}
    (h : fitsLiteral payload kind = true) : ∃ type, payload = .wrapped type := by
  cases payload with
  | wrapped type => exact ⟨type, rfl⟩
  | unit => cases kind <;> cases h
  | inline => cases kind <;> cases h

/-- A variant of a numbered enum has no payload, so nothing that a literal could stand for. -/
theorem literalsOf_numberedEnum {d : UnionDef} (haccepted : UnionAccepted d) {raw : RawKind}
    (hraw : d.rawValueType = some raw) : literalsOf (.union d) = [] := by
  refine List.filterMap_eq_nil_iff.mpr fun entry hordered => ?_
  have hentry := mem_of_mem_orderedVariants hordered
  have hunit : entry.2.payload = .unit :=
    beq_iff_eq.mp (isUnit_of_rawValueType haccepted hraw hentry)
  cases hliteral : entry.2.literal with
  | none => rfl
  | some kind =>
    have hfits := haccepted.variants.literals entry hentry kind hliteral
    obtain ⟨type, hwrapped⟩ := exists_wrapped_of_fitsLiteral hfits
    rw [hunit] at hwrapped
    cases hwrapped

theorem literalOutlines_of_literal {d : UnionDef} {entry : String × VariantDef}
    {kind : LiteralSugar} (hliteral : entry.2.literal = some kind)
    (hfits : fitsLiteral entry.2.payload kind = true) :
    ∃ o, (namer.variantForm d entry).literalOutlines name =
      [.extension ⟨name, .start, [literalProtocol kind]⟩ o] := by
  obtain ⟨type, hpayload⟩ := exists_wrapped_of_fitsLiteral hfits
  rw [VariantForm.literalOutlines, Namer.variantForm, hliteral, hpayload]
  exact ⟨_, rfl⟩

theorem isLiteralExtension_of_outline {kind : LiteralSugar} {o : Outline} {decl : Decl}
    (h : decl.outline = .extension ⟨name, .start, [literalProtocol kind]⟩ o) :
    isLiteralExtension name kind decl = true := by
  cases decl with
  | type => cases h
  | typealias => cases h
  | «extension» extensionDecl =>
    have hheader := (DeclOutline.extension.inj h).1
    have hname := congrArg ExtensionHeader.name hheader
    have hinherited := congrArg ExtensionHeader.inherited hheader
    rw [isLiteralExtension, Bool.and_eq_true, beq_iff_eq, beq_iff_eq]
    exact ⟨hname, hinherited⟩

/-- The extensions of a union are those for its literals. -/
theorem forall₂_isLiteralExtension {d : UnionDef} {variants : List (String × VariantDef)}
    (hfits : ∀ entry ∈ variants, ∀ kind ∈ entry.2.literal, fitsLiteral entry.2.payload kind = true)
    {decls : List Decl}
    (h : decls.map Decl.outline =
      (variants.map (namer.variantForm d)).flatMap (VariantForm.literalOutlines name)) :
    List.Forall₂ (fun kind extension => isLiteralExtension name kind extension = true)
      (variants.filterMap fun entry => entry.2.literal) decls := by
  induction variants generalizing decls with
  | nil =>
    cases List.map_eq_nil_iff.mp h
    exact .nil
  | cons entry later ih =>
    have hlater := fun decls => @ih
      (fun other hother => hfits other (List.mem_cons_of_mem _ hother)) decls
    rw [List.map_cons, List.flatMap_cons] at h
    cases hliteral : entry.2.literal with
    | none =>
      have hnone : (namer.variantForm d entry).literalOutlines name = [] := by
        rw [VariantForm.literalOutlines, Namer.variantForm, hliteral]
      rw [hnone, List.nil_append] at h
      simp only [List.filterMap_cons, hliteral]
      exact hlater decls h
    | some kind =>
      obtain ⟨o, hsome⟩ := @literalOutlines_of_literal namer name d entry kind hliteral
        (hfits entry List.mem_cons_self kind hliteral)
      rw [hsome, List.singleton_append] at h
      obtain ⟨decl, decls, rfl, houtline, hrest⟩ := List.map_eq_cons_iff.mp h
      simp only [List.filterMap_cons, hliteral]
      exact .cons (isLiteralExtension_of_outline houtline) (hlater decls hrest)

theorem declaresOnly_union {d : UnionDef} {decls : List Decl} {source : String}
    (hparse : parse source = .ok decls)
    (hfits : ∀ entry ∈ orderedVariants d, ∀ kind ∈ entry.2.literal,
      fitsLiteral entry.2.payload kind = true)
    (houtlines : decls.map Decl.outline = unionOutlines name d (namer.unionForms d)) :
    DeclaresOnly name (.union d) source := by
  obtain ⟨decl, extensions, rfl, houtline, hextensions⟩ := List.map_eq_cons_iff.mp houtlines
  refine ⟨decl, extensions, hparse, isDeclarationOf_of_outline houtline ?_,
    forall₂_isLiteralExtension hfits hextensions⟩
  intro typeDecl hkind hdecl
  rw [isDeclarationOf, hkind, hdecl]
  simp

/-- The file for a union of numbers holds the declaration that is outlined for it. -/
theorem exists_file_numberedEnum (hlead : namer.lead = "") {d : UnionDef} {raw : RawKind}
    (haccepted : EntryAccepted (name, .union d)) (hraw : d.rawValueType = some raw) :
    ∃ file decl, renderType namer name (.union d) = .ok file ∧ file.fileName = name ++ ".swift" ∧
      Swift.parse file.content = .ok [decl] ∧
      decl.outline = .type (typeHeader (docTexts d.doc) .enum name
        (.primitive (rawPrimitive raw) :: conformances d.direction)) (numberedOutline d raw) := by
  have htypeName := Namer.typeName_of_lead hlead name
  have hname : isIdentifier (namer.typeName name) = true := by
    rw [htypeName]
    exact haccepted.identifier
  have hunion : UnionAccepted d := haccepted.definition
  have hlines : definitionLines namer name (.union d) = .ok (numberedEnumLines namer name d raw) := by
    rw [definitionLines, unionLines, hraw]
  have hne : numberedEnumLines namer name d raw ≠ [] := by simp [numberedEnumLines]
  obtain ⟨body, hspells, hreads⟩ :=
    readsSource_numberedEnum hname hunion hraw (isIdentifier_fallback hunion)
  obtain ⟨decls, houtlines, hparse⟩ :=
    parse_content hne hspells hreads.whole (endsType_head?_typeDeclFaces _ _ _ _ _)
  obtain ⟨decl, rfl, houtline⟩ := List.map_eq_singleton_iff.mp houtlines
  rw [htypeName] at houtline
  exact ⟨_, decl, renderType_of_lines hlines, by rw [htypeName], hparse, houtline⟩

theorem fileDeclares_numberedEnum (hlead : namer.lead = "") {d : UnionDef} {raw : RawKind}
    (haccepted : EntryAccepted (name, .union d)) (hraw : d.rawValueType = some raw) :
    FileDeclares namer name (.union d) := by
  obtain ⟨file, decl, hfile, hfileName, hparse, houtline⟩ :=
    exists_file_numberedEnum hlead haccepted hraw
  refine ⟨file, hfile, hfileName, ?_⟩
  refine declaresOnly_of_outline (literalsOf_numberedEnum haccepted.definition hraw)
    ⟨[decl], by rw [List.map_singleton, houtline], hparse⟩ ?_
  intro decl houtline
  refine isDeclarationOf_of_outline houtline fun typeDecl hkind hdecl => ?_
  rw [isDeclarationOf, hkind, hdecl]
  simp

/-- The file for a union without numbers holds the declarations that are outlined for it. -/
theorem exists_file_union (hlead : namer.lead = "") {d : UnionDef}
    (haccepted : EntryAccepted (name, .union d)) (hraw : d.rawValueType = none)
    (hwritable : IsWritableUnion name d (namer.unionForms d)) :
    ∃ file decls, renderType namer name (.union d) = .ok file ∧
      file.fileName = name ++ ".swift" ∧ parse file.content = .ok decls ∧
      decls.map Decl.outline = unionOutlines name d (namer.unionForms d) := by
  have htypeName := Namer.typeName_of_lead hlead name
  have hlines := unionLines_eq_ok haccepted.definition hraw namer name
  rw [htypeName] at hlines
  have hstart : (unionFaces name d (namer.unionForms d)).head?.all
      (fun face => endsType (face.token .start)) = true := by
    rw [unionFaces, typeDeclFaces, headingFaces, List.append_assoc, List.append_assoc]
    exact endsType_head?_docs _ rfl
  obtain ⟨decls, houtlines, hparse⟩ := parse_content (by simp)
    (spellsLines_unionLines hwritable) (readsSource_unionFaces hwritable).whole hstart
  exact ⟨_, decls, renderType_of_lines hlines, by rw [htypeName], hparse, houtlines⟩

theorem fileDeclares_union (hlead : namer.lead = "") {d : UnionDef}
    (haccepted : EntryAccepted (name, .union d)) (h : (TypeDef.union d).IsNameable) :
    FileDeclares namer name (.union d) := by
  have hunion : UnionAccepted d := haccepted.definition
  cases hraw : d.rawValueType with
  | some raw => exact fileDeclares_numberedEnum hlead haccepted hraw
  | none =>
    obtain ⟨file, decls, hfile, hfileName, hparse, houtlines⟩ := exists_file_union hlead haccepted
      hraw (isWritableUnion_unionForms hlead haccepted.identifier hunion h)
    refine ⟨file, hfile, hfileName, declaresOnly_union hparse (fun entry hordered => ?_) houtlines⟩
    exact hunion.variants.literals entry (mem_of_mem_orderedVariants hordered)

/-! ## All files -/

theorem fileDeclares_of_isNameable (hlead : namer.lead = "") {definition : TypeDef}
    (haccepted : EntryAccepted (name, definition)) (h : definition.IsNameable) :
    FileDeclares namer name definition := by
  cases definition with
  | struct d => exact fileDeclares_struct hlead haccepted h
  | stringEnum d => exact fileDeclares_stringEnum hlead haccepted
  | union d => exact fileDeclares_union hlead haccepted h
  | typeAlias d => exact fileDeclares_typeAlias hlead haccepted h

/-- Is the file named for the type, and is its declaration all that is in it? -/
def IsFileOf (entry : String × TypeDef) (file : GeneratedFile) : Prop :=
  file.fileName = entry.1 ++ ".swift" ∧ DeclaresOnly entry.1 entry.2 file.content

theorem exists_files (hlead : namer.lead = "") {entries : List (String × TypeDef)}
    (haccepted : ∀ entry ∈ entries, EntryAccepted entry)
    (h : ∀ entry ∈ entries, entry.2.IsNameable) :
    ∃ files, renderTypes namer entries = .ok files ∧ List.Forall₂ IsFileOf entries files := by
  induction entries with
  | nil => exact ⟨[], rfl, .nil⟩
  | cons entry later ih =>
    obtain ⟨name, definition⟩ := entry
    obtain ⟨files, hfiles, hlater⟩ :=
      ih (fun next hnext => haccepted next (List.mem_cons_of_mem _ hnext))
        (fun next hnext => h next (List.mem_cons_of_mem _ hnext))
    obtain ⟨file, hfile, hfileName, hdeclares⟩ := fileDeclares_of_isNameable hlead
      (haccepted _ List.mem_cons_self) (h (name, definition) List.mem_cons_self)
    refine ⟨file :: files, ?_, .cons ⟨hfileName, hdeclares⟩ hlater⟩
    rw [renderTypes, hfile, hfiles]
    rfl

/-- Every accepted schema whose types have names that Swift can read is generated as one file
for each type. -/
theorem generate_declares {schema : Schema} (hverify : verify schema = .ok ())
    (hnameable : ∀ entry ∈ schema.types.entries, entry.2.IsNameable) :
    ∃ files, generate schema .swift "" = .ok files ∧
      List.Forall₂ IsFileOf schema.types.entries files := by
  have hlead : (Namer.ofSchema "" schema).lead = "" := rfl
  obtain ⟨files, hfiles, hdeclare⟩ := exists_files hlead (verify_eq_ok_iff.mp hverify) hnameable
  exact ⟨files, generate_of_render hverify hfiles, hdeclare⟩

/-- A schema with a definition of each kind and names that the parser could stumble on. -/
def namedSchema : Schema :=
  { version := schemaVersion
    provider := "shop"
    types := .ofList
      [("Cart", .struct
        { direction := .both, doc := some "What is bought."
          fields := .ofList
            [("all", ⟨"list[Shop.Item]", some "items", true, none⟩),
              ("some", ⟨"some", none, true, none⟩)] }),
        ("Kind", .stringEnum
          { direction := .decode, doc := none, unknownHandling := some (.fallback "other")
            values := .ofList [("case", "case"), ("new", "brand \\ new")] }),
        ("Level", .union
          { direction := .both, doc := none, discriminator := none, unknownHandling := none
            variants := .ofList
              [("high", ⟨some "2", .unit, none, none⟩), ("low", ⟨some "-1", .unit, none, none⟩)] }),
        ("Note", .union
          { direction := .both, doc := none, discriminator := some ⟨"kind", .inline⟩
            unknownHandling := none
            variants := .ofList
              [("default", ⟨none, .inline (.ofList [("in", ⟨"any?", none, false, none⟩)]), none,
                  none⟩),
                ("text", ⟨some "\"plain\"", .wrapped "string", some .string, none⟩)] }),
        ("Old", .typeAlias { target := "map[string, Shop.Cart]?", deprecated := true, doc := none })] }

theorem generate_declares_namedSchema :
    verify namedSchema = .ok () ∧
      (∀ entry ∈ namedSchema.types.entries, entry.2.IsNameable) ∧
      ∃ files, generate namedSchema .swift "" = .ok files ∧
        List.Forall₂ IsFileOf namedSchema.types.entries files := by
  have hverify : verify namedSchema = .ok () := by decide +kernel
  have hnameable : ∀ entry ∈ namedSchema.types.entries, entry.2.IsNameable := by decide +kernel
  exact ⟨hverify, hnameable, generate_declares hverify hnameable⟩

/-! ## Names that are no names -/

/-- A union with a variant whose type ends in a point. -/
def pointedUnion : UnionDef :=
  { direction := .encode, doc := none, discriminator := none, unknownHandling := none
    variants := .ofList [("item", .ofPayload (.wrapped "Item."))] }

def pointedSchema : Schema :=
  { version := schemaVersion, provider := "shop", types := .ofList [("Cart", .union pointedUnion)] }

def pointedLines : List String :=
  ["public enum Cart: Encodable, Sendable \x7b", "    case item(Item.)"] ++
    ["", "    public func encode(to encoder: Encoder) throws \x7b",
      "        var container = encoder.singleValueContainer()", "        switch self \x7b",
      "        case .item(let value):", "            try container.encode(value)", "        \x7d",
      "    \x7d"] ++ ["\x7d"]

theorem definitionLines_pointedUnion :
    definitionLines (.ofSchema "" pointedSchema) "Cart" (.union pointedUnion) = .ok pointedLines := by
  decide +kernel

def pointedCaseFaces : List Face :=
  [.word "item", .symbol "(", .word "Item", .symbol ".", .symbol ")"]

theorem spellsLines_pointedLines :
    ∃ faces, SpellsLines pointedLines (typeDeclFaces [] .enum "Cart" (conformances .encode)
      (.word "case" :: (pointedCaseFaces ++ faces))) := by
  have hheader : SpellsLines ["public enum Cart: Encodable, Sendable \x7b"]
      [.word "public", .word "enum", .word "Cart", .symbol ":", .word "Encodable", .symbol ",",
        .word "Sendable", .symbol "\x7b"] := .constant rfl
  have hcase : SpellsLines ["    case item(Item.)"] (.word "case" :: pointedCaseFaces) :=
    .constant rfl
  have hclose : SpellsLines ["\x7d"] [.symbol "\x7d"] := .constant rfl
  obtain ⟨faces, hfaces⟩ := @SpellsLines.exists_constants
    ["", "    public func encode(to encoder: Encoder) throws \x7b",
      "        var container = encoder.singleValueContainer()", "        switch self \x7b",
      "        case .item(let value):", "            try container.encode(value)", "        \x7d",
      "    \x7d"] (by decide +kernel)
  have hlines := ((hheader.append hcase).append hfaces).append hclose
  refine ⟨faces, ?_⟩
  rw [typeDeclFaces, bodyFaces, commaFaces_conformances]
  simpa [pointedLines, headingFaces, DeclKind.keyword, conformance] using hlines

theorem readTypeText_pointed (nameAt dotAt closeAt : Position) (rest : List Token) :
    ∃ text, readTypeText ((Face.word "Item").token nameAt :: (Face.symbol ".").token dotAt ::
        (Face.symbol ")").token closeAt :: rest) =
      .ok (text, (Face.symbol ".").token dotAt :: (Face.symbol ")").token closeAt :: rest) := by
  have hpath : readTypePath ((Face.symbol ".").token dotAt ::
      (Face.symbol ")").token closeAt :: rest) =
        .ok ([], (Face.symbol ".").token dotAt :: (Face.symbol ")").token closeAt :: rest) := by
    rw [readTypePath_eq]
    rfl
  have hoperand : readTypeOperand ((Face.word "Item").token nameAt ::
      (Face.symbol ".").token dotAt :: (Face.symbol ")").token closeAt :: rest) =
        .ok ([(Face.word "Item").token nameAt], (Face.symbol ".").token dotAt ::
          (Face.symbol ")").token closeAt :: rest) :=
    bind_eq_ok_iff.mpr ⟨_, bind_eq_ok_iff.mpr ⟨_, hpath, rfl⟩, rfl⟩
  have hrun : readTypeRun ((Face.word "Item").token nameAt ::
      (Face.symbol ".").token dotAt :: (Face.symbol ")").token closeAt :: rest) =
        .ok ([(Face.word "Item").token nameAt], (Face.symbol ".").token dotAt ::
          (Face.symbol ")").token closeAt :: rest) := by
    rw [readTypeRun_eq]
    exact bind_eq_ok_iff.mpr ⟨_, hoperand, rfl⟩
  exact ⟨_, bind_eq_ok_iff.mpr ⟨_, hrun, rfl⟩⟩

theorem readCases_pointed (docs : List String) {tokens : List Token}
    (htokens : tokens.map Token.face = pointedCaseFaces) (rest : List Token)
    (found : List EnumCase × List Token) : readCases docs (tokens ++ rest) ≠ .ok found := by
  intro hcases
  obtain ⟨nameAt, tail, rfl, htail⟩ := map_face_eq_cons.mp htokens
  obtain ⟨openAt, inner, rfl, hinner⟩ := map_face_eq_cons.mp htail
  obtain ⟨typeAt, point, rfl, hpoint⟩ := map_face_eq_cons.mp hinner
  obtain ⟨dotAt, close, rfl, hclose⟩ := map_face_eq_cons.mp hpoint
  obtain ⟨closeAt, last, rfl, hlast⟩ := map_face_eq_cons.mp hclose
  cases List.map_eq_nil_iff.mp hlast
  obtain ⟨text, htext⟩ := readTypeText_pointed typeAt dotAt closeAt rest
  have hvalue : readAssociatedValue ((Face.word "Item").token typeAt ::
      (Face.symbol ".").token dotAt :: (Face.symbol ")").token closeAt :: rest) =
        .ok (⟨none, text⟩, (Face.symbol ".").token dotAt ::
          (Face.symbol ")").token closeAt :: rest) :=
    bind_eq_ok_iff.mpr ⟨_, htext, rfl⟩
  have hvalues : readList readAssociatedValue readAssociatedValue_advances
      ((Face.word "Item").token typeAt :: (Face.symbol ".").token dotAt ::
        (Face.symbol ")").token closeAt :: rest) =
          .ok ([⟨none, text⟩], (Face.symbol ".").token dotAt ::
            (Face.symbol ")").token closeAt :: rest) := by
    rw [readList_eq]
    exact bind_eq_ok_iff.mpr ⟨_, hvalue, rfl⟩
  rw [readCases, readList_eq] at hcases
  obtain ⟨_, hcase, -⟩ := bind_eq_ok_iff.mp hcases
  obtain ⟨_, hname, hcase⟩ := bind_eq_ok_iff.mp hcase
  cases hname
  obtain ⟨payload, hpayload, -⟩ := bind_eq_ok_iff.mp hcase
  have hpayload : (readList readAssociatedValue readAssociatedValue_advances _ >>= _) =
    .ok payload := hpayload
  obtain ⟨_, hlist, hword⟩ := bind_eq_ok_iff.mp hpayload
  cases hvalues.symm.trans hlist
  obtain ⟨_, hword, -⟩ := bind_eq_ok_iff.mp hword
  cases hword

/-- Reading the file for the union fails. -/
theorem readDecls_pointed {faces : List Face} {tokens : List Token}
    (htokens : tokens.map Token.face = typeDeclFaces [] .enum "Cart" (conformances .encode)
      (.word "case" :: (pointedCaseFaces ++ faces))) (decls : List Decl) :
    readDecls tokens ≠ .ok decls := by
  intro hdecls
  obtain ⟨at_, after, hafter, hnext⟩ := nextDecls?_headingFaces [] true htokens (by decide) []
  obtain ⟨nameAt, inner, closeAt, hinner, hheader⟩ :=
    readTypeHeader_bodyFaces [] .enum (by simp [conformances]) standsAlone_of_mem_conformances
      hafter []
  have hheading : inner.map Token.face = headingFaces [] false ++ .word "case" ::
    (pointedCaseFaces ++ faces) := hinner
  obtain ⟨caseAt, rest, hrest, hitem⟩ := nextBodyItem_headingFaces hheading (by decide)
    [(Face.symbol "\x7d").token closeAt]
  obtain ⟨front, back, rfl, hfront, -⟩ := map_face_eq_append.mp hrest
  have hbody : ∀ found, readBody (inner ++ [(Face.symbol "\x7d").token closeAt]) ≠ .ok found := by
    intro found hfound
    rw [readBody_eq, hitem, List.append_assoc] at hfound
    obtain ⟨_, hkeyword, -⟩ := bind_eq_ok_iff.mp hfound
    obtain ⟨cases', hcases, -⟩ := bind_eq_ok_iff.mp hkeyword
    exact readCases_pointed [] hfront _ cases' hcases
  rw [readDecls_eq, ← List.append_nil tokens, hnext] at hdecls
  obtain ⟨_, hitem, -⟩ := bind_eq_ok_iff.mp hdecls
  obtain ⟨_, htype, -⟩ := bind_eq_ok_iff.mp hitem
  obtain ⟨_, hheader', hbody'⟩ := bind_eq_ok_iff.mp htype
  cases hheader.symm.trans hheader'
  obtain ⟨found, hfound, -⟩ := bind_eq_ok_iff.mp hbody'
  exact hbody found hfound

/-- Names that Swift cannot read are accepted, and then the code is no source. -/
theorem generate_unreadable_pointedSchema :
    verify pointedSchema = .ok () ∧
      ∃ file, generate pointedSchema .swift "" = .ok [file] ∧
        ∀ decls, Swift.parse file.content ≠ .ok decls := by
  have hverify : verify pointedSchema = .ok () := by decide +kernel
  obtain ⟨faces, hspells⟩ := spellsLines_pointedLines
  obtain ⟨stream, hfaces, hparse⟩ := exists_parse_content (by simp [pointedLines]) hspells
    (endsType_head?_typeDeclFaces _ _ _ _ _)
  have hfile := renderType_of_lines definitionLines_pointedUnion
  have hfiles : renderTypes (.ofSchema "" pointedSchema) [("Cart", .union pointedUnion)] =
      .ok [⟨(Namer.ofSchema "" pointedSchema).typeName "Cart" ++ ".swift",
        header ++ "\n\nimport Foundation\n\n" ++ joinLines pointedLines⟩] := by
    rw [renderTypes, hfile]
    rfl
  refine ⟨hverify, _, generate_of_render hverify hfiles, fun decls hdecls => ?_⟩
  rw [hparse, parseTokens] at hdecls
  cases hread : readDecls stream.tokens with
  | ok found => exact readDecls_pointed hfaces found hread
  | error failure =>
    rw [hread] at hdecls
    cases hdecls

end Generation

end WireSchema
