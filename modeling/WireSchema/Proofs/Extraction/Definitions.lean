import WireSchema.Proofs.Extraction.Outline
import WireSchema.Proofs.Generation.Plain
import WireSchema.Proofs.Generation.Sources
import WireSchema.Proofs.Swift.TypeMeaning

/-!
# Plain definitions read back

A declaration with the header and the outline of a generated struct, string enum or
alias is lowered to a definition that agrees with the one it was generated from, and
nothing is warned of.
-/

namespace WireSchema

open Swift

/-! ## Fields -/

def FieldDef.extracted (field : FieldDef) : FieldDef :=
  { FieldDef.ofType field.codeType.text with wireName := field.wireName, doc := field.doc }

theorem FieldDef.agrees_extracted {field : FieldDef} (h : MeansItself field.type) :
    field.extracted.agrees field = true := by
  have htrim := TypeExpr.trimEnd_text (wellFormed_codeType h.denotesType)
  have hself : field.extracted.canonicalType = field.codeType.text := by
    have hrequired : (field.extracted.required || endsOptional field.extracted.type) = true :=
      Bool.not_or_self _
    rw [canonicalType, if_pos hrequired]
    exact htrim
  have htype : field.canonicalType = field.codeType.text :=
    canonicalType_of_isCanonicalText h.canonical (parse_eq_denoted h.denotesType)
  have hwire : field.extracted.wireName = field.wireName := rfl
  have hdoc : field.extracted.doc = field.doc := rfl
  simp [agrees, hself, htype, hwire, hdoc]

namespace Extraction

open Generation

/-! ## Headers -/

/-- The header of a type with the given conformances, without its place. -/
def HasHeader (ctx : TypeContext) (header : TypeHeader) : Prop :=
  { ctx.decl.toTypeHeader with position := .start } = header

theorem direction_of_conformances (rawTypes : List Primitive) {ctx : TypeContext}
    {direction : Direction}
    (hext : ∀ extension_ ∈ ctx.extensions, ∀ inherited ∈ extension_.inherited,
      TypeContext.directionOf? (localName inherited) = none)
    (hinherited : ctx.decl.inherited =
      (rawTypes.map TypeExpr.primitive ++ conformances direction).map typeText) :
    ctx.direction = direction := by
  have hraw : ∀ p, TypeContext.directionOf? (localName (primitiveText p)) = none := by
    intro p
    cases p <;> decide
  have hnone : (rawTypes.map fun p => localName (primitiveText p)).filterMap
      TypeContext.directionOf? = [] := by
    rw [List.filterMap_map]
    exact List.filterMap_eq_nil_iff.mpr fun p _ => hraw p
  have hshown : ctx.conformances.filterMap TypeContext.directionOf? =
      [Direction.both, .encode, .decode].filter fun shown => shown == direction := by
    have hextended : ((ctx.extensions.flatMap fun extension_ => extension_.inherited).map
        localName).filterMap TypeContext.directionOf? = [] := by
      rw [List.filterMap_map]
      refine List.filterMap_eq_nil_iff.mpr fun inherited hmem => ?_
      obtain ⟨extension_, hextension, hinherits⟩ := List.mem_flatMap.mp hmem
      exact hext extension_ hextension inherited hinherits
    rw [TypeContext.conformances, hinherited]
    simp only [List.map_append, List.map_map, List.filterMap_append] at hextended ⊢
    rw [hextended, List.append_nil]
    have hfront : (rawTypes.map (localName ∘ typeText ∘ TypeExpr.primitive)).filterMap
        TypeContext.directionOf? = [] := hnone
    rw [hfront]
    cases direction <;> decide
  rw [TypeContext.direction, hshown]
  cases direction <;> rfl

/-! ## Coding keys -/

theorem codingKeyWire_rawText (name value : String) :
    codingKeyWire (enumCase [] name [] (rawText name value)) = value := by
  unfold rawText
  split
  · next hsame => exact hsame
  · rfl

theorem map_codingKeyWire_stringCases (keys : List (String × String)) :
    (stringCases keys).map (fun case_ => (case_.name, codingKeyWire case_)) = keys := by
  rw [stringCases, List.map_map]
  refine (List.map_congr_left fun key _ => ?_).trans (List.map_id keys)
  exact congrArg (Prod.mk key.1) (codingKeyWire_rawText key.1 key.2)

theorem codingKeysOf_stringCases {o : Outline} {keys : List (String × String)}
    (ho : o.types = [("CodingKeys", stringCases keys)]) :
    codingKeysOf o = some (.ofList keys) := by
  have hfind : [("CodingKeys", stringCases keys)].find? (fun nested =>
      nested.1 == "CodingKeys") = some ("CodingKeys", stringCases keys) := rfl
  rw [codingKeysOf, ho, hfind, Option.map_some, map_codingKeyWire_stringCases]

/-- Only a key that differs from the name of a field is kept. -/
theorem remappedKey?_of_get? {keys : NameMap String} {name : String} {field : FieldDef}
    (hwire : field.wireName ≠ some name)
    (hget : keys.get? name = some (field.effectiveWireName name)) :
    remappedKey? keys name = field.wireName := by
  rw [remappedKey?, hget]
  cases hwireName : field.wireName with
  | none => simp [FieldDef.effectiveWireName, hwireName]
  | some wire =>
    rw [hwireName] at hwire
    have hne : wire ≠ name := fun heq => hwire (congrArg some heq)
    simp [FieldDef.effectiveWireName, hwireName, hne]

/-! ## Structs -/

/-- The keys of a type tell the wire key of a field. -/
structure KeysTell (keys? : Option (NameMap String)) (name : String) (field : FieldDef) : Prop where
  known : (keys?.any fun keys => !keys.contains name) = false
  wireName : (keys?.bind fun keys => remappedKey? keys name) = field.wireName

theorem lowerProperty_constant (typeName : String) {keys? : Option (NameMap String)}
    {name : String} {field : FieldDef} (h : field.IsPlain name)
    (hkeys : KeysTell keys? name field) :
    lowerProperty typeName keys?
        (propertyDecl (docTexts field.doc) true false name field.codeType) =
      pure (some (name, field.extracted)) := by
  have htype := readType_typeText (FieldDef.isPlain_codeType h.type.meansItself)
  have hdoc := joinDocs_docTexts h.doc
  have hstored : isStored (propertyDecl (docTexts field.doc) true false name field.codeType) =
      true := rfl
  have hname : (propertyDecl (docTexts field.doc) true false name field.codeType).name = name :=
    rfl
  have htypeText : (propertyDecl (docTexts field.doc) true false name field.codeType).type =
      some (typeText field.codeType) := rfl
  unfold lowerProperty
  rw [hstored, hname, hkeys.known, hkeys.wireName, if_neg (by simp), htypeText]
  dsimp only
  rw [htype]
  show pure (some (name, { FieldDef.ofType field.codeType.text with
    wireName := field.wireName, doc := joinDocs (docTexts field.doc) })) = _
  rw [hdoc]
  rfl

variable {namer : Namer} {d : StructDef}

def formsOf (namer : Namer) (d : StructDef) : List FieldForm :=
  d.fields.entries.map namer.fieldForm

theorem isPlain_of_mem_formsOf (hlead : namer.lead = "") (h : d.IsPlain)
    (haccepted : Verification.FieldsAccepted d.fields.entries) :
    ∀ form ∈ formsOf namer d, form.IsPlain := by
  intro form hform
  obtain ⟨entry, hentry, rfl⟩ := List.mem_map.mp hform
  have htype := (h.fields entry hentry).type
  refine ⟨haccepted.identifiers entry hentry, ?_⟩
  rw [Namer.fieldForm_of_lead hlead htype.denotesType]
  exact FieldDef.standsAlone_codeType htype

theorem structKeys_formsOf :
    structKeys (formsOf namer d) =
      (d.fields.mapValues fun name field => field.effectiveWireName name).entries := by
  rw [structKeys, formsOf, List.map_map]
  rfl

theorem keysTell_of_mem (h : d.IsPlain) {entry : String × FieldDef}
    (hentry : entry ∈ d.fields.entries) :
    KeysTell (codingKeysOf (structOutline (formsOf namer d))) entry.1 entry.2 := by
  have hwire := (h.fields entry hentry).wireName
  cases hkeys : hasKeys (formsOf namer d) with
  | false =>
    have hnone : codingKeysOf (structOutline (formsOf namer d)) = none := by
      have htypes : (structOutline (formsOf namer d)).types = [] := by
        rw [structOutline, hkeys]
        rfl
      rw [codingKeysOf, htypes]
      rfl
    rw [hnone]
    refine ⟨rfl, ?_⟩
    have hform := List.any_eq_false.mp hkeys (namer.fieldForm entry)
      (List.mem_map_of_mem hentry)
    cases hwireName : entry.2.wireName with
    | none => rfl
    | some wire =>
      have hsame : wire = entry.1 := by
        simpa [Namer.fieldForm, FieldDef.effectiveWireName, hwireName] using hform
      rw [hwireName, hsame] at hwire
      exact absurd rfl hwire
  | true =>
    have htypes : (structOutline (formsOf namer d)).types =
        [("CodingKeys", stringCases (structKeys (formsOf namer d)))] := by
      rw [structOutline, hkeys]
      rfl
    have hmap : NameMap.ofList (structKeys (formsOf namer d)) =
        d.fields.mapValues fun name field => field.effectiveWireName name := by
      apply NameMap.ext
      rw [structKeys_formsOf]
      exact NameMap.entries_ofList (NameMap.ascending _)
    have hmem : (entry.1, entry.2.effectiveWireName entry.1) ∈
        (d.fields.mapValues fun name field => field.effectiveWireName name).entries := by
      rw [NameMap.entries_mapValues]
      exact List.mem_map_of_mem hentry
    rw [codingKeysOf_stringCases htypes, hmap]
    refine ⟨by simpa using NameMap.contains_eq_true hmem, ?_⟩
    exact remappedKey?_of_get? hwire (NameMap.get?_eq_some hmem)

def structExtracted (d : StructDef) : StructDef :=
  { d with fields := d.fields.mapValues fun _ => FieldDef.extracted }

theorem agrees_structExtracted (h : d.IsPlain) : (structExtracted d).agrees d = true := by
  have hfields : fieldsAgree (d.fields.mapValues fun _ => FieldDef.extracted) d.fields = true :=
    entriesAgree_mapValues (fun _ => FieldDef.extracted) fun entry hentry =>
      FieldDef.agrees_extracted (h.fields entry hentry).type.meansItself
  simp [structExtracted, StructDef.agrees, hfields]

theorem lowerStruct_generated (hlead : namer.lead = "") (h : d.IsPlain) {ctx : TypeContext}
    {name : String} (hext : ctx.extensions = [])
    (hheader : HasHeader ctx
      (typeHeader (docTexts d.doc) .struct name (conformances d.direction)))
    (houtline : outline ctx.decl.members = structOutline (formsOf namer d)) :
    lowerStruct ctx = pure (.struct (structExtracted d)) := by
  have hdocs : ctx.decl.docs = docTexts d.doc := congrArg TypeHeader.docs hheader
  have hinherited : ctx.decl.inherited = (conformances d.direction).map typeText :=
    congrArg TypeHeader.inherited hheader
  have hdirection : ctx.direction = d.direction :=
    direction_of_conformances [] (by simp [hext]) hinherited
  have hproperties : (structOutline (formsOf namer d)).properties =
      d.fields.entries.map fun entry =>
        propertyDecl (docTexts entry.2.doc) true false entry.1 entry.2.codeType := by
    rw [structOutline, formsOf, List.map_map]
    refine List.map_congr_left fun entry hentry => ?_
    have hform := Namer.fieldForm_of_lead hlead (h.fields entry hentry).type.denotesType
    rw [Function.comp_apply, hform]
  have hfields : Logged.collect (lowerProperty ctx.decl.name
      (codingKeysOf (structOutline (formsOf namer d)))) (structOutline (formsOf namer d)).properties =
        pure (d.fields.mapValues fun _ => FieldDef.extracted).entries := by
    rw [hproperties, Logged.collect_map, Logged.collect_eq_pure fun entry hentry =>
      lowerProperty_constant ctx.decl.name (h.fields entry hentry) (keysTell_of_mem h hentry)]
    rw [NameMap.entries_mapValues, List.filterMap_eq_map']
  have hmap : NameMap.ofList (d.fields.mapValues fun _ => FieldDef.extracted).entries =
      d.fields.mapValues fun _ => FieldDef.extracted :=
    NameMap.ext (NameMap.entries_ofList (NameMap.ascending _))
  rw [lowerStruct_eq houtline, hfields, Logged.pure_bind, hmap, hdirection, hdocs,
    joinDocs_docTexts h.doc]
  rfl

/-! ## String enums -/

section StringEnum

variable {usualFallback : String} {e : StringEnumDef} {ctx : TypeContext}

theorem functions_outline (hext : ctx.extensions = []) :
    ctx.functions.map FunctionDecl.outline = (outline ctx.decl.members).functions := by
  rw [TypeContext.functions, hext, List.flatMap_nil, List.append_nil]
  rfl

/-- Exactly the enums with a fallback have a decoder. -/
theorem isSome_decoder?_stringEnum (h : e.IsPlain usualFallback) (hext : ctx.extensions = [])
    (houtline : outline ctx.decl.members = stringEnumOutline e) :
    ctx.decoder?.isSome = e.fallbackCase.isSome := by
  rw [TypeContext.isSome_decoder?, functions_outline hext, houtline, stringEnumOutline]
  cases hfallback : e.fallbackCase with
  | none => rfl
  | some fallback =>
    have hdecodes := h.decodes (by rw [hfallback]; rfl)
    simp only [Option.toList_some, List.flatMap_singleton, hdecodes]
    rfl

theorem lowerStringCase_rawText (ctx : TypeContext) (fallbackCase name value : String) :
    lowerStringCase ctx fallbackCase (enumCase [] name [] (rawText name value)) =
      pure (if name == fallbackCase && ctx.decoder?.isSome then none else some (name, value)) := by
  have hsentinel : isSentinel ctx fallbackCase (enumCase [] name [] (rawText name value)) =
      (name == fallbackCase && ctx.decoder?.isSome) := rfl
  have hvalues : (enumCase [] name [] (rawText name value)).associated = [] := rfl
  rw [lowerStringCase, hsentinel, hvalues]
  cases name == fallbackCase && ctx.decoder?.isSome with
  | true => rfl
  | false =>
    by_cases hsame : name = value
    · subst hsame
      rw [rawText, if_pos rfl]
      rfl
    · rw [rawText, if_neg hsame]
      rfl

/-- The values are what is left of the cases without the fallback. -/
theorem filterMap_stringEntries (h : e.IsPlain usualFallback) :
    (stringEntries e).filterMap (fun entry =>
      if entry.1 == usualFallback && e.fallbackCase.isSome then none else some entry) =
        e.values.entries := by
  have hkept : e.values.entries.filterMap (fun entry =>
      if entry.1 == usualFallback && e.fallbackCase.isSome then none else some entry) =
        e.values.entries := by
    refine (List.filterMap_congr fun entry hentry => if_neg fun hsentinel => ?_).trans
      List.filterMap_some
    obtain ⟨hname, hsome⟩ := (Bool.and_eq_true _ _).mp hsentinel
    obtain ⟨fallback, hfallback⟩ := Option.isSome_iff_exists.mp hsome
    have hadded := h.added fallback hfallback
    rw [h.usual fallback hfallback, ← beq_iff_eq.mp hname, NameMap.contains_eq_true hentry] at hadded
    cases hadded
  rw [stringEntries, List.filterMap_append, hkept]
  cases hfallback : e.fallbackCase with
  | none => simp
  | some fallback =>
    simp [h.usual fallback hfallback]

theorem any_isSentinel_stringCases (h : e.IsPlain usualFallback) (hext : ctx.extensions = [])
    (houtline : outline ctx.decl.members = stringEnumOutline e) :
    (stringCases (stringEntries e)).any (isSentinel ctx usualFallback) =
      e.fallbackCase.isSome := by
  have hdecoder := isSome_decoder?_stringEnum h hext houtline
  cases hfallback : e.fallbackCase with
  | none =>
    rw [hfallback] at hdecoder
    refine List.any_eq_false.mpr fun case_ _ => ?_
    simp [isSentinel, hdecoder]
  | some fallback =>
    rw [hfallback] at hdecoder
    have hknown := h.added fallback hfallback
    have hmem : (fallback, fallback) ∈ stringEntries e := by
      refine List.mem_append_right _ (List.mem_map.mpr ⟨fallback, ?_, rfl⟩)
      simp [hfallback, hknown]
    refine List.any_eq_true.mpr ⟨enumCase [] fallback [] (rawText fallback fallback),
      List.mem_map_of_mem hmem, ?_⟩
    rw [isSentinel, hdecoder]
    simp [enumCase, h.usual fallback hfallback]

def stringEnumExtracted (e : StringEnumDef) : StringEnumDef :=
  { e with unknownHandling := e.fallbackCase.map .fallback }

theorem agrees_stringEnumExtracted : (stringEnumExtracted e).agrees e = true := by
  have hfallback : (stringEnumExtracted e).fallbackCase = e.fallbackCase := by
    rw [stringEnumExtracted, StringEnumDef.fallbackCase, fallbackOf]
    cases e.fallbackCase <;> rfl
  simp [StringEnumDef.agrees, hfallback]
  simp [stringEnumExtracted]

theorem lowerStringEnum_generated (h : e.IsPlain usualFallback) {name : String}
    (hext : ctx.extensions = [])
    (hheader : HasHeader ctx (typeHeader (docTexts e.doc) .enum name
      (.primitive .string :: conformances e.direction)))
    (houtline : outline ctx.decl.members = stringEnumOutline e) :
    lowerEnum usualFallback ctx = pure (.stringEnum (stringEnumExtracted e)) := by
  have hdocs : ctx.decl.docs = docTexts e.doc := congrArg TypeHeader.docs hheader
  have hinherited : ctx.decl.inherited =
      (.primitive .string :: conformances e.direction).map typeText :=
    congrArg TypeHeader.inherited hheader
  have hdirection : ctx.direction = e.direction :=
    direction_of_conformances [.string] (by simp [hext]) hinherited
  have hread : readType (typeText (.primitive .string)) = .ok (.primitive .string) :=
    readType_typeText trivial
  have hraw : ctx.rawType? = some .text := by
    rw [TypeContext.rawType?, hinherited, List.map_cons, List.head?_cons, Option.bind_some,
      TypeContext.rawTypeOf?, hread]
  have hvalues : Logged.collect (lowerStringCase ctx usualFallback)
      (stringCases (stringEntries e)) = pure e.values.entries := by
    rw [stringCases, Logged.collect_map, Logged.collect_eq_pure fun entry _ =>
      lowerStringCase_rawText ctx usualFallback entry.1 entry.2,
      isSome_decoder?_stringEnum h hext houtline, filterMap_stringEntries h]
  have hmap : NameMap.ofList e.values.entries = e.values :=
    NameMap.ext (NameMap.entries_ofList e.values.ascending)
  have hcases : (stringEnumOutline e).cases = stringCases (stringEntries e) := rfl
  have hhandling : (if e.fallbackCase.isSome = true then
      some (UnknownHandling.fallback usualFallback) else none) = e.fallbackCase.map .fallback := by
    cases hfallback : e.fallbackCase with
    | none => rfl
    | some fallback => simp [h.usual fallback hfallback]
  rw [lowerEnum, hraw]
  dsimp only
  rw [lowerStringEnum_eq houtline, hcases, hvalues, Logged.pure_bind, hmap,
    any_isSentinel_stringCases h hext houtline, hhandling, hdirection, hdocs,
    joinDocs_docTexts h.doc]
  rfl

end StringEnum

/-! ## Aliases -/

/-- An alias is marked by its attribute, and nothing else in it marks it. -/
theorem deprecated_of_attributes {d : AliasDef} (h : d.IsPlain) {alias_ : AliasDecl}
    {target : TypeExpr}
    (hattributes : alias_.attributes = (deprecationOf d target).toList.map fun arguments =>
      ⟨"available", arguments.map Prod.snd⟩) :
    (hasDeprecation alias_ || d.doc.any fun doc => deprecationMarkers.any fun marker =>
      Text.containsLower marker doc) = d.deprecated := by
  cases hdeprecated : d.deprecated with
  | true =>
    have hshown : hasDeprecation alias_ = true := by
      rw [hasDeprecation, hattributes, deprecationOf, if_pos hdeprecated]
      rfl
    rw [hshown, Bool.true_or]
  | false =>
    have hshown : hasDeprecation alias_ = false := by
      rw [hasDeprecation, hattributes, deprecationOf, if_neg (by simp [hdeprecated])]
      rfl
    rw [hshown, Bool.false_or]
    cases hdoc : d.doc with
    | none => rfl
    | some doc =>
      refine List.any_eq_false.mpr fun marker hmarker => ?_
      simp [h.unmarked hdeprecated doc hdoc marker hmarker]

theorem lowerAlias_generated {d : AliasDef} (h : d.IsPlain) {alias_ : AliasDecl} {name : String}
    (hdecl : { alias_ with position := .start } =
      aliasDecl (docTexts d.doc) (deprecationOf d (denoted d.target)) name (denoted d.target)) :
    lowerAlias alias_ = pure (.typeAlias d) := by
  have htarget : alias_.target = typeText (denoted d.target) := congrArg AliasDecl.target hdecl
  have hdocs : alias_.docs = docTexts d.doc := congrArg AliasDecl.docs hdecl
  have hattributes : alias_.attributes =
      (deprecationOf d (denoted d.target)).toList.map fun arguments =>
        ⟨"available", arguments.map Prod.snd⟩ := congrArg AliasDecl.attributes hdecl
  have hread := readType_typeText h.target.meansItself.isPlain_denoted
  rw [lowerAlias, htarget, hread, hdocs, joinDocs_docTexts h.doc]
  dsimp only
  rw [deprecated_of_attributes h hattributes, h.target.meansItself.text_denoted]

end Extraction

end WireSchema
