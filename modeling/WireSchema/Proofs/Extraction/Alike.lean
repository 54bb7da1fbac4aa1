import WireSchema.Proofs.Extraction.Outline
import WireSchema.Proofs.Extraction.Places

/-!
# Types that answer alike

Lowering asks a type with its extensions for its header, its properties and cases, its
direction and conformances, its coding keys, and for a few functions. Where the answers are
the same, places aside, so are the definition and the warnings.
-/

namespace WireSchema

namespace Swift

def TypeHeader.unplaced (header : TypeHeader) : TypeHeader :=
  { header with position := .start }

variable {f g : FunctionDecl}

theorem body_unplaced_of_outline (h : f.outline = g.outline) :
    f.body.map Token.unplaced = g.body.map Token.unplaced := by
  rw [← placed_map_face, ← placed_map_face]
  exact congrArg placed (congrArg FunctionOutline.body h)

/-- What the outline of a function determines is the same for functions of one outline. -/
theorem map_eq_of_outline {α : Type} {f? g? : Option FunctionDecl} {shown : FunctionDecl → α}
    (h : f?.map FunctionDecl.outline = g?.map FunctionDecl.outline)
    (hshown : ∀ f g, f.outline = g.outline → shown f = shown g) :
    f?.map shown = g?.map shown := by
  cases f? with
  | none => cases g? <;> first | rfl | cases h
  | some f =>
    cases g? with
    | none => cases h
    | some g => exact congrArg some (hshown f g (Option.some.inj h))

end Swift

namespace Extraction

open Swift

theorem decodeEvidence_of_outline (f g : FunctionDecl) (h : f.outline = g.outline) :
    decodeEvidence f.body = decodeEvidence g.body := by
  rw [← decodeEvidence_unplaced, body_unplaced_of_outline h, decodeEvidence_unplaced]

theorem encodeEvidence_of_outline (f g : FunctionDecl) (h : f.outline = g.outline) :
    encodeEvidence f.body = encodeEvidence g.body := by
  rw [← encodeEvidence_unplaced, body_unplaced_of_outline h, encodeEvidence_unplaced]

theorem assignedCase?_of_outline (f g : FunctionDecl) (h : f.outline = g.outline) :
    assignedCase? f.body = assignedCase? g.body := by
  rw [← assignedCase?_unplaced, body_unplaced_of_outline h, assignedCase?_unplaced]

/-- Cases are numbered wherever they stand. -/
theorem numberCases_unplaced (implicit : Option Int) (cases_ : List EnumCase) :
    numberCases implicit (cases_.map EnumCase.unplaced) =
      (numberCases implicit cases_ >>= fun numbered =>
        pure (numbered.map fun entry => (entry.1.unplaced, entry.2))) := by
  induction cases_ generalizing implicit with
  | nil => rfl
  | cons case_ later ih =>
    have hnumber : rawNumber? implicit case_.unplaced = rawNumber? implicit case_ := rfl
    have hvalues : case_.unplaced.associated = case_.associated := rfl
    rw [List.map_cons, numberCases, numberCases, hvalues, hnumber]
    cases case_.associated.isEmpty with
    | false => rfl
    | true =>
      cases rawNumber? implicit case_ with
      | none => rfl
      | some raw =>
        simp only [Bool.not_true, Bool.false_eq_true, if_false, ih]
        rcases numberCases (nextNumber? raw) later with ⟨log, reason | numbered⟩
        · rfl
        · simp [Logged.bind_eq, Logged.andThen, pure, Logged.ok]

theorem lowerNumberedEnum_eq (ctx : TypeContext) (fallbackCase : String) :
    lowerNumberedEnum fallbackCase ctx = (do
      let numbered ← numberCases (some 0) ((casesOf ctx.decl.members).map EnumCase.unplaced)
      return .union
        { direction := ctx.direction, doc := joinDocs ctx.decl.docs, discriminator := none
          unknownHandling := sentinelHandling ctx fallbackCase
          variants := .ofList (numbered.map fun entry =>
            (entry.1.name, numberedVariant ctx fallbackCase entry.1 entry.2)) }) := by
  rw [lowerNumberedEnum, numberCases_unplaced]
  rcases numberCases (some 0) (casesOf ctx.decl.members) with ⟨log, reason | numbered⟩
  · rfl
  · have hvariants : (numbered.map fun entry => (entry.1.unplaced, entry.2)).map (fun entry =>
        (entry.1.name, numberedVariant ctx fallbackCase entry.1 entry.2)) =
        numbered.map fun entry =>
          (entry.1.name, numberedVariant ctx fallbackCase entry.1 entry.2) := by
      rw [List.map_map]
      rfl
    simp only [Logged.bind_eq, Logged.andThen, pure, Logged.ok, List.append_nil, hvariants]

namespace TypeContext

/-- The functions that extraction looks for, by their names and first labels. -/
def codingFunctions : List (String × String) :=
  [("init", "from"), ("encode", "to"), ("init", "stringLiteral"), ("init", "arrayLiteral")]

/-- Two contexts that give the same answers, places aside, to all that is asked of them but the
coding keys. -/
structure Alike (ctx ctx' : TypeContext) : Prop where
  header : ctx.decl.toTypeHeader.unplaced = ctx'.decl.toTypeHeader.unplaced
  properties : (propertiesOf ctx.decl.members).map PropertyDecl.unplaced =
    (propertiesOf ctx'.decl.members).map PropertyDecl.unplaced
  cases : (casesOf ctx.decl.members).map EnumCase.unplaced =
    (casesOf ctx'.decl.members).map EnumCase.unplaced
  direction : ctx.direction = ctx'.direction
  conformsTo : ∀ protocol, ctx.conformsTo protocol = ctx'.conformsTo protocol
  function? : ∀ sought ∈ codingFunctions,
    (ctx.function? sought.1 sought.2).map FunctionDecl.outline =
      (ctx'.function? sought.1 sought.2).map FunctionDecl.outline

/-- The definition of the type depends on its coding keys. -/
def ReadsKeys (ctx : TypeContext) : Prop :=
  ctx.decl.kind = .enum → ctx.rawType? = none

namespace Alike

variable {ctx ctx' : TypeContext} (h : Alike ctx ctx')

include h

theorem name : ctx.decl.name = ctx'.decl.name :=
  (congrArg TypeHeader.name h.header :)

theorem docs : ctx.decl.docs = ctx'.decl.docs :=
  (congrArg TypeHeader.docs h.header :)

theorem kind : ctx.decl.kind = ctx'.decl.kind :=
  (congrArg TypeHeader.kind h.header :)

theorem isGeneric : ctx.decl.isGeneric = ctx'.decl.isGeneric :=
  (congrArg TypeHeader.isGeneric h.header :)

theorem rawType? : ctx.rawType? = ctx'.rawType? :=
  (congrArg (fun header : TypeHeader => header.inherited.head?.bind rawTypeOf?) h.header :)

theorem decoder? : ctx.decoder?.map FunctionDecl.outline = ctx'.decoder?.map FunctionDecl.outline :=
  h.function? ("init", "from") (by decide)

theorem encoder? : ctx.encoder?.map FunctionDecl.outline = ctx'.encoder?.map FunctionDecl.outline :=
  h.function? ("encode", "to") (by decide)

theorem isSome_decoder? : ctx.decoder?.isSome = ctx'.decoder?.isSome := by
  simpa using congrArg Option.isSome h.decoder?

theorem literalCase? {literal : LiteralProtocol} (hliteral : literal ∈ literalProtocols) :
    Extraction.literalCase? ctx literal = Extraction.literalCase? ctx' literal := by
  have hsought : ("init", literal.label) ∈ codingFunctions := by
    simp only [literalProtocols, List.mem_cons, List.not_mem_nil, or_false] at hliteral
    rcases hliteral with rfl | rfl <;> decide
  have hassigned := map_eq_of_outline (h.function? _ hsought) assignedCase?_of_outline
  simpa [Extraction.literalCase?, Option.bind_map] using congrArg (Option.bind · id) hassigned

theorem isSentinel (fallbackCase : String) (case_ : EnumCase) :
    Extraction.isSentinel ctx fallbackCase case_ =
      Extraction.isSentinel ctx' fallbackCase case_ := by
  rw [Extraction.isSentinel, Extraction.isSentinel, h.isSome_decoder?]

theorem sentinelHandling (fallbackCase : String) :
    Extraction.sentinelHandling ctx fallbackCase =
      Extraction.sentinelHandling ctx' fallbackCase := by
  have hany : ∀ context : TypeContext,
      (casesOf context.decl.members).any (Extraction.isSentinel context fallbackCase) =
        ((casesOf context.decl.members).map EnumCase.unplaced).any
          (Extraction.isSentinel context fallbackCase) := by
    intro context
    rw [List.any_map]
    rfl
  rw [Extraction.sentinelHandling, Extraction.sentinelHandling, hany, hany, h.cases,
    funext (h.isSentinel fallbackCase)]

theorem lowerStruct (hkeys : ctx.codingKeys? = ctx'.codingKeys?) :
    Extraction.lowerStruct ctx = Extraction.lowerStruct ctx' := by
  have hfields := Logged.collect_eq_of_map_eq (f := lowerProperty ctx'.decl.name ctx'.codingKeys?)
    (g := lowerProperty ctx'.decl.name ctx'.codingKeys?) h.properties fun _ _ _ _ hsame =>
      (congrArg (lowerProperty ctx'.decl.name ctx'.codingKeys?) hsame :)
  rw [Extraction.lowerStruct, Extraction.lowerStruct, h.name, hkeys, h.docs, h.direction, hfields]

theorem lowerStringEnum (fallbackCase : String) :
    Extraction.lowerStringEnum fallbackCase ctx = Extraction.lowerStringEnum fallbackCase ctx' := by
  have hcase : lowerStringCase ctx fallbackCase = lowerStringCase ctx' fallbackCase := by
    funext case_
    rw [lowerStringCase, lowerStringCase, h.isSentinel]
  have hvalues := Logged.collect_eq_of_map_eq (f := lowerStringCase ctx' fallbackCase)
    (g := lowerStringCase ctx' fallbackCase) h.cases fun _ _ _ _ hsame =>
      (congrArg (lowerStringCase ctx' fallbackCase) hsame :)
  rw [Extraction.lowerStringEnum, Extraction.lowerStringEnum, hcase, hvalues, h.docs, h.direction,
    h.sentinelHandling]

theorem lowerNumberedEnum (fallbackCase : String) :
    Extraction.lowerNumberedEnum fallbackCase ctx =
      Extraction.lowerNumberedEnum fallbackCase ctx' := by
  have hvariant : numberedVariant ctx fallbackCase = numberedVariant ctx' fallbackCase := by
    funext case_ raw
    rw [numberedVariant, numberedVariant, h.isSentinel]
  rw [lowerNumberedEnum_eq, lowerNumberedEnum_eq, h.cases, hvariant, h.docs, h.direction,
    h.sentinelHandling]

theorem markLiterals (variants : NameMap VariantDef) {literals : List LiteralProtocol}
    (hliterals : ∀ literal ∈ literals, literal ∈ literalProtocols) :
    Extraction.markLiterals ctx variants literals =
      Extraction.markLiterals ctx' variants literals := by
  induction literals generalizing variants with
  | nil => rfl
  | cons literal later ih =>
    obtain ⟨hliteral, hlater⟩ := List.forall_mem_cons.mp hliterals
    have hmark : markLiteral ctx variants literal = markLiteral ctx' variants literal := by
      rw [markLiteral, markLiteral, h.conformsTo, h.literalCase? hliteral, h.name]
    rw [Extraction.markLiterals, Extraction.markLiterals, hmark]
    exact congrArg (_ >>= ·) (funext fun marked => ih marked hlater)

theorem unionShape (keys : NameMap String) (handling : Option UnknownHandling)
    (variants : NameMap VariantDef) :
    Extraction.unionShape (evidenceOf ctx keys handling variants) =
      Extraction.unionShape (evidenceOf ctx' keys handling variants) := by
  have hdecode := map_eq_of_outline h.decoder? decodeEvidence_of_outline
  have hencode := map_eq_of_outline h.encoder? encodeEvidence_of_outline
  simp only [Extraction.unionShape, evidenceOf, Option.map_map, Function.comp_def, hdecode, hencode]

theorem lowerUnion (hkeys : ctx.codingKeys? = ctx'.codingKeys?) (fallbackCase : String) :
    Extraction.lowerUnion fallbackCase ctx = Extraction.lowerUnion fallbackCase ctx' := by
  have hentries (keys : NameMap String) := Logged.collect_eq_of_map_eq (f := lowerVariant keys)
    (g := lowerVariant keys) h.cases fun _ _ _ _ hsame => (congrArg (lowerVariant keys) hsame :)
  have hfallback : unionFallback fallbackCase ctx = unionFallback fallbackCase ctx' := by
    funext variants
    rw [unionFallback, unionFallback, h.isSome_decoder?]
  have hmark := fun variants => h.markLiterals variants fun _ hliteral => hliteral
  unfold Extraction.lowerUnion
  simp only [hkeys, hentries, h.name, h.docs, h.direction, hfallback, h.unionShape, hmark]

theorem lowerType (hkeys : ctx.ReadsKeys → ctx.codingKeys? = ctx'.codingKeys?)
    (fallbackCase : String) :
    Extraction.lowerType fallbackCase ctx = Extraction.lowerType fallbackCase ctx' := by
  rw [Extraction.lowerType, Extraction.lowerType, ← h.isGeneric, ← h.kind]
  cases hkind : ctx.decl.kind with
  | struct | classType =>
    have hread : ctx.ReadsKeys := fun henum => nomatch hkind.symm.trans henum
    simp only [h.lowerStruct (hkeys hread)]
  | enum =>
    have henum : lowerEnum fallbackCase ctx = lowerEnum fallbackCase ctx' := by
      rw [lowerEnum, lowerEnum, ← h.rawType?, h.lowerNumberedEnum, h.lowerStringEnum]
      cases hraw : ctx.rawType? with
      | none => exact h.lowerUnion (hkeys fun _ => hraw) fallbackCase
      | some raw => cases raw <;> rfl
    simp only [henum]
  | actor | protocol => rfl

end Alike

/-- Types and extensions of the same outlines answer alike. -/
theorem alike_of_outline {decl decl' : TypeDecl} {extensions extensions' : List ExtensionDecl}
    (h : (Decl.type decl).outline = (Decl.type decl').outline)
    (hextensions : extensions.map (fun extension_ => (Decl.extension extension_).outline) =
      extensions'.map fun extension_ => (Decl.extension extension_).outline) :
    Alike ⟨decl, extensions⟩ ⟨decl', extensions'⟩ := by
  obtain ⟨hheader, hbody⟩ := DeclOutline.type.inj h
  have hinherited : extensions.map (fun extension_ => extension_.inherited) =
      extensions'.map fun extension_ => extension_.inherited := by
    have hparts := congrArg (List.map DeclOutline.inherited) hextensions
    rw [List.map_map, List.map_map] at hparts
    exact hparts
  have hfunctions : extensions.map (fun extension_ =>
        (functionsOf extension_.members).map FunctionDecl.outline) =
      extensions'.map fun extension_ =>
        (functionsOf extension_.members).map FunctionDecl.outline := by
    have hparts := congrArg (List.map DeclOutline.functions) hextensions
    rw [List.map_map, List.map_map] at hparts
    exact hparts
  have hown : decl.inherited = decl'.inherited := (congrArg TypeHeader.inherited hheader :)
  have hconformances : conformances ⟨decl, extensions⟩ = conformances ⟨decl', extensions'⟩ := by
    rw [conformances, conformances, hown, List.flatMap_def, List.flatMap_def, hinherited]
  have hall : (functions ⟨decl, extensions⟩).map FunctionDecl.outline =
      (functions ⟨decl', extensions'⟩).map FunctionDecl.outline := by
    have hbodies : (functionsOf decl.members).map FunctionDecl.outline =
        (functionsOf decl'.members).map FunctionDecl.outline := congrArg Outline.functions hbody
    rw [functions, functions, List.map_append, List.map_append, hbodies, List.map_flatMap,
      List.map_flatMap, List.flatMap_def, List.flatMap_def, hfunctions]
  exact
    { header := hheader
      properties := congrArg Outline.properties hbody
      cases := congrArg Outline.cases hbody
      direction := by rw [direction, direction, hconformances]
      conformsTo := fun protocol => by rw [conformsTo, conformsTo, hconformances]
      function? := fun sought _ => by
        rw [function?_map_outline, function?_map_outline, hall] }

end TypeContext

/-! ## Places of declarations -/

section Places

variable {decls decls' : List Decl}

theorem extensionsOf_map_outline (h : decls.map Decl.outline = decls'.map Decl.outline) :
    (extensionsOf decls).map (fun extension_ => (Decl.extension extension_).outline) =
      (extensionsOf decls').map fun extension_ => (Decl.extension extension_).outline := by
  have hextensions : ∀ decls : List Decl,
      (extensionsOf decls).map (fun extension_ => (Decl.extension extension_).outline) =
        (decls.map Decl.outline).filter DeclOutline.isExtension := by
    intro decls
    induction decls with
    | nil => rfl
    | cons decl later ih =>
      cases decl with
      | type | typealias => exact ih
      | extension decl => exact congrArg ((Decl.extension decl).outline :: ·) ih
  rw [hextensions, hextensions, h]

theorem extensionsNamed_map_outline {extensions extensions' : List ExtensionDecl}
    (h : extensions.map (fun extension_ => (Decl.extension extension_).outline) =
      extensions'.map fun extension_ => (Decl.extension extension_).outline) (name : String) :
    (extensionsNamed extensions name).map (fun extension_ => (Decl.extension extension_).outline) =
      (extensionsNamed extensions' name).map fun extension_ =>
        (Decl.extension extension_).outline := by
  have hnamed : ∀ extensions : List ExtensionDecl,
      (extensionsNamed extensions name).map
          (fun extension_ => (Decl.extension extension_).outline) =
        (extensions.map fun extension_ => (Decl.extension extension_).outline).filter
          (DeclOutline.isExtensionOf name) := by
    intro extensions
    rw [extensionsNamed, List.filter_map]
    rfl
  rw [hnamed, hnamed, h]

theorem extractDecl_eq_of_outline (options : Options)
    {extensions extensions' : List ExtensionDecl} {decl decl' : Decl}
    (h : decl.outline = decl'.outline)
    (hextensions : extensions.map (fun extension_ => (Decl.extension extension_).outline) =
      extensions'.map fun extension_ => (Decl.extension extension_).outline) :
    extractDecl options extensions decl = extractDecl options extensions' decl' := by
  have hlower : lowerDecl options.fallbackCase extensions decl =
      lowerDecl options.fallbackCase extensions' decl' := by
    cases decl <;> cases decl' <;> try cases h
    case type.type type type' =>
      have hname : type.name = type'.name :=
        (congrArg TypeHeader.name (DeclOutline.type.inj h).1 :)
      have halike := TypeContext.alike_of_outline h
        (extensionsNamed_map_outline hextensions type.name)
      have hkeys : TypeContext.codingKeys? ⟨type, extensionsNamed extensions type.name⟩ =
          TypeContext.codingKeys? ⟨type', extensionsNamed extensions' type.name⟩ := by
        rw [TypeContext.codingKeys?_eq, TypeContext.codingKeys?_eq]
        exact congrArg codingKeysOf (DeclOutline.type.inj h).2
      rw [lowerDecl, lowerDecl, ← hname, halike.lowerType fun _ => hkeys]
    case extension.extension => rfl
    case typealias.typealias alias_ alias' =>
      have hsame := DeclOutline.typealias.inj h
      have hname : alias_.name = alias'.name := (congrArg AliasDecl.name hsame :)
      have hgeneric : alias_.isGeneric = alias'.isGeneric :=
        (congrArg AliasDecl.isGeneric hsame :)
      have halias : lowerAlias alias_ = lowerAlias alias' := (congrArg lowerAlias hsame :)
      rw [lowerDecl, lowerDecl, hname, hgeneric, halias]
  rw [extractDecl, extractDecl, hlower]

/-- Sources that declare the same at other places, or spread over other files, have the same
definitions and warnings. -/
theorem declarations_eq_of_outlines (options : Options) {sources sources' : List (List Decl)}
    (h : sources.flatten.map Decl.outline = sources'.flatten.map Decl.outline) :
    declarations options sources = declarations options sources' :=
  Logged.collect_eq_of_map_eq h fun _ _ _ _ hsame =>
    extractDecl_eq_of_outline options hsame (extensionsOf_map_outline h)

/-- They have one schema. -/
theorem extract_eq_of_outlines (options : Options) {sources sources' : List (List Decl)}
    (h : sources.flatten.map Decl.outline = sources'.flatten.map Decl.outline) :
    extract options sources = extract options sources' := by
  rw [extract, extract, declarations_eq_of_outlines options h]

end Places

end Extraction

end WireSchema
