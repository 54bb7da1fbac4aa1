import WireSchema.Proofs.Generation.Lines

/-!
# Structs in generated code as declarations

A generated struct is read as one declaration: a constant for each field, the coding
keys if there are any, and the initializer.
-/

namespace WireSchema.Generation

open Swift
open Text (isIdentifier)

structure FieldForm.IsWritable (field : FieldForm) : Prop where
  name : isIdentifier field.name = true
  type : Swift.IsWritable field.type

/-- A field whose name and type can be written and read again. -/
structure FieldForm.IsPlain (field : FieldForm) : Prop where
  name : isIdentifier field.name = true
  type : StandsAlone field.type

theorem FieldForm.IsPlain.isWritable {field : FieldForm} (h : field.IsPlain) : field.IsWritable :=
  ⟨h.name, h.type.writable⟩

namespace FieldForm

variable {field : FieldForm}

/-! ## Fields -/

def constantFaces (field : FieldForm) : List Face :=
  Swift.constantFaces (docTexts field.doc) field.name field.type

def parameterFaces (field : FieldForm) : List Face :=
  .word field.name :: .symbol ":" :: (typeFaces field.type ++
    if field.isOptional then [.symbol "=", .word "nil"] else [])

def assignmentFaces (field : FieldForm) : List Face :=
  [.word "self", .symbol ".", .word field.name, .symbol "=", .word field.name]

theorem spellsLines_fieldLines (h : field.IsWritable) :
    SpellsLines (fieldLines field) field.constantFaces := by
  have hdocs : SpellsLines (docLines "    " field.doc) _ :=
    spellsLines_docLines rfl field.doc
  have hlet : Spells breaksSymbol "    public let " [.word "public", .word "let"] :=
    spells_constant rfl rfl
  have hcolon : Spells breaksSymbol ": " [.symbol ":"] := spells_constant rfl rfl
  have hname := spells_constant_identifier hlet h.name
  have htype := (hname.append hcolon rfl).append (spells_typeText h.type)
    (head?_typeText h.type)
  have hlines := hdocs.append (htype.line rfl)
  simpa [fieldLines, constantFaces, Swift.constantFaces, headingFaces] using hlines

theorem spells_parameter (h : field.IsWritable) :
    Spells endsItem (parameter field) field.parameterFaces := by
  have hends : ∀ c, endsItem c = true → c = ',' ∨ c = '\n' := by
    intro c hc
    simpa [endsItem] using hc
  have hindent : Spells breaksSymbol "        " [] := spells_constant rfl rfl
  have hcolon : Spells breaksSymbol ": " [.symbol ":"] := spells_constant rfl rfl
  have hname := spells_constant_identifier hindent h.name
  have htype := (hname.append hcolon rfl).append (spells_typeText h.type)
    (head?_typeText h.type)
  rw [parameter, parameterFaces]
  cases field.isOptional with
  | false =>
    have hspells : Spells endsItem _ _ := htype.mono fun c hc => by
      rcases hends c hc with rfl | rfl <;> rfl
    simpa using hspells
  | true =>
    have hnil : Spells (fun c => breaksSymbol c && breaksName c) " = nil"
        [.symbol "=", .word "nil"] := spells_constantName rfl
    have hspells : Spells endsItem _ _ := (htype.append hnil rfl).mono fun c hc => by
      rcases hends c hc with rfl | rfl <;> rfl
    simpa using hspells

theorem spellsLines_assignment (h : field.IsWritable) :
    SpellsLines [assignment field] field.assignmentFaces := by
  have hself : Spells breaksSymbol "        self." [.word "self", .symbol "."] :=
    spells_constant rfl rfl
  have hequals : Spells breaksSymbol " = " [.symbol "="] := spells_constant rfl rfl
  have hname := spells_constant_identifier hself h.name
  have hvalue := (hname.append hequals rfl).append (spells_identifier h.name)
    (head?_identifier h.name)
  exact hvalue.line rfl

theorem balanced_parameterFaces (h : field.IsWritable) :
    Balanced "(" ")" field.parameterFaces := by
  have hname : Balanced "(" ")" [.word field.name] := balanced_word h.name (by decide)
  have hcolon : Balanced "(" ")" [.symbol ":"] := balanced_symbol (by decide) (by decide)
  have htype : Balanced "(" ")" (typeFaces field.type) :=
    balanced_typeFaces h.type (by decide)
  have hdefault : Balanced "(" ")"
      (if field.isOptional then [.symbol "=", .word "nil"] else []) := by
    split
    · exact .cons rfl rfl (.cons rfl rfl .nil)
    · exact .nil
  exact hname.append (hcolon.append (htype.append hdefault))

theorem balanced_assignmentFaces (h : field.IsWritable) :
    Balanced "\x7b" "\x7d" field.assignmentFaces := by
  have hname : Balanced "\x7b" "\x7d" [.word field.name] := balanced_word h.name (by decide)
  have hself : Balanced "\x7b" "\x7d" [.word "self", .symbol "."] :=
    .cons rfl rfl (.cons rfl rfl .nil)
  have hequals : Balanced "\x7b" "\x7d" [.symbol "="] := .cons rfl rfl .nil
  exact hself.append (hname.append (hequals.append hname))

end FieldForm

/-! ## Initializers -/

theorem balanced_commaFaces {items : List (List Face)} {opener closer : String}
    (hpair : (opener, closer) ∈ bracketPairs) (h : ∀ item ∈ items, Balanced opener closer item) :
    Balanced opener closer (commaFaces items) := by
  have hbrackets : ∀ pair ∈ bracketPairs,
      (Face.symbol ",").isWord pair.1 = false ∧ (Face.symbol ",").isWord pair.2 = false := by
    decide
  obtain ⟨hopener, hcloser⟩ := hbrackets _ hpair
  fun_induction commaFaces items with
  | case1 => exact .nil
  | case2 item => exact h item List.mem_cons_self
  | case3 item later hlater ih =>
    have hmore := ih fun next hnext => h next (List.mem_cons_of_mem item hnext)
    exact (h item List.mem_cons_self).append (.cons hopener hcloser hmore)

def initializerFaces (fields : List FieldForm) : List Face :=
  initFaces [] (commaFaces (fields.map FieldForm.parameterFaces)) false
    (fields.flatMap FieldForm.assignmentFaces)

theorem spellsLines_initializerLines {fields : List FieldForm}
    (h : ∀ field ∈ fields, field.IsWritable) :
    SpellsLines (initializerLines fields) (initializerFaces fields) := by
  cases fields with
  | nil => exact .constant rfl
  | cons field later =>
    have hempty : SpellsLines [""] [] := .constant rfl
    have hopen : SpellsLines ["    public init("] [.word "public", .word "init", .symbol "("] :=
      .constant rfl
    have hparameters := spellsLines_commaSeparated fun field hfield =>
      FieldForm.spells_parameter (h field hfield)
    have hbody : SpellsLines ["    ) \x7b"] [.symbol ")", .symbol "\x7b"] := .constant rfl
    have hassignments := SpellsLines.map fun field hfield =>
      FieldForm.spellsLines_assignment (h field hfield)
    have hclose : SpellsLines ["    \x7d"] [.symbol "\x7d"] := .constant rfl
    have hlines := ((((hempty.append hopen).append hparameters).append hbody).append
      hassignments).append hclose
    simpa [initializerLines, initializerFaces, initFaces, headingFaces, signatureFaces,
      effectFaces] using hlines

theorem balanced_initializer {fields : List FieldForm} (h : ∀ field ∈ fields, field.IsWritable) :
    Balanced "(" ")" (commaFaces (fields.map FieldForm.parameterFaces)) ∧
      Balanced "\x7b" "\x7d" (fields.flatMap FieldForm.assignmentFaces) := by
  constructor
  · refine balanced_commaFaces (by decide) fun item hitem => ?_
    obtain ⟨field, hfield, rfl⟩ := List.mem_map.mp hitem
    exact FieldForm.balanced_parameterFaces (h field hfield)
  · exact .flatMap fun field hfield => FieldForm.balanced_assignmentFaces (h field hfield)

theorem readsBody_initializerFaces {fields : List FieldForm}
    (h : ∀ field ∈ fields, field.IsWritable) :
    ReadsBody (initializerFaces fields)
      (.ofFunction ⟨"init", firstLabelOf (commaFaces (fields.map FieldForm.parameterFaces)),
        fields.flatMap FieldForm.assignmentFaces⟩) := by
  obtain ⟨hparameters, hbody⟩ := balanced_initializer h
  exact readsBody_init [] false hparameters hbody

/-! ## Structs -/

def conformances (direction : Direction) : List TypeExpr :=
  [.custom (conformance direction), .custom "Sendable"]

def structKeys (fields : List FieldForm) : List (String × String) :=
  fields.map fun field => (field.name, field.wireName)

def hasKeys (fields : List FieldForm) : Bool :=
  fields.any fun field => field.wireName != field.name

def structKeyFaces (fields : List FieldForm) : List Face :=
  if hasKeys fields then codingKeyFaces (structKeys fields) else []

def structBodyFaces (fields : List FieldForm) : List Face :=
  fields.flatMap FieldForm.constantFaces ++ (structKeyFaces fields ++ initializerFaces fields)

def structFaces (name : String) (d : StructDef) (fields : List FieldForm) : List Face :=
  typeDeclFaces (docTexts d.doc) .struct name (conformances d.direction) (structBodyFaces fields)

theorem spells_conformance (direction : Direction) :
    Spells breaksName (conformance direction) [.word (conformance direction)] := by
  refine spells_name ?_
  cases direction <;> decide

theorem head?_conformances (direction : Direction) :
    (conformance direction ++ ", Sendable \x7b").toList.head?.any breaksSymbol = true := by
  cases direction <;> decide

theorem commaFaces_conformances (direction : Direction) :
    commaFaces ((conformances direction).map typeFaces) =
      [.word (conformance direction), .symbol ",", .word "Sendable"] := by
  cases direction <;> decide

/-- What stands between the name of a type and its body. -/
theorem spells_conformances (direction : Direction) :
    Spells breaksSymbol (conformance direction ++ ", Sendable \x7b")
      [.word (conformance direction), .symbol ",", .word "Sendable", .symbol "\x7b"] := by
  have hrest : Spells breaksSymbol ", Sendable \x7b"
      [.symbol ",", .word "Sendable", .symbol "\x7b"] := spells_constant rfl rfl
  exact (spells_conformance direction).append hrest rfl

theorem spellsLines_structLines {namer : Namer} {name : String} {d : StructDef}
    {fields : List FieldForm} (hname : isIdentifier (namer.typeName name) = true)
    (hfields : namer.resolveFields d.fields.entries = .ok fields)
    (h : ∀ field ∈ fields, field.IsWritable) :
    ∃ lines, structLines namer name d = .ok lines ∧ lines ≠ [] ∧
      SpellsLines lines (structFaces (namer.typeName name) d fields) := by
  have hdocs : SpellsLines (docLines "" d.doc) _ := spellsLines_docLines rfl d.doc
  have hstruct : Spells breaksSymbol "public struct " [.word "public", .word "struct"] :=
    spells_constant rfl rfl
  have hcolon : Spells breaksSymbol ": " [.symbol ":"] := spells_constant rfl rfl
  have hnamed := (hstruct.append (spells_name hname) (head?_name hname)).append hcolon rfl
  have hheader := (hnamed.append (spells_conformances d.direction)
    (head?_conformances d.direction)).line rfl
  have hconstants : SpellsLines (fields.flatMap fieldLines)
      (fields.flatMap FieldForm.constantFaces) :=
    .flatMap fun field hfield => FieldForm.spellsLines_fieldLines (h field hfield)
  have hkeys : SpellsLines (structKeyLines fields) (structKeyFaces fields) := by
    unfold structKeyLines structKeyFaces hasKeys
    split
    · refine spellsLines_codingKeyLines fun key hkey => ?_
      obtain ⟨field, hfield, rfl⟩ := List.mem_map.mp hkey
      exact (h field hfield).name
    · exact .nil
  have hclose : SpellsLines ["\x7d"] [.symbol "\x7d"] := .constant rfl
  have hlines := ((((hdocs.append hheader).append hconstants).append hkeys).append
    (spellsLines_initializerLines h)).append hclose
  refine ⟨_, by rw [structLines, hfields]; rfl, by simp, ?_⟩
  rw [structFaces, typeDeclFaces, bodyFaces, commaFaces_conformances]
  simpa [structBodyFaces, headingFaces, DeclKind.keyword, String.append_assoc] using hlines

def structOutline (fields : List FieldForm) : Outline where
  properties := fields.map fun field =>
    propertyDecl (docTexts field.doc) true false field.name field.type
  cases := []
  functions := [⟨"init", firstLabelOf (commaFaces (fields.map FieldForm.parameterFaces)),
    fields.flatMap FieldForm.assignmentFaces⟩]
  types := if hasKeys fields then [("CodingKeys", stringCases (structKeys fields))] else []

theorem standsAlone_of_mem_conformances {direction : Direction} :
    ∀ t ∈ conformances direction, StandsAlone t := by
  have hconformance : IsDotted (conformance direction).toList := by
    cases direction <;> decide
  intro t ht
  simp only [conformances, List.mem_cons, List.not_mem_nil, or_false] at ht
  rcases ht with rfl | rfl
  · refine standsAlone_custom hconformance ?_
    cases direction <;> decide
  · exact standsAlone_custom (by decide) (by decide)

theorem readsBody_structBodyFaces {fields : List FieldForm}
    (h : ∀ field ∈ fields, field.IsPlain) :
    ReadsBody (structBodyFaces fields) (structOutline fields) := by
  have hconstants : ReadsBody (fields.flatMap FieldForm.constantFaces)
      (.flatten (fields.map fun field =>
        .ofProperty (propertyDecl (docTexts field.doc) true false field.name field.type))) :=
    .flatMap
      (fun field hfield => readsBody_constant (docTexts field.doc) (h field hfield).name
        (h field hfield).type)
      (fun field _ => head?_headingFaces_startsItem (.inl rfl) _)
  rw [Outline.flatten_ofProperty] at hconstants
  have hinit := readsBody_initializerFaces fun field hfield => (h field hfield).isWritable
  have hstart : (initializerFaces fields).head?.any startsItem = true := rfl
  unfold structBodyFaces structKeyFaces structOutline
  split
  · have hkeys := (readsBody_codingKeyFaces (structKeys fields)).append hinit (.inr hstart)
    have hbody := hconstants.append hkeys (.inr rfl)
    simpa [Outline.append_eq, Outline.ofType, Outline.ofFunction] using hbody
  · have hbody := hconstants.append hinit (.inr hstart)
    simpa [Outline.append_eq, Outline.ofFunction] using hbody

/-- A generated struct is one declaration. -/
theorem readsSource_structFaces (name : String) (d : StructDef) {fields : List FieldForm}
    (h : ∀ field ∈ fields, field.IsPlain) :
    ReadsSource (structFaces name d fields)
      [.type (typeHeader (docTexts d.doc) .struct name (conformances d.direction))
        (structOutline fields)] :=
  readsSource_type (docTexts d.doc) name (by decide) (by simp [conformances])
    standsAlone_of_mem_conformances (readsBody_structBodyFaces h)

end WireSchema.Generation
