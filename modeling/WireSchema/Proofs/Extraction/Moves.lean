import WireSchema.Proofs.Extraction.FileOrder

/-!
# Members in extensions

A member of a type may stand in the body of the type or in an extension of it. Functions are
looked for in both, so moving one leaves the definition as it is, unless another function
would be found in its place. Coding keys are looked for in the body only: moved into an
extension they are lost, and the definition is that of the type without them.
-/

namespace WireSchema

/-! ## Searches and collections -/

/-- An element that only moves is found as before if no other one matches with it. -/
theorem find?_eq_of_moved {α : Type} {p : α → Bool} {x : α} {front middle back : List α}
    (hone : p x = true → ((front ++ x :: (middle ++ back)).filter p).length ≤ 1) :
    (front ++ x :: (middle ++ back)).find? p = (front ++ (middle ++ x :: back)).find? p := by
  cases hx : p x with
  | false => simp [List.find?_append, hx]
  | true =>
    have hperm : (front ++ x :: (middle ++ back)).Perm (front ++ (middle ++ x :: back)) :=
      List.perm_middle.symm.append_left front
    exact find?_eq_of_perm hperm (hone hx)

theorem Logged.collect_filter {ω ε α β : Type} {f : α → Logged ω ε (Option β)} {p : α → Bool}
    (h : ∀ a, p a = false → f a = pure none) (as : List α) :
    collect f (as.filter p) = collect f as := by
  induction as with
  | nil => rfl
  | cons a later ih =>
    rw [List.filter_cons]
    cases hp : p a with
    | true => rw [if_pos rfl, collect, collect, ih]
    | false =>
      rw [if_neg (by simp), collect, h a hp, ih]
      rcases collect f later with ⟨log, fault | bs⟩
      · rfl
      · simp [bind_eq, andThen, pure, ok]

namespace Extraction

open Swift TypeContext

/-! ## Moves -/

/-- The later declarations are the earlier ones with `member` in an extension of the type: in one
that was there, or in a new one that holds nothing else. -/
inductive ExtensionGains (type : String) (member : Member) : List Decl → List Decl → Prop
  | existing (front back : List Decl) (header : ExtensionHeader) (before after : List Member)
      (h : header.name = type) :
      ExtensionGains type member (front ++ .extension ⟨header, before ++ after⟩ :: back)
        (front ++ .extension ⟨header, before ++ member :: after⟩ :: back)
  | new (front back : List Decl) (position : Position) :
      ExtensionGains type member (front ++ back)
        (front ++ .extension ⟨⟨type, position, []⟩, [member]⟩ :: back)

/-- A member of a type together with the two ways of declaring it: in the body of the type, between
`before` and `after`, or in an extension among the declarations `outside`. -/
structure Move where
  header : TypeHeader
  before : List Member
  member : Member
  after : List Member
  front : List Decl
  back : List Decl
  outside : List Decl
  gains : ExtensionGains header.name member (front ++ .type ⟨header, before ++ after⟩ :: back)
    outside

namespace Move

variable (move : Move)

def whole : TypeDecl := ⟨move.header, move.before ++ move.member :: move.after⟩

def bare : TypeDecl := ⟨move.header, move.before ++ move.after⟩

def inside : List Decl := move.front ++ .type move.whole :: move.back

def dropped : List Decl := move.front ++ .type move.bare :: move.back

def extensions : List ExtensionDecl :=
  extensionsNamed (extensionsOf move.inside) move.header.name

/-- The type has no other function of this name with the same first label. -/
def IsAlone (f : FunctionDecl) : Prop :=
  ∀ label, f.firstLabel = some label →
    ((functions ⟨move.whole, move.extensions⟩).filter (·.isNamed f.name label)).length ≤ 1

/-- No other declaration of a type has the name. -/
def IsOnlyDeclaration : Prop :=
  ∀ type, Decl.type type ∈ move.front ++ move.back → type.name ≠ move.header.name

end Move

/-! ## What an extension gains -/

theorem extensionsOf_append_extension (front back : List Decl) (extension_ : ExtensionDecl) :
    extensionsOf (front ++ .extension extension_ :: back) =
      extensionsOf front ++ extension_ :: extensionsOf back := by
  simp [extensionsOf]

theorem extensionsOf_append_type (front back : List Decl) (type : TypeDecl) :
    extensionsOf (front ++ .type type :: back) = extensionsOf (front ++ back) := by
  simp [extensionsOf]

/-- Does the declaration declare something, rather than extend it? -/
def isDeclaration : Decl → Bool
  | .extension _ => false
  | _ => true

namespace ExtensionGains

variable {type : String} {member : Member} {decls decls' : List Decl}
  (h : ExtensionGains type member decls decls')

include h

theorem filter_isDeclaration : decls'.filter isDeclaration = decls.filter isDeclaration := by
  cases h <;> simp [isDeclaration]

theorem extensionsNamed_of_ne {name : String} (hname : name ≠ type) :
    extensionsNamed (extensionsOf decls') name = extensionsNamed (extensionsOf decls) name := by
  cases h with
  | existing front back header before after htype =>
    have hother : (header.name == name) = false := by simpa [htype] using hname.symm
    simp [extensionsOf_append_extension, extensionsNamed, hother]
  | new front back position =>
    have hother : (type == name) = false := by simpa using hname.symm
    simp [extensionsNamed, hother, extensionsOf]

theorem inherited :
    (extensionsNamed (extensionsOf decls') type).flatMap (fun extension_ => extension_.inherited) =
      (extensionsNamed (extensionsOf decls) type).flatMap fun extension_ =>
        extension_.inherited := by
  cases h with
  | existing front back header before after htype =>
    simp [extensionsOf_append_extension, extensionsNamed, htype]
  | new front back position => simp [extensionsNamed, extensionsOf]

theorem members :
    ∃ before after,
      (extensionsNamed (extensionsOf decls) type).flatMap (fun extension_ => extension_.members) =
        before ++ after ∧
      (extensionsNamed (extensionsOf decls') type).flatMap (fun extension_ => extension_.members) =
        before ++ member :: after := by
  cases h with
  | existing front back header before after htype =>
    refine ⟨(extensionsNamed (extensionsOf front) type).flatMap (fun extension_ =>
      extension_.members) ++ before, after ++ (extensionsNamed (extensionsOf back) type).flatMap
        fun extension_ => extension_.members, ?_, ?_⟩ <;>
      simp [extensionsOf_append_extension, extensionsNamed, htype]
  | new front back position =>
    refine ⟨(extensionsNamed (extensionsOf front) type).flatMap fun extension_ =>
      extension_.members, (extensionsNamed (extensionsOf back) type).flatMap fun extension_ =>
        extension_.members, ?_, ?_⟩ <;>
      simp [extensionsNamed, extensionsOf]

end ExtensionGains

theorem TypeContext.functions_eq (ctx : TypeContext) :
    ctx.functions = functionsOf (ctx.decl.members ++
      ctx.extensions.flatMap fun extension_ => extension_.members) := by
  simp [functions, functionsOf, List.filterMap_flatMap]

/-! ## The type without the member in its body -/

namespace Move

variable (move : Move)

def extensionsOutside : List ExtensionDecl :=
  extensionsNamed (extensionsOf move.outside) move.header.name

theorem extensionsOf_dropped : extensionsOf move.dropped = extensionsOf move.inside := by
  rw [dropped, inside, extensionsOf_append_type, extensionsOf_append_type]

theorem gains_dropped :
    ExtensionGains move.header.name move.member move.dropped move.outside :=
  move.gains

theorem conformances_outside (decl : TypeDecl) (hdecl : decl.inherited = move.header.inherited) :
    conformances ⟨decl, move.extensions⟩ = conformances ⟨move.bare, move.extensionsOutside⟩ := by
  have hinherited := move.gains_dropped.inherited
  rw [extensionsOf_dropped] at hinherited
  rw [conformances, conformances, hdecl]
  exact congrArg (fun inherited => (move.header.inherited ++ inherited).map localName)
    hinherited.symm

theorem exists_members :
    ∃ before after,
      move.extensions.flatMap (fun extension_ => extension_.members) = before ++ after ∧
      move.extensionsOutside.flatMap (fun extension_ => extension_.members) =
        before ++ move.member :: after := by
  have hmembers := move.gains_dropped.members
  rwa [extensionsOf_dropped] at hmembers

section

variable {move}

theorem propertiesOf_whole (h : move.member.property? = none) :
    propertiesOf move.whole.members = propertiesOf move.bare.members := by
  simp [whole, bare, propertiesOf, h]

theorem casesOf_whole (h : move.member.enumCases = []) :
    casesOf move.whole.members = casesOf move.bare.members := by
  simp [whole, bare, casesOf, h]

/-- Moving a function out of the body changes no answer, if no other function could be found in its
place. -/
theorem alike_of_function {f : FunctionDecl} (hmember : move.member = .function f)
    (halone : move.IsAlone f) :
    Alike ⟨move.whole, move.extensions⟩ ⟨move.bare, move.extensionsOutside⟩ := by
  have hconformances := move.conformances_outside move.whole rfl
  obtain ⟨u, v, hinside, houtside⟩ := move.exists_members
  have hfunctions : functions ⟨move.whole, move.extensions⟩ =
      functionsOf move.before ++ f :: (functionsOf (move.after ++ u) ++ functionsOf v) := by
    rw [functions_eq, hinside, whole, hmember]
    simp [functionsOf, Member.function?]
  have hfunctions' : functions ⟨move.bare, move.extensionsOutside⟩ =
      functionsOf move.before ++ (functionsOf (move.after ++ u) ++ f :: functionsOf v) := by
    rw [functions_eq, houtside, bare, hmember]
    simp [functionsOf, Member.function?]
  refine
    { header := rfl
      properties := by rw [propertiesOf_whole (by rw [hmember]; rfl)]
      cases := by rw [casesOf_whole (by rw [hmember]; rfl)]
      direction := by rw [direction, direction, hconformances]
      conformsTo := fun protocol => by rw [conformsTo, conformsTo, hconformances]
      function? := fun sought _ => congrArg (Option.map FunctionDecl.outline) ?_ }
  rw [function?, function?, hfunctions, hfunctions']
  refine find?_eq_of_moved fun hnamed => ?_
  simp only [FunctionDecl.isNamed, Bool.and_eq_true, beq_iff_eq] at hnamed
  have hone := halone sought.2 hnamed.2
  rwa [hnamed.1, hfunctions] at hone

/-- Nothing is asked of a type that is nested in an extension. -/
theorem alike_of_type {nested : TypeHeader} {members : List Member}
    (hmember : move.member = .type nested members) {decl : TypeDecl}
    (hdecl : decl = move.bare ∨ decl = move.whole) :
    Alike ⟨decl, move.extensions⟩ ⟨move.bare, move.extensionsOutside⟩ := by
  obtain ⟨u, v, hinside, houtside⟩ := move.exists_members
  have hheader : decl.toTypeHeader = move.header := by rcases hdecl with rfl | rfl <;> rfl
  have hconformances := move.conformances_outside decl (by rw [hheader])
  have hfunctions : functions ⟨decl, move.extensions⟩ =
      functions ⟨move.bare, move.extensionsOutside⟩ := by
    rw [functions_eq, functions_eq, hinside, houtside]
    rcases hdecl with rfl | rfl <;>
      simp [functionsOf, whole, bare, List.filterMap_cons, hmember, Member.function?]
  exact
    { header := by rw [hheader, bare]
      properties := by
        rcases hdecl with rfl | rfl
        · rfl
        · rw [propertiesOf_whole (by rw [hmember]; rfl)]
      cases := by
        rcases hdecl with rfl | rfl
        · rfl
        · rw [casesOf_whole (by rw [hmember]; rfl)]
      direction := by rw [direction, direction, hconformances]
      conformsTo := fun protocol => by rw [conformsTo, conformsTo, hconformances]
      function? := fun sought _ => by rw [function?, function?, hfunctions] }

end

/-! ## Definitions -/

variable (options : Options)

/-- What the declaration of a type is extracted to, with its extensions among `decls`. -/
def definition (decls : List Decl) (type : TypeDecl) : Extracting (Option (String × TypeDef)) :=
  extractDecl options (extensionsOf decls) (.type type)

theorem definition_eq_of_alike {decl : TypeDecl} (hname : decl.name = move.header.name)
    (halike : Alike ⟨decl, move.extensions⟩ ⟨move.bare, move.extensionsOutside⟩)
    (hkeys : ReadsKeys ⟨decl, move.extensions⟩ →
      codingKeys? ⟨decl, move.extensions⟩ = codingKeys? ⟨move.bare, move.extensionsOutside⟩) :
    definition options move.outside move.bare = definition options move.inside decl := by
  have hinside : lowerDecl options.fallbackCase (extensionsOf move.inside) (.type decl) =
      (lowerType options.fallbackCase ⟨decl, move.extensions⟩).map (move.header.name, ·) := by
    rw [lowerDecl, hname]
    rfl
  have houtside : lowerDecl options.fallbackCase (extensionsOf move.outside) (.type move.bare) =
      (lowerType options.fallbackCase ⟨move.bare, move.extensionsOutside⟩).map
        (move.header.name, ·) := rfl
  rw [definition, definition, extractDecl, extractDecl, hinside, houtside,
    halike.lowerType hkeys]

theorem definition_dropped (type : TypeDecl) :
    definition options move.dropped type = definition options move.inside type := by
  rw [definition, definition, extensionsOf_dropped]

theorem definition_of_function {f : FunctionDecl} (hmember : move.member = .function f)
    (halone : move.IsAlone f) :
    definition options move.outside move.bare = definition options move.inside move.whole := by
  have hkeys : codingKeys? ⟨move.whole, move.extensions⟩ =
      codingKeys? ⟨move.bare, move.extensionsOutside⟩ := by
    rw [codingKeys?, codingKeys?]
    simp [whole, bare, nestedType?, hmember, Member.type?]
  exact move.definition_eq_of_alike options rfl (alike_of_function hmember halone) fun _ => hkeys

section

variable {nested : TypeHeader} {members : List Member}
  (hmember : move.member = .type nested members)

include hmember

/-- A type in an extension counts as little as one that is not there. -/
theorem definition_of_type :
    definition options move.outside move.bare = definition options move.dropped move.bare := by
  rw [definition_dropped]
  exact move.definition_eq_of_alike options rfl (alike_of_type hmember (.inl rfl)) fun _ => rfl

theorem definition_of_not_readsKeys (hkeys : ¬ ReadsKeys ⟨move.whole, move.extensions⟩) :
    definition options move.outside move.bare = definition options move.inside move.whole :=
  move.definition_eq_of_alike options rfl (alike_of_type hmember (.inr rfl)) fun hread =>
    absurd hread hkeys

end

/-! ## All sources -/

/-- The sources declare what `decls` does, wherever it stands and however it is spread over
files. -/
def Declare (sources : List (List Decl)) (decls : List Decl) : Prop :=
  sources.flatten.map Decl.outline = decls.map Decl.outline

theorem extract_of_declare {sources : List (List Decl)} {decls : List Decl}
    (h : Declare sources decls) : extract options sources = extract options [decls] :=
  extract_eq_of_outlines options (by rwa [List.flatten_singleton])

/-- Extensions are extracted to nothing themselves. -/
theorem extract_eq_of_declared {decls decls' : List Decl}
    (h : (decls.filter isDeclaration).map (extractDecl options (extensionsOf decls)) =
      (decls'.filter isDeclaration).map (extractDecl options (extensionsOf decls'))) :
    extract options [decls] = extract options [decls'] := by
  have hcollect : ∀ decls : List Decl, declarations options [decls] =
      Logged.collect id
        ((decls.filter isDeclaration).map (extractDecl options (extensionsOf decls))) := by
    intro decls
    have hnothing : ∀ decl, isDeclaration decl = false →
        extractDecl options (extensionsOf decls) decl = pure none := by
      intro decl hdecl
      cases decl with
      | extension => rfl
      | type | typealias => cases hdecl
    rw [Logged.collect_map, declarations, List.flatten_singleton]
    exact (Logged.collect_filter hnothing decls).symm
  rw [extract, extract, hcollect, hcollect, h]

theorem extractDecl_outside (honly : move.IsOnlyDeclaration) {decl : Decl}
    (hdecl : decl ∈ move.front ++ move.back) :
    extractDecl options (extensionsOf move.outside) decl =
      extractDecl options (extensionsOf move.inside) decl := by
  cases decl with
  | type type =>
    have hnamed := move.gains_dropped.extensionsNamed_of_ne (honly type hdecl)
    rw [extensionsOf_dropped] at hnamed
    rw [extractDecl, extractDecl, lowerDecl, lowerDecl, hnamed]
  | typealias => rfl
  | extension => rfl

theorem extract_eq_of_definition (honly : move.IsOnlyDeclaration) {type : TypeDecl}
    (h : definition options move.outside move.bare = definition options move.inside type) :
    extract options [move.outside] =
      extract options [move.front ++ .type type :: move.back] := by
  have hothers : ∀ decls ⊆ move.front ++ move.back,
      (decls.filter isDeclaration).map (extractDecl options (extensionsOf move.outside)) =
        (decls.filter isDeclaration).map (extractDecl options (extensionsOf move.inside)) :=
    fun decls hdecls => List.map_congr_left fun decl hdecl =>
      move.extractDecl_outside options honly (hdecls (List.mem_of_mem_filter hdecl))
  have hextensions : extensionsOf (move.front ++ .type type :: move.back) =
      extensionsOf move.inside := by
    rw [inside, extensionsOf_append_type, extensionsOf_append_type]
  refine extract_eq_of_declared options ?_
  rw [move.gains_dropped.filter_isDeclaration, hextensions, dropped, List.filter_append,
    List.filter_append, List.filter_cons_of_pos rfl, List.filter_cons_of_pos rfl,
    List.map_append, List.map_append, List.map_cons, List.map_cons,
    hothers _ (List.subset_append_left _ _), hothers _ (List.subset_append_right _ _)]
  exact congrArg (fun extracted => _ ++ extracted :: _) h

/-- With the member in an extension, the type is extracted to what the declaration `type` is among
`decls`; and if it is the only type of its name, so is everything else in the sources. -/
structure ExtractsAs (decls : List Decl) (type : TypeDecl) : Prop where
  definition : definition options move.outside move.bare = definition options decls type
  schema : move.IsOnlyDeclaration → ∀ sources sources', Declare sources decls →
    Declare sources' move.outside → extract options sources' = extract options sources

theorem extractsAs_of_definition {type : TypeDecl} {decls : List Decl}
    (hdecls : decls = move.front ++ .type type :: move.back)
    (h : Move.definition options move.outside move.bare =
      Move.definition options move.inside type) : move.ExtractsAs options decls type where
  definition := by
    have hextensions : extensionsOf decls = extensionsOf move.inside := by
      rw [hdecls, inside, extensionsOf_append_type, extensionsOf_append_type]
    rw [h, Move.definition, Move.definition, hextensions]
  schema := fun honly sources sources' hsources hsources' => by
    rw [extract_of_declare options hsources, extract_of_declare options hsources',
      move.extract_eq_of_definition options honly h, hdecls]

end Move

/-- A function may stand in the body of a type or in an extension of it, if the type has no other
one of its name and first label. A nested type in an extension counts for nothing: where coding
keys are read the definition is that of the type without them. -/
theorem extract_move (move : Move) (options : Options) :
    (∀ f, move.member = .function f → move.IsAlone f →
      move.ExtractsAs options move.inside move.whole) ∧
    ∀ nested members, move.member = .type nested members →
      move.ExtractsAs options move.dropped move.bare ∧
        (¬ ReadsKeys ⟨move.whole, move.extensions⟩ →
          move.ExtractsAs options move.inside move.whole) := by
  refine ⟨fun f hmember halone => ?_, fun nested members hmember => ⟨?_, fun hkeys => ?_⟩⟩
  · exact move.extractsAs_of_definition options rfl
      (move.definition_of_function options hmember halone)
  · refine move.extractsAs_of_definition options rfl ?_
    rw [move.definition_of_type options hmember, Move.definition_dropped]
  · exact move.extractsAs_of_definition options rfl
      (move.definition_of_not_readsKeys options hmember hkeys)

def moveOut (header : TypeHeader) (body : List Member) (member : Member) : Move where
  header := header
  before := body
  member := member
  after := []
  front := []
  back := []
  outside := [.type ⟨header, body ++ []⟩, .extension ⟨⟨header.name, .start, []⟩, [member]⟩]
  gains := .new [.type ⟨header, body ++ []⟩] [] .start

def unknownDecoder : FunctionDecl :=
  { name := "init", position := .start, isStatic := false, firstLabel := some "from"
    body := placed [.word "self", .symbol "=", .symbol ".", .word "unknown"] }

/-- An enum of strings whose initializer makes one case the fallback. -/
def modeMove : Move :=
  moveOut ⟨.enum, "Mode", .start, [], [], false, ["String", "Codable"]⟩
    [.cases [⟨"on", .start, [], none, []⟩, ⟨"unknown", .start, [], none, []⟩]]
    (.function unknownDecoder)

theorem extract_move_modeMove :
    modeMove.IsAlone unknownDecoder ∧ modeMove.IsOnlyDeclaration ∧
      extract modeOptions [modeMove.outside] = extract modeOptions [modeMove.inside] ∧
      (extract modeOptions [modeMove.outside]).result.toOption.map (·.types.entries) =
        some [("Mode", .stringEnum
          { direction := .both, doc := none, unknownHandling := some (.fallback "unknown")
            values := .ofList [("on", "on")] })] := by
  have halone : modeMove.IsAlone unknownDecoder := by
    intro label hlabel
    cases hlabel
    decide +kernel
  have honly : modeMove.IsOnlyDeclaration := nofun
  have hextracts := (extract_move modeMove modeOptions).1 unknownDecoder rfl halone
  exact ⟨halone, honly, hextracts.schema honly [modeMove.inside] [modeMove.outside]
    (by rw [Move.Declare, List.flatten_singleton]) (by rw [Move.Declare, List.flatten_singleton]),
    by decide +kernel⟩

/-- A struct whose coding keys give its only property another wire name. -/
def usageMove : Move :=
  moveOut ⟨.struct, "Usage", .start, [], [], false, ["Codable"]⟩
    [.property ⟨"inputTokens", .start, [], some "Int", false, false, true, false⟩]
    (.type ⟨.enum, "CodingKeys", .start, [], [], false, ["String", "CodingKey"]⟩
      [.cases [⟨"inputTokens", .start, [], some (.string "input_tokens"), []⟩]])

/-- The wire name is lost when the coding keys stand in an extension. -/
theorem extract_move_usageMove :
    let types := fun decls : List Decl =>
      (extract modeOptions [decls]).result.toOption.map (·.types.entries)
    let usage := fun wireName : Option String => TypeDef.struct
      { direction := .both, doc := none
        fields := .ofList [("inputTokens", ⟨"int", wireName, true, none⟩)] }
    usageMove.IsOnlyDeclaration ∧
      types usageMove.inside = some [("Usage", usage (some "input_tokens"))] ∧
      types usageMove.outside = some [("Usage", usage none)] ∧
      extract modeOptions [usageMove.outside] ≠ extract modeOptions [usageMove.inside] := by
  intro types usage
  have hinside : types usageMove.inside = some [("Usage", usage (some "input_tokens"))] := by
    decide +kernel
  have houtside : types usageMove.outside = some [("Usage", usage none)] := by decide +kernel
  refine ⟨nofun, hinside, houtside, fun hsame => ?_⟩
  have htypes : types usageMove.outside = types usageMove.inside :=
    congrArg (fun run => run.result.toOption.map (·.types.entries)) hsame
  rw [hinside, houtside] at htypes
  exact absurd htypes (by decide +kernel)

end Extraction

end WireSchema
