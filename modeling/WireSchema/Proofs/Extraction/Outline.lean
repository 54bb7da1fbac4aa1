import WireSchema.Extraction.Extractor
import WireSchema.Proofs.Logged
import WireSchema.Proofs.NameMap
import WireSchema.Proofs.Swift.Declarations

/-!
# Lowering by outlines

What a declaration is lowered to depends on its header and on the outline of its
members, not on the places where they stand.
-/

namespace WireSchema

namespace Swift

def FunctionOutline.isNamed (f : FunctionOutline) (name label : String) : Bool :=
  f.name == name && f.firstLabel == some label

end Swift

namespace Extraction

open Swift

def codingKeysOf (o : Outline) : Option (NameMap String) :=
  (o.types.find? fun nested => nested.1 == "CodingKeys").map fun nested =>
    .ofList (nested.2.map fun case_ => (case_.name, codingKeyWire case_))

def functionOf (functions : List FunctionOutline) (name label : String) :
    Option FunctionOutline :=
  functions.find? fun f => f.isNamed name label

namespace TypeContext

variable (ctx : TypeContext)

theorem codingKeys?_eq : ctx.codingKeys? = codingKeysOf (outline ctx.decl.members) := by
  have hcases : ∀ decl : TypeDecl,
      ((casesOf decl.members).map EnumCase.unplaced).map (fun case_ =>
        (case_.name, codingKeyWire case_)) =
      (casesOf decl.members).map fun case_ => (case_.name, codingKeyWire case_) := by
    intro decl
    rw [List.map_map]
    rfl
  rw [codingKeys?, codingKeysOf, outline, nestedType?, List.find?_map, Option.map_map]
  congr 1
  funext decl
  exact congrArg NameMap.ofList (hcases decl).symm

theorem function?_map_outline (name label : String) :
    (ctx.function? name label).map FunctionDecl.outline =
      functionOf (ctx.functions.map FunctionDecl.outline) name label := by
  rw [function?, functionOf, List.find?_map]
  rfl

theorem isSome_decoder? :
    ctx.decoder?.isSome =
      (functionOf (ctx.functions.map FunctionDecl.outline) "init" "from").isSome := by
  rw [← function?_map_outline, Option.isSome_map]
  rfl

end TypeContext

/-! ## Structs -/

theorem lowerStruct_eq {ctx : TypeContext} {o : Outline} (ho : outline ctx.decl.members = o) :
    lowerStruct ctx = (do
      let fields ← Logged.collect (lowerProperty ctx.decl.name (codingKeysOf o)) o.properties
      return .struct
        { direction := ctx.direction, doc := joinDocs ctx.decl.docs, fields := .ofList fields }) := by
  subst ho
  rw [lowerStruct, ctx.codingKeys?_eq]
  have hplace : Logged.collect
      (lowerProperty ctx.decl.name (codingKeysOf (outline ctx.decl.members)))
        (outline ctx.decl.members).properties =
      Logged.collect (lowerProperty ctx.decl.name (codingKeysOf (outline ctx.decl.members)))
        (propertiesOf ctx.decl.members) :=
    Logged.collect_map _ _ _
  rw [hplace]

/-- A stored property without comments and wire keys is a field of its type. -/
theorem lowerProperty_stored {property : PropertyDecl} {type : String} {t : TypeExpr}
    (typeName : String) (hstored : isStored property = true) (hdocs : property.docs = [])
    (htype : property.type = some type) (hread : readType type = .ok t) :
    lowerProperty typeName none property =
      pure (some (property.name, FieldDef.ofType t.text)) := by
  unfold lowerProperty
  rw [if_neg (by simp [hstored])]
  simp only [htype, hread, hdocs]
  rfl

/-! ## Enums -/

theorem sentinelHandling_eq {ctx : TypeContext} {o : Outline}
    (ho : outline ctx.decl.members = o) (fallbackCase : String) :
    sentinelHandling ctx fallbackCase =
      if o.cases.any (isSentinel ctx fallbackCase) then some (.fallback fallbackCase)
      else none := by
  subst ho
  have hany : (outline ctx.decl.members).cases.any (isSentinel ctx fallbackCase) =
      (casesOf ctx.decl.members).any (isSentinel ctx fallbackCase) := List.any_map
  rw [sentinelHandling, hany]

theorem lowerStringEnum_eq {ctx : TypeContext} {o : Outline}
    (ho : outline ctx.decl.members = o) (fallbackCase : String) :
    lowerStringEnum fallbackCase ctx = (do
      let values ← Logged.collect (lowerStringCase ctx fallbackCase) o.cases
      return .stringEnum
        { direction := ctx.direction, doc := joinDocs ctx.decl.docs
          unknownHandling := if o.cases.any (isSentinel ctx fallbackCase) then
            some (.fallback fallbackCase) else none
          values := .ofList values }) := by
  rw [lowerStringEnum, sentinelHandling_eq ho]
  subst ho
  have hplace : Logged.collect (lowerStringCase ctx fallbackCase)
      (outline ctx.decl.members).cases =
      Logged.collect (lowerStringCase ctx fallbackCase) (casesOf ctx.decl.members) :=
    Logged.collect_map _ _ _
  rw [hplace]

/-! ## Declarations -/

/-- A declaration that can be lowered is extracted, however strict the extraction is. -/
theorem extractDecl_of_lowerDecl {options : Options} {extensions : List ExtensionDecl} {decl : Decl}
    {name : String} {log : List Warning} {definition : TypeDef}
    (h : lowerDecl options.fallbackCase extensions decl = some (name, ⟨log, .ok definition⟩)) :
    extractDecl options extensions decl = ⟨log, .ok (some (name, definition))⟩ := by
  rw [extractDecl, h]
  show Logged.mk (log ++ []) _ = _
  rw [List.append_nil]
  rfl

/-- What is extracted of a declaration is what it is lowered to. -/
theorem exists_lowerDecl_of_extractDecl {options : Options} {extensions : List ExtensionDecl}
    {decl : Decl} {name : String} {definition : TypeDef}
    (h : (extractDecl options extensions decl).result = .ok (some (name, definition))) :
    ∃ lowering, lowerDecl options.fallbackCase extensions decl = some (name, lowering) ∧
      lowering.result = .ok definition := by
  unfold extractDecl at h
  split at h
  · cases h
  · next lowered lowering hlower =>
    obtain ⟨definition?, hsettle, hname⟩ := Logged.result_bind_eq_ok_iff.mp h
    unfold settle at hsettle
    split at hsettle
    · next found hfound =>
      cases hsettle
      cases hname
      exact ⟨lowering, hlower, hfound⟩
    · split at hsettle
      · cases hsettle
      · cases hsettle
        cases hname

/-! ## Sources on their own -/

/-- The source is extracted as one definition, without a warning. -/
def ExtractsAlone (options : Options) (source : String) (own : String × TypeDef) : Prop :=
  ∃ decls, parse source = .ok decls ∧ declarations options [decls] = .ok [own]

namespace ExtractsAlone

variable {options : Options} {source : String} {own other : String × TypeDef}

theorem result (h : ExtractsAlone options source own) :
    (parse source).map (fun decls => (declarations options [decls]).result) = .ok (.ok [own]) := by
  obtain ⟨decls, hok, hdeclarations⟩ := h
  rw [hok]
  exact congrArg (Except.ok ·.result) hdeclarations

/-- What a run shows is the one definition that there can be. -/
theorem eq_of_result (h : ExtractsAlone options source own)
    (hresult : (parse source).map (fun decls => (declarations options [decls]).result) =
      .ok (.ok [other])) : own = other := by
  have hsame : [own] = [other] := Except.ok.inj (Except.ok.inj (h.result.symm.trans hresult))
  exact (List.cons.inj hsame).1

theorem unique (h : ExtractsAlone options source own) (h' : ExtractsAlone options source other) :
    own = other :=
  h.eq_of_result h'.result

end ExtractsAlone

end Extraction

end WireSchema
