import Mathlib.Data.List.Pairwise
import WireSchema.Proofs.Extraction.Definitions
import WireSchema.Proofs.Generation.CodingKeys
import WireSchema.Proofs.Generation.Parses

/-!
# A generated union with its extensions

The functions of a generated union are those that decode and encode it and, in an
extension each, those that take literals. Each is found by its name and label, and the
conformances tell the direction and the literals apart.
-/

namespace WireSchema.Extraction

open Generation Swift Verification

/-! ## Extensions -/

/-- The variants that may be written as literals, by name, in the order of their extensions. -/
def literalVariants (d : UnionDef) : List (String × LiteralSugar) :=
  (orderedVariants d).filterMap fun entry => entry.2.literal.map fun kind => (entry.1, kind)

def literalLabel : LiteralSugar → String
  | .string => "stringLiteral"
  | .array => "arrayLiteral"

def literalFunction (literal : String × LiteralSugar) : FunctionOutline :=
  ⟨"init", some (literalLabel literal.2), literalBodyFaces literal.1 literal.2⟩

def literalExtension (name : String) (literal : String × LiteralSugar) : DeclOutline :=
  .extension ⟨name, .start, [literalProtocol literal.2]⟩ (.ofFunction (literalFunction literal))

variable {name : String} {namer : Namer} {d : UnionDef}

theorem literalOutlines_unionForms (haccepted : UnionAccepted d) :
    (namer.unionForms d).flatMap (VariantForm.literalOutlines name) =
      (literalVariants d).map (literalExtension name) := by
  have hone : ∀ entry ∈ orderedVariants d,
      (namer.variantForm d entry).literalOutlines name =
        ((entry.2.literal.map fun kind => (entry.1, kind)).map (literalExtension name)).toList := by
    intro entry hordered
    have hentry := mem_of_mem_orderedVariants hordered
    cases hliteral : entry.2.literal with
    | none => simp [VariantForm.literalOutlines, Namer.variantForm, hliteral]
    | some kind =>
      obtain ⟨type, htype⟩ := exists_wrapped_of_fitsLiteral
        (haccepted.variants.literals entry hentry kind hliteral)
      have hlabel : ∀ type, firstLabelOf (literalParameterFaces type kind) =
          some (literalLabel kind) := fun type => by cases kind <;> rfl
      simp [VariantForm.literalOutlines, Namer.variantForm, Namer.payloadForm, hliteral, htype,
        hlabel, literalExtension, literalFunction]
  rw [Namer.unionForms, List.flatMap_map, List.flatMap_congr hone, literalVariants,
    List.map_filterMap, List.filterMap_eq_flatMap_toList]

/-- Each kind of literal stands for one variant. -/
theorem mem_literalVariants {literal : String × LiteralSugar} :
    literal ∈ literalVariants d ↔
      ∃ entry ∈ d.variants.entries, entry.1 = literal.1 ∧ entry.2.literal = some literal.2 := by
  rw [literalVariants, List.mem_filterMap]
  constructor
  · rintro ⟨entry, hordered, hliteral⟩
    obtain ⟨kind, hkind, rfl⟩ := Option.map_eq_some_iff.mp hliteral
    exact ⟨entry, mem_of_mem_orderedVariants hordered, rfl, hkind⟩
  · rintro ⟨entry, hentry, hname, hkind⟩
    refine ⟨entry, mem_orderedVariants.mpr hentry, ?_⟩
    rw [hkind, Option.map_some, hname]

theorem literal_inj (haccepted : UnionAccepted d) {a b : String × VariantDef}
    (ha : a ∈ d.variants.entries) (hb : b ∈ d.variants.entries) {kind : LiteralSugar}
    (hkind : a.2.literal = some kind) (hkind' : b.2.literal = some kind) : a = b := by
  have hpairs : d.variants.entries.Pairwise fun a b =>
      ∀ kind, a.2.literal = some kind → ∀ kind', b.2.literal = some kind' → kind ≠ kind' :=
    List.pairwise_filterMap.mp haccepted.variants.distinctLiterals
  have : Std.Symm fun a b : String × VariantDef =>
      ∀ kind, a.2.literal = some kind → ∀ kind', b.2.literal = some kind' → kind ≠ kind' :=
    ⟨fun _ _ hdistinct kind hkind kind' hkind' => (hdistinct kind' hkind' kind hkind).symm⟩
  refine Classical.byContradiction fun hne => ?_
  exact hpairs.forall ha hb hne kind hkind kind hkind' rfl

/-! ## Functions -/

/-- The type with its extensions is the code that was generated for the union. -/
structure IsUnionContext (name : String) (namer : Namer) (d : UnionDef) (ctx : TypeContext) :
    Prop where
  header : HasHeader ctx (typeHeader (docTexts d.doc) .enum name (conformances d.direction))
  outline : outline ctx.decl.members = unionOutline name d (namer.unionForms d)
  extensions : ctx.extensions.map (fun extension_ => (Decl.extension extension_).outline) =
    (literalVariants d).map (literalExtension name)

namespace IsUnionContext

variable {ctx : TypeContext} (h : IsUnionContext name namer d ctx)

include h

theorem inherited_extensions :
    ctx.extensions.map (fun extension_ => extension_.inherited) =
      (literalVariants d).map fun literal => [literalProtocol literal.2] := by
  have hparts := congrArg (List.map DeclOutline.inherited) h.extensions
  rw [List.map_map, List.map_map] at hparts
  exact hparts

theorem functions_extensions :
    ctx.extensions.map (fun extension_ => (functionsOf extension_.members).map
        FunctionDecl.outline) =
      (literalVariants d).map fun literal => [literalFunction literal] := by
  have hparts := congrArg (List.map DeclOutline.functions) h.extensions
  rw [List.map_map, List.map_map] at hparts
  exact hparts

theorem functions_outline :
    ctx.functions.map FunctionDecl.outline =
      coderOutlines name d (namer.unionForms d) ++ (literalVariants d).map literalFunction := by
  have hown : (functionsOf ctx.decl.members).map FunctionDecl.outline =
      coderOutlines name d (namer.unionForms d) := congrArg Outline.functions h.outline
  rw [TypeContext.functions, List.map_append, hown, List.map_flatMap, List.flatMap_def,
    h.functions_extensions, ← List.flatMap_def, ← List.map_eq_flatMap]

/-- The extensions only add protocols for literals. -/
theorem mem_inherited {extension_ : ExtensionDecl} (hextension : extension_ ∈ ctx.extensions)
    {inherited : String} (hinherited : inherited ∈ extension_.inherited) :
    ∃ kind, inherited = literalProtocol kind := by
  have hmem : extension_.inherited ∈ ctx.extensions.map fun extension_ => extension_.inherited :=
    List.mem_map_of_mem hextension
  rw [h.inherited_extensions] at hmem
  obtain ⟨literal, -, hsame⟩ := List.mem_map.mp hmem
  rw [← hsame] at hinherited
  exact ⟨literal.2, List.mem_singleton.mp hinherited⟩

theorem inherited : ctx.decl.inherited = (conformances d.direction).map typeText :=
  congrArg TypeHeader.inherited h.header

theorem direction : ctx.direction = d.direction := by
  refine direction_of_conformances [] (fun extension_ hextension inherited hinherited => ?_)
    h.inherited
  obtain ⟨kind, rfl⟩ := h.mem_inherited hextension hinherited
  cases kind <;> decide

theorem conformsTo (kind : LiteralSugar) :
    ctx.conformsTo (literalProtocol kind) =
      (literalVariants d).any fun literal => literal.2 == kind := by
  have hown : ∀ direction : Direction, ((conformances direction).map typeText).all
      (fun inherited => localName inherited != literalProtocol kind) = true := by
    intro direction
    cases direction <;> cases kind <;> decide
  have hlocal : ∀ kind' : LiteralSugar, localName (literalProtocol kind') = literalProtocol kind' :=
    fun kind' => by cases kind' <;> decide
  have hinjective : ∀ kind' : LiteralSugar,
      literalProtocol kind' = literalProtocol kind ↔ kind' = kind :=
    fun kind' => by cases kind' <;> cases kind <;> decide
  have hextended : ctx.extensions.flatMap (fun extension_ => extension_.inherited) =
      (literalVariants d).map fun literal => literalProtocol literal.2 := by
    rw [List.flatMap_def, h.inherited_extensions, ← List.flatMap_def, ← List.map_eq_flatMap]
  rw [Bool.eq_iff_iff, TypeContext.conformsTo, TypeContext.conformances, h.inherited, hextended,
    List.contains_iff_mem, List.mem_map, List.any_eq_true]
  constructor
  · rintro ⟨inherited, hmem, hsame⟩
    rcases List.mem_append.mp hmem with hinherited | hextension
    · have hother := List.all_eq_true.mp (hown d.direction) inherited hinherited
      rw [hsame] at hother
      simp at hother
    · obtain ⟨literal, hliteral, rfl⟩ := List.mem_map.mp hextension
      rw [hlocal, hinjective] at hsame
      exact ⟨literal, hliteral, by simp [hsame]⟩
  · rintro ⟨literal, hliteral, hkind⟩
    cases beq_iff_eq.mp hkind
    exact ⟨_, List.mem_append_right _ (List.mem_map_of_mem hliteral), hlocal _⟩

/-- The functions of the union itself are looked up among those that decode and encode it. -/
theorem function?_outline (sought label : String) :
    (ctx.function? sought label).map FunctionDecl.outline =
      (functionOf (coderOutlines name d (namer.unionForms d)) sought label).or
        (functionOf ((literalVariants d).map literalFunction) sought label) := by
  rw [TypeContext.function?_map_outline, h.functions_outline, functionOf, List.find?_append]
  rfl

theorem decoder? :
    ctx.decoder?.map FunctionDecl.outline =
      if d.direction.allowsDecode then
        some ⟨"init", some "from", unionDecodeFaces name d (namer.unionForms d)⟩
      else none := by
  have hliterals : functionOf ((literalVariants d).map literalFunction) "init" "from" = none := by
    refine List.find?_eq_none.mpr fun f hf => ?_
    obtain ⟨literal, -, rfl⟩ := List.mem_map.mp hf
    cases hkind : literal.2 <;> simp [FunctionOutline.isNamed, literalFunction, hkind, literalLabel]
  rw [TypeContext.decoder?, h.function?_outline, hliterals, Option.or_none]
  unfold coderOutlines
  cases d.direction <;> rfl

theorem encoder? :
    ctx.encoder?.map FunctionDecl.outline =
      if d.direction.allowsEncode then
        some ⟨"encode", some "to", unionEncodeFaces d (namer.unionForms d)⟩
      else none := by
  have hliterals : functionOf ((literalVariants d).map literalFunction) "encode" "to" = none := by
    refine List.find?_eq_none.mpr fun f hf => ?_
    obtain ⟨literal, -, rfl⟩ := List.mem_map.mp hf
    simp [FunctionOutline.isNamed, literalFunction]
  rw [TypeContext.encoder?, h.function?_outline, hliterals, Option.or_none]
  unfold coderOutlines
  cases d.direction <;> rfl

/-- The initializer for literals of a kind assigns the variant that may be written as one. -/
theorem literalFunction? (haccepted : UnionAccepted d) {entry : String × VariantDef}
    (hentry : entry ∈ d.variants.entries) {kind : LiteralSugar}
    (hkind : entry.2.literal = some kind) :
    (ctx.function? "init" (literalLabel kind)).map FunctionDecl.outline =
      some (literalFunction (entry.1, kind)) := by
  have hcoders : functionOf (coderOutlines name d (namer.unionForms d)) "init"
      (literalLabel kind) = none := by
    unfold coderOutlines
    cases d.direction <;> cases kind <;> rfl
  have hfound : ((literalVariants d).find? fun literal => literal.2 == kind) =
      some (entry.1, kind) := by
    cases hfind : (literalVariants d).find? fun literal => literal.2 == kind with
    | none =>
      have hmem : (entry.1, kind) ∈ literalVariants d :=
        mem_literalVariants.mpr ⟨entry, hentry, rfl, hkind⟩
      exact absurd (beq_self_eq_true kind) (List.find?_eq_none.mp hfind _ hmem)
    | some literal =>
      obtain ⟨other, hother, hname, hliteral⟩ :=
        mem_literalVariants.mp (List.mem_of_find?_eq_some hfind)
      have hsame := List.find?_some hfind
      rw [beq_iff_eq] at hsame
      rw [hsame] at hliteral
      cases literal_inj haccepted hother hentry hliteral hkind
      rw [hname, ← hsame]
  have hnamed : ∀ literal : String × LiteralSugar,
      (literalFunction literal).isNamed "init" (literalLabel kind) = (literal.2 == kind) := by
    intro literal
    cases hkind' : literal.2 <;> cases kind <;>
      simp [FunctionOutline.isNamed, literalFunction, hkind', literalLabel]
  rw [h.function?_outline, hcoders, Option.none_or, functionOf, List.find?_map]
  have hsought : ((fun f : FunctionOutline => f.isNamed "init" (literalLabel kind)) ∘
      literalFunction) = fun literal => literal.2 == kind := funext hnamed
  rw [hsought, hfound]
  rfl

end IsUnionContext

end WireSchema.Extraction
