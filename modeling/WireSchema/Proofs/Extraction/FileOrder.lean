import Mathlib.Data.List.Perm.Basic
import WireSchema.Proofs.Extraction.Alike
import WireSchema.Proofs.Extraction.Merging

/-!
# The order of sources

What a type gathers from its extensions is a set of conformances and a first function of
each kind. Where no kind of function is there twice, the order of the extensions leaves no
trace in the definition; and where no two definitions have one name, the order of the
definitions leaves none in the schema.
-/

namespace WireSchema

/-! ## Searches -/

/-- If only one element matches, a search finds it in any order. -/
theorem find?_eq_of_perm {α : Type} {p : α → Bool} {as bs : List α} (h : as.Perm bs)
    (hone : (as.filter p).length ≤ 1) : as.find? p = bs.find? p := by
  have hfilter := h.filter p
  rw [← List.head?_filter, ← List.head?_filter]
  match hfound : as.filter p, hone with
  | [], _ =>
    rw [hfound] at hfilter
    rw [hfilter.nil_eq]
  | [a], _ =>
    rw [hfound] at hfilter
    rw [hfilter.singleton_eq]

instance : RightCommutative Direction.merge :=
  ⟨fun a b c => by cases a <;> cases b <;> cases c <;> rfl⟩

namespace Extraction

open Swift

/-! ## Types with their extensions -/

namespace TypeContext

theorem mergeDirections_eq_of_perm {as bs : List Direction} (h : as.Perm bs) :
    mergeDirections as = mergeDirections bs := by
  induction h with
  | nil => rfl
  | cons first later => exact congrArg some (later.foldl_eq first)
  | swap a b later =>
    have hswap : b.merge a = a.merge b := by cases a <;> cases b <;> rfl
    rw [mergeDirections, mergeDirections, List.foldl_cons, List.foldl_cons, hswap]
  | trans _ _ ih ih' => exact ih.trans ih'

/-- No function that extraction looks for is declared twice. -/
def IsUnambiguous (ctx : TypeContext) : Prop :=
  ∀ sought ∈ codingFunctions, (ctx.functions.filter fun f => f.isNamed sought.1 sought.2).length ≤ 1

instance (ctx : TypeContext) : Decidable ctx.IsUnambiguous :=
  inferInstanceAs (Decidable (∀ sought ∈ codingFunctions, _ ≤ 1))

section

variable {decl : TypeDecl} {extensions extensions' : List ExtensionDecl}
  (h : extensions.Perm extensions')

include h

theorem conformances_perm :
    (conformances ⟨decl, extensions⟩).Perm (conformances ⟨decl, extensions'⟩) :=
  ((h.flatMap_right _).append_left _).map _

theorem direction_eq_of_perm : direction ⟨decl, extensions⟩ = direction ⟨decl, extensions'⟩ := by
  rw [direction, direction, mergeDirections_eq_of_perm ((conformances_perm h).filterMap _)]

theorem conformsTo_eq_of_perm (protocol : String) :
    conformsTo ⟨decl, extensions⟩ protocol = conformsTo ⟨decl, extensions'⟩ protocol := by
  rw [conformsTo, conformsTo, Bool.eq_iff_iff, List.contains_iff_mem, List.contains_iff_mem,
    (conformances_perm h).mem_iff]

theorem function?_eq_of_perm (hunambiguous : IsUnambiguous ⟨decl, extensions⟩) {name label : String}
    (hsought : (name, label) ∈ codingFunctions) :
    function? ⟨decl, extensions⟩ name label = function? ⟨decl, extensions'⟩ name label := by
  have hfunctions : (functions ⟨decl, extensions⟩).Perm (functions ⟨decl, extensions'⟩) :=
    (h.flatMap_right _).append_left _
  exact find?_eq_of_perm hfunctions (hunambiguous (name, label) hsought)

end

theorem alike_of_perm {decl : TypeDecl} {extensions extensions' : List ExtensionDecl}
    (h : extensions.Perm extensions') (hunambiguous : IsUnambiguous ⟨decl, extensions⟩) :
    Alike ⟨decl, extensions⟩ ⟨decl, extensions'⟩ where
  header := rfl
  properties := rfl
  cases := rfl
  direction := direction_eq_of_perm h
  conformsTo := conformsTo_eq_of_perm h
  function? := fun _ hsought =>
    congrArg (Option.map FunctionDecl.outline) (function?_eq_of_perm h hunambiguous hsought)

end TypeContext

/-! ## All sources -/

def declaredType? : Decl → Option TypeDecl
  | .type type => some type
  | _ => none

/-- In no type of the declarations, with all its extensions, is a function twice that extraction
looks for. -/
def AreUnambiguous (decls : List Decl) : Prop :=
  ∀ type ∈ decls.filterMap declaredType?,
    TypeContext.IsUnambiguous ⟨type, extensionsNamed (extensionsOf decls) type.name⟩

instance (decls : List Decl) : Decidable (AreUnambiguous decls) :=
  inferInstanceAs (Decidable (∀ type ∈ decls.filterMap declaredType?,
    TypeContext.IsUnambiguous ⟨type, extensionsNamed (extensionsOf decls) type.name⟩))

section

variable {decls decls' : List Decl}

theorem definitionOf?_eq_of_perm (h : decls.Perm decls') (hunambiguous : AreUnambiguous decls)
    (fallbackCase : String) {decl : Decl} (hdecl : decl ∈ decls) :
    definitionOf? fallbackCase (extensionsOf decls) decl =
      definitionOf? fallbackCase (extensionsOf decls') decl := by
  have hlower : lowerDecl fallbackCase (extensionsOf decls) decl =
      lowerDecl fallbackCase (extensionsOf decls') decl := by
    cases decl with
    | type type =>
      have hextensions : (extensionsNamed (extensionsOf decls) type.name).Perm
          (extensionsNamed (extensionsOf decls') type.name) := (h.filterMap _).filter _
      have halike := TypeContext.alike_of_perm hextensions
        (hunambiguous type (List.mem_filterMap.mpr ⟨_, hdecl, rfl⟩))
      rw [lowerDecl, lowerDecl, halike.lowerType fun _ => rfl]
    | typealias => rfl
    | extension => rfl
  rw [definitionOf?, definitionOf?, hlower]

theorem definitions_perm (h : decls.Perm decls') (hunambiguous : AreUnambiguous decls)
    (fallbackCase : String) :
    (decls.filterMap (definitionOf? fallbackCase (extensionsOf decls))).Perm
      (decls'.filterMap (definitionOf? fallbackCase (extensionsOf decls'))) := by
  rw [List.filterMap_congr fun decl hdecl =>
    definitionOf?_eq_of_perm h hunambiguous fallbackCase hdecl]
  exact h.filterMap _

end

/-- Where no two definitions have one name, and no type has a function twice that extraction
looks for, lenient extraction gives one schema whatever the order of the sources. -/
theorem extract_eq_of_perm (options : Options) {sources sources' : List (List Decl)}
    (h : sources.Perm sources') (hunambiguous : AreUnambiguous sources.flatten)
    (hnames : ∀ definitions, (declarations (options.withStrictness .lenient) sources).result =
      .ok definitions → (definitions.map Prod.fst).Nodup) :
    ∃ schema, (extract (options.withStrictness .lenient) sources).result = .ok schema ∧
      (extract (options.withStrictness .lenient) sources').result = .ok schema := by
  obtain ⟨log, hdeclarations, -⟩ := declarations_lenient options sources
  obtain ⟨log', hdeclarations', -⟩ := declarations_lenient options sources'
  have hperm := definitions_perm h.flatten hunambiguous options.fallbackCase
  have htypes := NameMap.ofList_eq_of_perm hperm
    (hnames _ (congrArg Logged.result hdeclarations))
  refine ⟨_, congrArg Logged.result (extract_lenient hdeclarations), ?_⟩
  rw [extract_lenient hdeclarations', schemaOf, schemaOf, htypes]

def modeSources : List (List Decl) :=
  (["enum Mode: String { case on, unknown }", "struct Item: Codable { let mode: Mode }",
    "extension Mode: Codable { init(from decoder: Decoder) throws { self = .unknown } }"].mapM
      parse).toOption.getD []

def modeOptions : Options :=
  { provider := "shop", fallbackCase := "unknown", strictness := .lenient }

/-- The extension, which makes one case the fallback, may as well come first. -/
theorem extract_reverse_modeSources :
    modeSources.flatten.length = 3 ∧
      ∃ schema, (extract modeOptions modeSources).result = .ok schema ∧
        (extract modeOptions modeSources.reverse).result = .ok schema ∧
        schema.types.names = ["Item", "Mode"] := by
  -- one computation, so that the sources are read once
  have hfacts : modeSources.flatten.length = 3 ∧ AreUnambiguous modeSources.flatten ∧
      ((modeSources.flatten.filterMap (definitionOf? modeOptions.fallbackCase
        (extensionsOf modeSources.flatten))).map Prod.fst).Nodup ∧
      (extract modeOptions modeSources).result.toOption.map (·.types.names) =
        some ["Item", "Mode"] := by decide +kernel
  obtain ⟨hlength, hunambiguous, hnodup, htypes⟩ := hfacts
  have hnames : ∀ definitions,
      (declarations (modeOptions.withStrictness .lenient) modeSources).result = .ok definitions →
        (definitions.map Prod.fst).Nodup := by
    intro definitions hresult
    obtain ⟨log, hdeclarations, -⟩ := declarations_lenient modeOptions modeSources
    rw [hdeclarations] at hresult
    cases hresult
    exact hnodup
  obtain ⟨schema, hschema, hreverse⟩ := extract_eq_of_perm modeOptions
    modeSources.reverse_perm.symm hunambiguous hnames
  refine ⟨hlength, schema, hschema, hreverse, ?_⟩
  rw [show (extract modeOptions modeSources).result = .ok schema from hschema] at htypes
  exact Option.some.inj htypes

end Extraction

end WireSchema
