import WireSchema.Extraction.Extractor
import WireSchema.Proofs.Logged
import WireSchema.Proofs.Lookup

/-!
# Merging declarations, leniently and strictly

Lenient extraction never fails: it warns of what it drops and of names that repeat, and the
last definition of a name counts. Strict extraction is the same run up to the first of these
warnings. All sources are lowered before anything is merged, so a drop anywhere comes before
every repeated name.
-/

namespace WireSchema.Extraction

open Swift

/-! ## Warnings that are faults -/

/-- The declaration that a warning says is dropped, with the reason. -/
def Warning.drop? : Warning → Option (String × DropReason)
  | .dropping name reason => some (name, reason)
  | .missingType .. | .noTags .. | .unclearLiteral .. | .duplicateType _ => none

/-- The fault that strict extraction has in place of a warning. -/
def Warning.fault? : Warning → Option Fault
  | .dropping name reason => some (.dropped name reason)
  | .duplicateType name => some (.duplicateType name)
  | .missingType .. | .noTags .. | .unclearLiteral .. => none

/-- The computation warns of nothing that is a fault in strict extraction. -/
def Harmless {α : Type} (lowering : Lowering α) : Prop :=
  ∀ warning ∈ lowering.log, warning.fault? = none

namespace Harmless

variable {α β : Type}

theorem pure (a : α) : Harmless (Pure.pure a : Lowering α) :=
  nofun

theorem fail (reason : DropReason) : Harmless (Logged.fail reason : Lowering α) :=
  nofun

theorem warn {warning : Warning} (h : warning.fault? = none) :
    Harmless (Logged.warn warning : Lowering Unit) := by
  intro other hother
  rw [List.mem_singleton.mp hother]
  exact h

theorem bind {lowering : Lowering α} {next : α → Lowering β} (h : Harmless lowering)
    (hnext : ∀ a, Harmless (next a)) : Harmless (lowering >>= next) := by
  rcases lowering with ⟨log, reason | a⟩
  · exact h
  · intro warning hwarning
    rcases List.mem_append.mp hwarning with hfirst | hlater
    · exact h warning hfirst
    · exact hnext a warning hlater

theorem collect {f : α → Lowering (Option β)} (h : ∀ a, Harmless (f a)) (as : List α) :
    Harmless (Logged.collect f as) := by
  induction as with
  | nil => exact .pure []
  | cons a later ih => exact .bind (h a) fun _ => .bind ih fun _ => .pure _

end Harmless

/-! ## Lowering is harmless -/

theorem harmless_lowerProperty (typeName : String) (keys? : Option (NameMap String))
    (property : PropertyDecl) : Harmless (lowerProperty typeName keys? property) := by
  unfold lowerProperty
  split
  · exact .pure none
  · split
    · exact .bind (.warn rfl) fun _ => .pure none
    · split
      · exact .fail _
      · exact .pure _

theorem harmless_lowerStruct (ctx : TypeContext) : Harmless (lowerStruct ctx) :=
  .bind (.collect (harmless_lowerProperty _ _) _) fun _ => .pure _

theorem harmless_lowerStringCase (ctx : TypeContext) (fallbackCase : String) (case_ : EnumCase) :
    Harmless (lowerStringCase ctx fallbackCase case_) := by
  unfold lowerStringCase
  split
  · exact .fail _
  · split
    · exact .pure none
    · split
      · exact .pure _
      · exact .pure _
      · exact .fail _
      · exact .fail _

theorem harmless_numberCases (implicit : Option Int) (cases : List EnumCase) :
    Harmless (numberCases implicit cases) := by
  induction cases generalizing implicit with
  | nil => exact .pure []
  | cons case_ later ih =>
    rw [numberCases]
    split
    · exact .fail _
    · split
      · exact .fail _
      · exact .bind (ih _) fun _ => .pure _

theorem harmless_lowerLabeledValues (keys : NameMap String) (caseName : String)
    (values : List AssociatedValue) : Harmless (lowerLabeledValues keys caseName values) := by
  induction values with
  | nil => exact .pure []
  | cons value later ih =>
    have hlabeled : ∀ label type, Harmless (lowerLabeled keys caseName label type) := by
      intro label type
      unfold lowerLabeled
      split
      · exact .fail _
      · exact .pure _
    exact .bind (hlabeled _ _) fun _ => .bind ih fun _ => .pure _

theorem harmless_lowerPayload (keys : NameMap String) (case_ : EnumCase) :
    Harmless (lowerPayload keys case_) := by
  unfold lowerPayload
  split
  · exact .pure _
  · split
    · exact .fail _
    · exact .pure _
  · split
    · exact .bind (harmless_lowerLabeledValues _ _ _) fun _ => .pure _
    · exact .fail _

theorem harmless_lowerVariant (keys : NameMap String) (case_ : EnumCase) :
    Harmless (lowerVariant keys case_) :=
  .bind (harmless_lowerPayload keys case_) fun _ => .pure _

theorem harmless_checkInline (variants : NameMap VariantDef) (discriminator : Option Discriminator) :
    Harmless (checkInline variants discriminator) := by
  unfold checkInline
  split
  · exact .pure ()
  · split
    · exact .fail _
    · exact .fail _
    · exact .pure ()

theorem harmless_markLiterals (ctx : TypeContext) (variants : NameMap VariantDef)
    (literals : List LiteralProtocol) : Harmless (markLiterals ctx variants literals) := by
  have hmark : ∀ variants literal, Harmless (markLiteral ctx variants literal) := by
    intro variants literal
    unfold markLiteral
    split
    · exact .pure _
    · split
      · exact .pure _
      · exact .bind (.warn rfl) fun _ => .pure _
  induction literals generalizing variants with
  | nil => exact .pure variants
  | cons literal later ih => exact .bind (hmark _ _) fun _ => ih _

theorem harmless_lowerUnion (fallbackCase : String) (ctx : TypeContext) :
    Harmless (lowerUnion fallbackCase ctx) := by
  refine .bind (.collect (harmless_lowerVariant _) _) fun entries => ?_
  have hrest : ∀ shape : UnionShape, Harmless (do
      checkInline (.ofList entries) shape.discriminator
      let marked ← markLiterals ctx ((NameMap.ofList entries).mapValues (withEvidentTag shape.tags))
        literalProtocols
      return TypeDef.union
        { direction := ctx.direction, doc := joinDocs ctx.decl.docs
          discriminator := shape.discriminator
          unknownHandling := (unionFallback fallbackCase ctx (.ofList entries)).or
            (if shape.rejectsUnknown then some .error else none)
          variants := marked }) := fun shape =>
    .bind (harmless_checkInline _ _) fun _ =>
      .bind (harmless_markLiterals _ _ _) fun _ => .pure _
  dsimp only
  split
  · exact .bind (.warn rfl) fun _ => hrest _
  · exact hrest _

theorem harmless_lowerEnum (fallbackCase : String) (ctx : TypeContext) :
    Harmless (lowerEnum fallbackCase ctx) := by
  unfold lowerEnum
  split
  · exact harmless_lowerUnion fallbackCase ctx
  · exact .bind (harmless_numberCases _ _) fun _ => .pure _
  · exact .bind (.collect (harmless_lowerStringCase _ _) _) fun _ => .pure _
  · exact .fail _

theorem harmless_lowerAlias (alias_ : AliasDecl) : Harmless (lowerAlias alias_) := by
  unfold lowerAlias
  split
  · exact .fail _
  · exact .pure _

theorem harmless_of_lowerDecl {fallbackCase : String} {extensions : List ExtensionDecl}
    {decl : Decl} {name : String} {lowering : Lowering TypeDef}
    (h : lowerDecl fallbackCase extensions decl = some (name, lowering)) : Harmless lowering := by
  cases decl with
  | type decl =>
    obtain ⟨lowered, hlowered, hpair⟩ := Option.map_eq_some_iff.mp h
    cases hpair
    unfold lowerType at hlowered
    split at hlowered
    · cases hlowered
    · split at hlowered
      · cases hlowered
        exact harmless_lowerStruct _
      · cases hlowered
        exact harmless_lowerStruct _
      · cases hlowered
        exact harmless_lowerEnum _ _
      · cases hlowered
      · cases hlowered
  | typealias decl =>
    rw [lowerDecl] at h
    split at h
    · cases h
    · cases h
      exact harmless_lowerAlias decl
  | extension => cases h

/-! ## One declaration -/

section

variable (fallbackCase : String) (extensions : List ExtensionDecl) (decl : Decl)

def definitionOf? : Option (String × TypeDef) :=
  match lowerDecl fallbackCase extensions decl with
  | some (name, ⟨_, .ok definition⟩) => some (name, definition)
  | _ => none

def dropOf? : Option (String × DropReason) :=
  match lowerDecl fallbackCase extensions decl with
  | some (name, ⟨_, .error reason⟩) => some (name, reason)
  | _ => none

end

def Fault.ofDrop (drop : String × DropReason) : Fault :=
  .dropped drop.1 drop.2

def Fault.drop? : Fault → Option (String × DropReason)
  | .dropped name reason => some (name, reason)
  | .duplicateType _ => none

def Options.withStrictness (options : Options) (strictness : Strictness) : Options :=
  { options with strictness }

theorem settle_strict (name : String) {lowering : Lowering TypeDef} (h : Harmless lowering) :
    settle .strict name lowering = (settle .lenient name lowering).stopAt Warning.fault? := by
  have hnone : lowering.log.findSome? Warning.fault? = none := List.findSome?_eq_none_iff.mpr h
  rcases lowering with ⟨log, reason | definition⟩
  · have hdrop : (log ++ [Warning.dropping name reason]).findSome? Warning.fault? =
        some (.dropped name reason) := by
      rw [List.findSome?_append, hnone]
      rfl
    have hbefore : Logged.beforeFault Warning.fault? (log ++ [Warning.dropping name reason]) =
        log := by
      rw [Logged.beforeFault_append_of_none hnone]
      exact List.append_nil log
    rw [Logged.stopAt_of_some hdrop]
    exact congrArg (fun log => (⟨log, .error (.dropped name reason)⟩ : Extracting _)) hbefore.symm
  · exact (Logged.stopAt_of_none hnone).symm

section

variable (options : Options) (extensions : List ExtensionDecl) (decl : Decl)

/-- Lenient extraction of a declaration always has a result, and warns of a fault exactly if
the declaration is dropped. -/
theorem extractDecl_lenient :
    (extractDecl (options.withStrictness .lenient) extensions decl).result =
        .ok (definitionOf? options.fallbackCase extensions decl) ∧
      (extractDecl (options.withStrictness .lenient) extensions decl).log.filterMap Warning.fault? =
        (dropOf? options.fallbackCase extensions decl).toList.map Fault.ofDrop := by
  have hfallback : (options.withStrictness .lenient).fallbackCase = options.fallbackCase := rfl
  rw [extractDecl, definitionOf?, dropOf?, hfallback]
  cases hlower : lowerDecl options.fallbackCase extensions decl with
  | none => exact ⟨rfl, rfl⟩
  | some lowered =>
    obtain ⟨name, lowering⟩ := lowered
    have hnone : lowering.log.filterMap Warning.fault? = [] :=
      List.filterMap_eq_nil_iff.mpr (harmless_of_lowerDecl hlower)
    rcases lowering with ⟨log, reason | definition⟩
    · refine ⟨rfl, ?_⟩
      show ((log ++ [Warning.dropping name reason]) ++ []).filterMap Warning.fault? = _
      rw [List.append_nil, List.filterMap_append, hnone]
      rfl
    · refine ⟨rfl, ?_⟩
      show (log ++ []).filterMap Warning.fault? = _
      rw [List.append_nil, hnone]
      rfl

/-- Strict extraction of a declaration stops where lenient extraction drops it. -/
theorem extractDecl_strict :
    extractDecl (options.withStrictness .strict) extensions decl =
      (extractDecl (options.withStrictness .lenient) extensions decl).stopAt Warning.fault? := by
  have hstrict : (options.withStrictness .strict).fallbackCase = options.fallbackCase := rfl
  have hlenient : (options.withStrictness .lenient).fallbackCase = options.fallbackCase := rfl
  rw [extractDecl, extractDecl, hstrict, hlenient]
  cases hlower : lowerDecl options.fallbackCase extensions decl with
  | none => rfl
  | some lowered =>
    dsimp only
    rw [Logged.stopAt_bind]
    exact congrArg (· >>= _) (settle_strict lowered.1 (harmless_of_lowerDecl hlower))

end

/-! ## All declarations -/

section

variable (options : Options) (sources : List (List Decl))

theorem declarations_strict :
    declarations (options.withStrictness .strict) sources =
      (declarations (options.withStrictness .lenient) sources).stopAt Warning.fault? := by
  rw [declarations, declarations, Logged.stopAt_collect]
  exact congrArg (Logged.collect · sources.flatten)
    (funext fun decl => extractDecl_strict options _ decl)

/-- Lenient extraction gives every definition there is, and warns of every drop. -/
theorem declarations_lenient :
    ∃ log, declarations (options.withStrictness .lenient) sources =
        ⟨log, .ok (sources.flatten.filterMap
          (definitionOf? options.fallbackCase (extensionsOf sources.flatten)))⟩ ∧
      log.filterMap Warning.fault? = (sources.flatten.filterMap
        (dropOf? options.fallbackCase (extensionsOf sources.flatten))).map Fault.ofDrop := by
  have hlenient := fun decl =>
    extractDecl_lenient options (extensionsOf sources.flatten) decl
  refine ⟨_, Logged.collect_of_result fun decl _ => (hlenient decl).1, ?_⟩
  rw [List.filterMap_flatMap, List.flatMap_congr fun decl _ => (hlenient decl).2,
    List.filterMap_eq_flatMap_toList, List.map_flatMap]

end

/-! ## Merging -/

/-- The names that are in `seen` or earlier in the list, each as often as that is so. -/
def repeatedNames (seen : List String) : List String → List String
  | [] => []
  | name :: later =>
    if seen.contains name then name :: repeatedNames seen later
    else repeatedNames (name :: seen) later

theorem mergeInto_strict (schema : Schema) (definitions : List (String × TypeDef)) :
    mergeInto .strict schema definitions =
      (mergeInto .lenient schema definitions).stopAt Warning.fault? := by
  induction definitions generalizing schema with
  | nil => rfl
  | cons entry later ih =>
    obtain ⟨name, definition⟩ := entry
    rw [mergeInto.eq_def, mergeInto.eq_def]
    dsimp only
    cases hknown : schema.types.contains name with
    | false => exact ih _
    | true =>
      have hrest : (Logged.warn (.duplicateType name) >>= fun _ => mergeInto .lenient
          { schema with types := schema.types.insert name definition } later).stopAt
            Warning.fault? = _ := Logged.stopAt_bind _ _
      exact hrest.symm

/-- Lenient merging binds all names one after the other, and warns of those that repeat. -/
theorem mergeInto_lenient (schema : Schema) (definitions : List (String × TypeDef)) {seen : List String}
    (hseen : ∀ name, schema.types.contains name = seen.contains name) :
    mergeInto .lenient schema definitions =
      ⟨(repeatedNames seen (definitions.map Prod.fst)).map .duplicateType,
        .ok { schema with
          types := definitions.foldl (fun map entry => map.insert entry.1 entry.2) schema.types }⟩ := by
  induction definitions generalizing schema seen with
  | nil => rfl
  | cons entry later ih =>
    obtain ⟨name, definition⟩ := entry
    have hinsert : ∀ other, (schema.types.insert name definition).contains other =
        (other == name || seen.contains other) := by
      intro other
      rw [NameMap.contains_insert, hseen]
    rw [mergeInto.eq_def, List.map_cons, repeatedNames]
    dsimp only
    cases hknown : seen.contains name with
    | false =>
      rw [hseen, hknown]
      refine ih { schema with types := schema.types.insert name definition } fun other => ?_
      rw [hinsert, List.contains_cons]
    | true =>
      have hlater := ih { schema with types := schema.types.insert name definition } fun other => by
        rw [hinsert]
        by_cases hother : other = name
        · rw [hother, hknown, Bool.or_true]
        · rw [beq_false_of_ne hother, Bool.false_or]
      rw [hseen, hknown, hlater]
      rfl

/-! ## The whole extraction -/

def schemaOf (provider : String) (definitions : List (String × TypeDef)) : Schema :=
  { Schema.ofProvider provider with types := .ofList definitions }

theorem extract_lenient {options : Options} {sources : List (List Decl)} {log : List Warning}
    {definitions : List (String × TypeDef)}
    (h : declarations (options.withStrictness .lenient) sources = ⟨log, .ok definitions⟩) :
    extract (options.withStrictness .lenient) sources =
      ⟨log ++ (repeatedNames [] (definitions.map Prod.fst)).map .duplicateType,
        .ok (schemaOf options.provider definitions)⟩ := by
  have hnone : ∀ name, (Schema.ofProvider options.provider).types.contains name =
      [].contains name := fun _ => rfl
  have hmerge := mergeInto_lenient (.ofProvider options.provider) definitions hnone
  rw [extract, h]
  exact congrArg (fun run => (⟨log ++ run.log, run.result⟩ : Extracting Schema)) hmerge

theorem extract_strict (options : Options) (sources : List (List Decl)) :
    extract (options.withStrictness .strict) sources =
      (extract (options.withStrictness .lenient) sources).stopAt Warning.fault? := by
  rw [extract, extract, Logged.stopAt_bind, declarations_strict]
  exact congrArg (_ >>= ·) (funext fun definitions => mergeInto_strict _ definitions)

/-- Lenient extraction always gives a schema. Its types are the names of all definitions, each
with the last definition of that name, and each repetition of a name is warned of. Strict
extraction fails for the first declaration that lenient extraction warns of dropping; if there
is none, for the first name that repeats; and if there is none of these either, it gives the
same schema. -/
theorem extract_merges (options : Options) (sources : List (List Decl)) :
    ∃ log definitions schema,
      declarations (options.withStrictness .lenient) sources = ⟨log, .ok definitions⟩ ∧
      definitions = sources.flatten.filterMap
        (definitionOf? options.fallbackCase (extensionsOf sources.flatten)) ∧
      log.filterMap Warning.drop? = sources.flatten.filterMap
        (dropOf? options.fallbackCase (extensionsOf sources.flatten)) ∧
      extract (options.withStrictness .lenient) sources =
        ⟨log ++ (repeatedNames [] (definitions.map Prod.fst)).map .duplicateType, .ok schema⟩ ∧
      schema.provider = options.provider ∧
      (∀ name, name ∈ schema.types.names ↔ name ∈ definitions.map Prod.fst) ∧
      (∀ name, schema.types.get? name =
        (definitions.filter fun definition => definition.1 == name).getLast?.map Prod.snd) ∧
      (extract (options.withStrictness .strict) sources).result =
        match (log.filterMap Warning.drop?).map Fault.ofDrop ++
          (repeatedNames [] (definitions.map Prod.fst)).map .duplicateType with
        | fault :: _ => .error fault
        | [] => .ok schema := by
  obtain ⟨log, hdeclarations, hfaults⟩ := declarations_lenient options sources
  have hdrop : ∀ warning : Warning, warning.drop? = warning.fault?.bind Fault.drop? := by
    intro warning
    cases warning <;> rfl
  have hdrops : log.filterMap Warning.drop? = sources.flatten.filterMap
      (dropOf? options.fallbackCase (extensionsOf sources.flatten)) := by
    rw [funext hdrop, ← List.filterMap_filterMap, hfaults, List.filterMap_map]
    exact List.filterMap_some
  have hlenient := extract_lenient hdeclarations
  refine ⟨log, _, _, hdeclarations, rfl, hdrops, hlenient, rfl, fun name => ?_,
    fun name => NameMap.get?_ofList_eq _ name, ?_⟩
  · rw [← NameMap.contains_iff_mem_names]
    exact NameMap.contains_ofList
  · have hrepeated : ∀ names : List String, (names.map Warning.duplicateType).filterMap
        Warning.fault? = names.map Fault.duplicateType := by
      intro names
      rw [List.filterMap_map]
      exact congrFun (List.filterMap_eq_map (f := Fault.duplicateType)) names
    rw [extract_strict, hlenient, Logged.result_stopAt, List.filterMap_append, hfaults, hdrops,
      hrepeated]
    cases (sources.flatten.filterMap
      (dropOf? options.fallbackCase (extensionsOf sources.flatten))).map Fault.ofDrop ++ _ <;> rfl

end WireSchema.Extraction
