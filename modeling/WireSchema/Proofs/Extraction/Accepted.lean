import WireSchema.Proofs.Extraction.Outline
import WireSchema.Proofs.Lookup
import WireSchema.Proofs.Swift.TypeGrammar
import WireSchema.Proofs.Verification.Accepted

/-!
# What verification finds in an extracted schema

Verification asks two kinds of things of a definition. That names are identifiers, that
types can be parsed and that payloads and fallbacks have the right shape is true of
whatever extraction gives: `DefinitionFormed`. That wire names, values, tags and
literals do not clash is a property of the sources, which extraction takes over as it
finds it: `DefinitionDistinct`. So an extracted schema is accepted exactly if nothing
clashes.
-/

namespace WireSchema

/-! ## The two halves of acceptance -/

/-- A text of white space alone denotes no type. -/
theorem trimChars_ne_nil_of_denotesType {type : String} (h : DenotesType type) :
    Text.trimChars type.toList ≠ [] := by
  intro hblank
  obtain ⟨run, hsplit, hrun⟩ :=
    Text.dropEndWhile_append Text.isBlank (type.toList.dropWhile Text.isBlank)
  rw [show Text.dropEndWhile Text.isBlank (type.toList.dropWhile Text.isBlank) = [] from hblank,
    List.nil_append] at hsplit
  have hall : ∀ c ∈ [] ++ type.toList, Text.isBlank c = true := by
    intro c hc
    rw [List.nil_append, ← List.takeWhile_append_dropWhile (p := Text.isBlank) (l := type.toList),
      hsplit] at hc
    rcases List.mem_append.mp hc with hfront | hback
    · exact List.all_eq_true.mp List.all_takeWhile c hfront
    · exact hrun c hback
  obtain ⟨t, hparse⟩ := h
  obtain ⟨ts, htokens, hread⟩ := TypeExpr.parse_eq_ok_iff.mp hparse
  have hnone : TypeExpr.tokenize [] = .ok ts := by
    refine (TypeExpr.tokenize_append_blanks hall).mp ?_
    rw [List.nil_append, List.nil_append]
    exact htokens
  rw [TypeExpr.tokenize_nil] at hnone
  cases hnone
  rw [TypeExpr.parseTokens_eq] at hread
  cases hread

namespace Verification

open Text (isIdentifier)

structure FieldsFormed (fields : List (String × FieldDef)) : Prop where
  identifiers : ∀ entry ∈ fields, isIdentifier entry.1 = true
  typed : ∀ entry ∈ fields, DenotesType entry.2.type

def PayloadFormed (d : UnionDef) : VariantPayload → Prop
  | .unit => True
  | .wrapped type => DenotesType type
  | .inline fields => (∃ field, d.discriminator = some ⟨field, .inline⟩) ∧
      FieldsFormed fields.entries

structure UnionFormed (d : UnionDef) : Prop where
  fallback : ∀ fallback ∈ d.fallbackVariant, ∃ variant ∈ d.variants.get? fallback,
    variant.isUnit = true
  identifiers : ∀ entry ∈ d.variants.entries, isIdentifier entry.1 = true
  payloads : ∀ entry ∈ d.variants.entries, PayloadFormed d entry.2.payload
  distinctLiterals : (ownLiterals d.variants.entries).Nodup

/-- Does the definition pass all checks that concern one name, one type or one shape? -/
def DefinitionFormed : TypeDef → Prop
  | .struct d => FieldsFormed d.fields.entries
  | .stringEnum d => (∀ entry ∈ d.values.entries, isIdentifier entry.1 = true) ∧
      ∀ fallback ∈ d.fallbackCase, isIdentifier fallback = true
  | .union d => UnionFormed d
  | .typeAlias d => DenotesType d.target

structure UnionDistinct (d : UnionDef) : Prop where
  discriminator : ∀ disc ∈ d.discriminator, disc.field ≠ ""
  fields : ∀ entry ∈ d.variants.entries, ∀ fields, entry.2.payload = .inline fields →
    (wireNames fields.entries).Nodup ∧
      ∀ disc ∈ d.discriminator, disc.field ∉ wireNames fields.entries
  literals : ∀ entry ∈ d.variants.entries, ∀ literal ∈ entry.2.literal,
    fitsLiteral entry.2.payload literal = true
  distinctTags : (ownTags d d.variants.entries).Nodup
  tags : tagsHaveMeaning d = true
  bareUnits : (d.variants.entries.filter fun entry => isBareUnit d entry.1 entry.2).length ≤ 1

/-- Is the wire form of the definition clear: no wire name, value or tag stands for two
things, a literal fits what it is for, and at most one variant is known by nothing? -/
def DefinitionDistinct : TypeDef → Prop
  | .struct d => (wireNames d.fields.entries).Nodup
  | .stringEnum d => (d.values.entries.map Prod.snd).Nodup
  | .union d => UnionDistinct d
  | .typeAlias _ => True

theorem unionAccepted_iff {d : UnionDef} (h : UnionFormed d) :
    UnionAccepted d ↔ UnionDistinct d := by
  constructor
  · intro haccepted
    refine ⟨haccepted.discriminator, ?_, haccepted.variants.literals,
      haccepted.variants.distinctTags, haccepted.tags, haccepted.bareUnits⟩
    intro entry hentry fields hfields
    have hpayload := haccepted.variants.payloads entry hentry
    rw [hfields] at hpayload
    obtain ⟨field, hdisc, haccepted, hfree⟩ := hpayload
    refine ⟨haccepted.distinct, fun disc hmem => ?_⟩
    rw [hdisc] at hmem
    cases hmem
    exact hfree
  · intro hdistinct
    refine ⟨h.fallback, ⟨h.identifiers, ?_, hdistinct.literals, hdistinct.distinctTags,
      h.distinctLiterals⟩, hdistinct.discriminator, hdistinct.tags, hdistinct.bareUnits⟩
    intro entry hentry
    have hformed := h.payloads entry hentry
    cases hpayload : entry.2.payload with
    | unit => trivial
    | wrapped type =>
      rw [hpayload] at hformed
      exact hformed
    | inline fields =>
      rw [hpayload] at hformed
      obtain ⟨⟨field, hdisc⟩, hfields⟩ := hformed
      obtain ⟨hnames, hfree⟩ := hdistinct.fields entry hentry fields hpayload
      exact ⟨field, hdisc, ⟨hfields.identifiers, hfields.typed, hnames⟩, hfree _ hdisc⟩

theorem definitionAccepted_iff {definition : TypeDef} (h : DefinitionFormed definition) :
    DefinitionAccepted definition ↔ DefinitionDistinct definition := by
  cases definition with
  | struct d =>
    exact ⟨fun haccepted => haccepted.distinct, fun hnames => ⟨h.identifiers, h.typed, hnames⟩⟩
  | stringEnum d =>
    exact ⟨fun haccepted => haccepted.values.distinct, fun hvalues => ⟨⟨h.1, hvalues⟩, h.2⟩⟩
  | union d => exact unionAccepted_iff h
  | typeAlias d =>
    exact ⟨fun _ => trivial, fun _ => ⟨trimChars_ne_nil_of_denotesType h, h⟩⟩

end Verification

namespace Extraction

open Swift
open Text (isIdentifier)
open Verification

/-! ## Structs, string enums and aliases -/

theorem denotesType_of_readType {source : String} {t : TypeExpr} (h : readType source = .ok t) :
    DenotesType t.text :=
  ⟨t.reread, parse_text_of_readType h⟩

section

variable {ctx : TypeContext} (hnames : ∀ member ∈ ctx.decl.members, member.NamesIdentify)

include hnames

theorem isIdentifier_of_mem_propertiesOf {property : PropertyDecl}
    (h : property ∈ propertiesOf ctx.decl.members) : isIdentifier property.name = true := by
  obtain ⟨member, hmember, hproperty⟩ := List.mem_filterMap.mp h
  cases member with
  | property decl =>
    cases hproperty
    exact hnames _ hmember
  | cases | function | type | typealias => cases hproperty

theorem namesIdentify_of_mem_casesOf {case_ : EnumCase} (h : case_ ∈ casesOf ctx.decl.members) :
    case_.NamesIdentify := by
  obtain ⟨member, hmember, hcase⟩ := List.mem_flatMap.mp h
  cases member with
  | cases introduced => exact hnames _ hmember case_ hcase
  | property | function | type | typealias => cases hcase

theorem lowerStruct_formed {definition : TypeDef}
    (h : (lowerStruct ctx).result = .ok definition) : DefinitionFormed definition := by
  obtain ⟨fields, hfields, h⟩ := Logged.result_bind_eq_ok_iff.mp h
  cases h
  have hfield : ∀ entry ∈ (NameMap.ofList fields).entries,
      isIdentifier entry.1 = true ∧ DenotesType entry.2.type := by
    intro entry hentry
    obtain ⟨property, hproperty, hlower⟩ :=
      Logged.exists_of_mem_collect hfields (NameMap.mem_ofList hentry)
    have hname := isIdentifier_of_mem_propertiesOf hnames hproperty
    unfold lowerProperty at hlower
    split at hlower
    · cases hlower
    · split at hlower
      · obtain ⟨_, -, hnone⟩ := Logged.result_bind_eq_ok_iff.mp hlower
        cases hnone
      · split at hlower
        · cases hlower
        · next t ht =>
          cases hlower
          exact ⟨hname, denotesType_of_readType ht⟩
  exact ⟨fun entry hentry => (hfield entry hentry).1, fun entry hentry => (hfield entry hentry).2⟩

/-- The sentinel counts only where there is a case of its name. -/
theorem isIdentifier_of_sentinelHandling {fallbackCase fallback : String}
    (h : fallback ∈ fallbackOf (sentinelHandling ctx fallbackCase)) :
    isIdentifier fallback = true ∧ ∃ case_ ∈ casesOf ctx.decl.members, case_.name = fallback := by
  unfold sentinelHandling at h
  split at h
  · next hany =>
    cases h
    obtain ⟨case_, hcase, hsentinel⟩ := List.any_eq_true.mp hany
    have hname : case_.name = fallbackCase := by
      simp only [isSentinel, Bool.and_eq_true, beq_iff_eq] at hsentinel
      exact hsentinel.1
    exact ⟨hname ▸ (namesIdentify_of_mem_casesOf hnames hcase).name, case_, hcase, hname⟩
  · cases h

theorem lowerStringEnum_formed {fallbackCase : String} {definition : TypeDef}
    (h : (lowerStringEnum fallbackCase ctx).result = .ok definition) :
    DefinitionFormed definition := by
  obtain ⟨values, hvalues, h⟩ := Logged.result_bind_eq_ok_iff.mp h
  cases h
  refine ⟨?_, fun fallback hmem => (isIdentifier_of_sentinelHandling hnames hmem).1⟩
  intro entry hentry
  obtain ⟨case_, hcase, hlower⟩ :=
    Logged.exists_of_mem_collect hvalues (NameMap.mem_ofList hentry)
  have hname := (namesIdentify_of_mem_casesOf hnames hcase).name
  unfold lowerStringCase at hlower
  split at hlower
  · cases hlower
  split at hlower
  · cases hlower
  split at hlower
  · cases hlower
    exact hname
  · cases hlower
    exact hname
  · cases hlower
  · cases hlower

/-! ## Numbered enums -/

omit hnames in
theorem map_fst_of_numberCases {implicit : Option Int} {cases_ : List EnumCase}
    {numbered : List (EnumCase × String)} (h : (numberCases implicit cases_).result = .ok numbered) :
    numbered.map Prod.fst = cases_ := by
  induction cases_ generalizing implicit numbered with
  | nil =>
    cases h
    rfl
  | cons case_ later ih =>
    unfold numberCases at h
    split at h
    · cases h
    split at h
    · cases h
    · obtain ⟨others, hothers, h⟩ := Logged.result_bind_eq_ok_iff.mp h
      cases h
      rw [List.map_cons, ih hothers]

theorem lowerNumberedEnum_formed {fallbackCase : String} {definition : TypeDef}
    (h : (lowerNumberedEnum fallbackCase ctx).result = .ok definition) :
    DefinitionFormed definition := by
  obtain ⟨numbered, hnumbered, h⟩ := Logged.result_bind_eq_ok_iff.mp h
  have hcases := map_fst_of_numberCases hnumbered
  generalize hbindings : numbered.map (fun pair =>
    (pair.1.name, numberedVariant ctx fallbackCase pair.1 pair.2)) = bindings at h
  cases h
  have hvariant : ∀ entry ∈ (NameMap.ofList bindings).entries,
      isIdentifier entry.1 = true ∧ entry.2.payload = .unit ∧ entry.2.literal = none := by
    intro entry hentry
    have hbinding := NameMap.mem_ofList hentry
    rw [← hbindings] at hbinding
    obtain ⟨pair, hpair, rfl⟩ := List.mem_map.mp hbinding
    have hcase : pair.1 ∈ casesOf ctx.decl.members := by
      rw [← hcases]
      exact List.mem_map.mpr ⟨pair, hpair, rfl⟩
    exact ⟨(namesIdentify_of_mem_casesOf hnames hcase).name, rfl, rfl⟩
  refine ⟨?_, fun entry hentry => (hvariant entry hentry).1, ?_, ?_⟩
  · intro fallback hfallback
    obtain ⟨-, case_, hcase, hname⟩ := isIdentifier_of_sentinelHandling hnames hfallback
    rw [← hcases] at hcase
    obtain ⟨pair, hpair, rfl⟩ := List.mem_map.mp hcase
    have hbinding : (pair.1.name, numberedVariant ctx fallbackCase pair.1 pair.2) ∈ bindings := by
      rw [← hbindings]
      exact List.mem_map.mpr ⟨pair, hpair, rfl⟩
    obtain ⟨entry, hentry, hsame⟩ := NameMap.exists_mem_ofList hbinding
    refine ⟨entry.2, ?_, ?_⟩
    · have hget := NameMap.get?_eq_some hentry
      rwa [hsame, hname] at hget
    · simp [VariantDef.isUnit, (hvariant entry hentry).2.1]
  · intro entry hentry
    rw [(hvariant entry hentry).2.1]
    trivial
  · have hnone : ownLiterals (NameMap.ofList bindings).entries = [] :=
      List.filterMap_eq_nil_iff.mpr fun entry hentry => (hvariant entry hentry).2.2
    rw [hnone]
    exact List.nodup_nil

end

/-! ## Unions -/

structure SamePayloads (before after : NameMap VariantDef) : Prop where
  old : ∀ entry ∈ after.entries, ∃ other ∈ before.entries,
    other.1 = entry.1 ∧ other.2.payload = entry.2.payload
  kept : ∀ entry ∈ before.entries, ∃ other ∈ after.entries,
    other.1 = entry.1 ∧ other.2.payload = entry.2.payload

namespace SamePayloads

theorem refl (variants : NameMap VariantDef) : SamePayloads variants variants :=
  ⟨fun entry hentry => ⟨entry, hentry, rfl, rfl⟩, fun entry hentry => ⟨entry, hentry, rfl, rfl⟩⟩

theorem trans {first second third : NameMap VariantDef} (h₁ : SamePayloads first second)
    (h₂ : SamePayloads second third) : SamePayloads first third := by
  constructor
  · intro entry hentry
    obtain ⟨middle, hmiddle, hname, hpayload⟩ := h₂.old entry hentry
    obtain ⟨other, hother, hname', hpayload'⟩ := h₁.old middle hmiddle
    exact ⟨other, hother, hname'.trans hname, hpayload'.trans hpayload⟩
  · intro entry hentry
    obtain ⟨middle, hmiddle, hname, hpayload⟩ := h₁.kept entry hentry
    obtain ⟨other, hother, hname', hpayload'⟩ := h₂.kept middle hmiddle
    exact ⟨other, hother, hname'.trans hname, hpayload'.trans hpayload⟩

theorem mapValues (variants : NameMap VariantDef) {f : String → VariantDef → VariantDef}
    (hf : ∀ name variant, (f name variant).payload = variant.payload) :
    SamePayloads variants (variants.mapValues f) := by
  constructor
  · intro entry hentry
    obtain ⟨other, hother, rfl⟩ := List.mem_map.mp hentry
    exact ⟨other, hother, rfl, (hf other.1 other.2).symm⟩
  · intro entry hentry
    exact ⟨(entry.1, f entry.1 entry.2), List.mem_map.mpr ⟨entry, hentry, rfl⟩, rfl,
      hf entry.1 entry.2⟩

theorem insert {variants : NameMap VariantDef} {name : String} {variant new : VariantDef}
    (hget : variants.get? name = some variant) (hpayload : new.payload = variant.payload) :
    SamePayloads variants (variants.insert name new) := by
  constructor
  · exact NameMap.forall_mem_insert (fun entry hold => ⟨entry, hold, rfl, rfl⟩)
      ⟨(name, variant), mem_of_get? hget, rfl, hpayload.symm⟩
  · intro entry hentry
    by_cases hsame : entry.1 = name
    · have hvariant := NameMap.get?_eq_some hentry
      rw [hsame, hget] at hvariant
      cases hvariant
      exact ⟨(name, new), mem_insertEntry_self name new _, hsame.symm, hpayload⟩
    · exact ⟨entry, mem_insertEntry_of_ne new hentry hsame, rfl, rfl⟩

end SamePayloads

def Unmarked (variants : NameMap VariantDef) (sugar : LiteralSugar) : Prop :=
  ∀ entry ∈ variants.entries, entry.2.literal ≠ some sugar

def MarksDistinct (variants : NameMap VariantDef) : Prop :=
  ∀ a ∈ variants.entries, ∀ b ∈ variants.entries, ∀ sugar, a.2.literal = some sugar →
    b.2.literal = some sugar → a.1 = b.1

theorem markLiteral_eq_ok {ctx : TypeContext} {variants marked : NameMap VariantDef}
    {literal : LiteralProtocol} (h : (markLiteral ctx variants literal).result = .ok marked) :
    marked = variants ∨ ∃ name variant, variants.get? name = some variant ∧
      marked = variants.insert name { variant with literal := some literal.sugar } := by
  unfold markLiteral at h
  split at h
  · cases h
    exact .inl rfl
  split at h
  · next name variant hcase =>
    cases h
    obtain ⟨found, -, hfound⟩ := Option.bind_eq_some_iff.mp hcase
    obtain ⟨variant', hget, hpair⟩ := Option.map_eq_some_iff.mp hfound
    cases hpair
    exact .inr ⟨name, variant, hget, rfl⟩
  · obtain ⟨_, -, h⟩ := Logged.result_bind_eq_ok_iff.mp h
    cases h
    exact .inl rfl

/-- What one protocol does: payloads stay, and only its own kind of literal is marked, once. -/
theorem markLiteral_marks {ctx : TypeContext} {variants marked : NameMap VariantDef}
    {literal : LiteralProtocol} (hdistinct : MarksDistinct variants)
    (hfree : Unmarked variants literal.sugar)
    (h : (markLiteral ctx variants literal).result = .ok marked) :
    SamePayloads variants marked ∧ MarksDistinct marked ∧
      ∀ sugar ≠ literal.sugar, Unmarked variants sugar → Unmarked marked sugar := by
  rcases markLiteral_eq_ok h with rfl | ⟨name, variant, hget, rfl⟩
  · exact ⟨.refl marked, hdistinct, fun _ _ hunmarked => hunmarked⟩
  · refine ⟨.insert hget rfl, ?_, ?_⟩
    · intro a ha b hb sugar hsugarA hsugarB
      rcases mem_insertEntry ha with rfl | holdA <;> rcases mem_insertEntry hb with rfl | holdB
      · rfl
      · cases hsugarA
        exact absurd hsugarB (hfree b holdB)
      · cases hsugarB
        exact absurd hsugarA (hfree a holdA)
      · exact hdistinct a holdA b holdB sugar hsugarA hsugarB
    · intro sugar hother hunmarked
      exact NameMap.forall_mem_insert hunmarked fun hsame => hother (Option.some.inj hsame).symm

theorem markLiterals_marks {ctx : TypeContext} {variants marked : NameMap VariantDef}
    (hnone : ∀ entry ∈ variants.entries, entry.2.literal = none)
    (h : (markLiterals ctx variants literalProtocols).result = .ok marked) :
    SamePayloads variants marked ∧ MarksDistinct marked := by
  obtain ⟨first, hfirst, h⟩ := Logged.result_bind_eq_ok_iff.mp h
  obtain ⟨second, hsecond, h⟩ := Logged.result_bind_eq_ok_iff.mp h
  cases h
  have hunmarked : ∀ sugar, Unmarked variants sugar := by
    intro sugar entry hentry
    rw [hnone entry hentry]
    simp
  have hdistinct : MarksDistinct variants := fun a ha _ _ sugar hsugar =>
    absurd hsugar (hunmarked sugar a ha)
  obtain ⟨hsame, hdistinct₁, hother⟩ := markLiteral_marks hdistinct (hunmarked _) hfirst
  obtain ⟨hsame', hdistinct₂, -⟩ :=
    markLiteral_marks hdistinct₁ (hother .array (by decide) (hunmarked _)) hsecond
  exact ⟨hsame.trans hsame', hdistinct₂⟩

theorem nodup_ownLiterals {variants : NameMap VariantDef} (h : MarksDistinct variants) :
    (ownLiterals variants.entries).Nodup := by
  rw [ownLiterals, List.Nodup, List.pairwise_filterMap]
  refine variants.ascending.imp_of_mem ?_
  intro a b ha hb hlt sugar hsugarA sugar' hsugarB hsame
  subst hsame
  rw [h a ha b hb sugar hsugarA hsugarB] at hlt
  exact String.lt_irrefl _ hlt

def PayloadTyped : VariantPayload → Prop
  | .unit => True
  | .wrapped type => DenotesType type
  | .inline fields => FieldsFormed fields.entries

theorem lowerLabeledValues_formed {keys : NameMap String} {caseName : String}
    {values : List AssociatedValue} {fields : List (String × FieldDef)}
    (hlabels : ∀ value ∈ values, ∃ label, value.label = some label ∧ isIdentifier label = true)
    (h : (lowerLabeledValues keys caseName values).result = .ok fields) : FieldsFormed fields := by
  induction values generalizing fields with
  | nil =>
    cases h
    exact ⟨by simp, by simp⟩
  | cons value later ih =>
    obtain ⟨field, hfield, h⟩ := Logged.result_bind_eq_ok_iff.mp h
    obtain ⟨others, hothers, h⟩ := Logged.result_bind_eq_ok_iff.mp h
    cases h
    obtain ⟨label, hlabel, hidentifier⟩ := hlabels value List.mem_cons_self
    have hlater := ih (fun other hother => hlabels other (List.mem_cons_of_mem _ hother)) hothers
    rw [hlabel, Option.getD_some] at hfield
    unfold lowerLabeled at hfield
    split at hfield
    · cases hfield
    · next t ht =>
      cases hfield
      constructor
      · simpa [hidentifier] using hlater.identifiers
      · intro entry hentry
        rcases List.mem_cons.mp hentry with rfl | hmem
        · exact denotesType_of_readType ht
        · exact hlater.typed entry hmem

theorem lowerPayload_typed {keys : NameMap String} {case_ : EnumCase} {payload : VariantPayload}
    (hcase : case_.NamesIdentify) (h : (lowerPayload keys case_).result = .ok payload) :
    PayloadTyped payload := by
  have hlabels := hcase.labels
  unfold lowerPayload at h
  split at h
  · cases h
    trivial
  · split at h
    · cases h
    · next t ht =>
      cases h
      exact denotesType_of_readType ht
  · next values _ _ =>
    split at h
    · next hall =>
      obtain ⟨fields, hfields, h⟩ := Logged.result_bind_eq_ok_iff.mp h
      cases h
      have hformed := lowerLabeledValues_formed (fun value hvalue => by
        obtain ⟨label, hlabel⟩ := Option.isSome_iff_exists.mp (List.all_eq_true.mp hall value hvalue)
        exact ⟨label, hlabel, hlabels value hvalue label hlabel⟩) hfields
      exact ⟨fun entry hentry => hformed.identifiers entry (NameMap.mem_ofList hentry),
        fun entry hentry => hformed.typed entry (NameMap.mem_ofList hentry)⟩
    · cases h

theorem payload_withEvidentTag (tags : NameMap String) (name : String) (variant : VariantDef) :
    (withEvidentTag tags name variant).payload = variant.payload ∧
      (withEvidentTag tags name variant).literal = variant.literal := by
  unfold withEvidentTag
  split
  · split <;> exact ⟨rfl, rfl⟩
  · exact ⟨rfl, rfl⟩

/-- A union with labeled payloads is dropped unless its tag stands next to them. -/
theorem discriminator_of_checkInline {variants : NameMap VariantDef}
    {discriminator : Option Discriminator} {passed : Unit}
    (h : (checkInline variants discriminator).result = .ok passed) {entry : String × VariantDef}
    (hentry : entry ∈ variants.entries) {fields : NameMap FieldDef}
    (hpayload : entry.2.payload = .inline fields) : ∃ field, discriminator = some ⟨field, .inline⟩ := by
  have hany : variants.values.any hasInlinePayload = true := by
    refine List.any_eq_true.mpr ⟨entry.2, List.mem_map.mpr ⟨entry, hentry, rfl⟩, ?_⟩
    rw [hasInlinePayload, hpayload]
  unfold checkInline at h
  rw [hany] at h
  rcases discriminator with _ | ⟨field, _ | _⟩
  · cases h
  · exact ⟨field, rfl⟩
  · cases h

/-- What is known of a variant before its tag and its literal are looked for. -/
theorem lowerVariant_formed {keys : NameMap String} {case_ : EnumCase}
    (hcase : case_.NamesIdentify) {entry : String × VariantDef}
    (h : (lowerVariant keys case_).result = .ok (some entry)) :
    isIdentifier entry.1 = true ∧ PayloadTyped entry.2.payload ∧ entry.2.literal = none := by
  obtain ⟨payload, hpayload, h⟩ := Logged.result_bind_eq_ok_iff.mp h
  cases h
  exact ⟨hcase.name, lowerPayload_typed hcase hpayload, rfl⟩

/-- The parts of a union that has been lowered. -/
theorem exists_parts_of_lowerUnion {ctx : TypeContext} {fallbackCase : String}
    {definition : TypeDef} (h : (lowerUnion fallbackCase ctx).result = .ok definition) :
    ∃ (entries : List (String × VariantDef)) (shape : UnionShape) (passed : Unit)
        (marked : NameMap VariantDef),
      (Logged.collect (lowerVariant (ctx.codingKeys?.getD .empty))
        (casesOf ctx.decl.members)).result = .ok entries ∧
      (checkInline (.ofList entries) shape.discriminator).result = .ok passed ∧
      (markLiterals ctx ((NameMap.ofList entries).mapValues (withEvidentTag shape.tags))
        literalProtocols).result = .ok marked ∧
      definition = .union
        { direction := ctx.direction, doc := joinDocs ctx.decl.docs
          discriminator := shape.discriminator
          unknownHandling := (unionFallback fallbackCase ctx (.ofList entries)).or
            (if shape.rejectsUnknown then some .error else none)
          variants := marked } := by
  obtain ⟨entries, hentries, h⟩ := Logged.result_bind_eq_ok_iff.mp h
  dsimp only at h
  generalize unionShape _ = shape at h
  -- the same steps follow, whether tags were missed with a warning or not
  split at h
  · obtain ⟨_, -, h⟩ := Logged.result_bind_eq_ok_iff.mp h
    obtain ⟨passed, hpassed, h⟩ := Logged.result_bind_eq_ok_iff.mp h
    obtain ⟨marked, hmarked, h⟩ := Logged.result_bind_eq_ok_iff.mp h
    cases h
    exact ⟨entries, shape, passed, marked, hentries, hpassed, hmarked, rfl⟩
  · obtain ⟨passed, hpassed, h⟩ := Logged.result_bind_eq_ok_iff.mp h
    obtain ⟨marked, hmarked, h⟩ := Logged.result_bind_eq_ok_iff.mp h
    cases h
    exact ⟨entries, shape, passed, marked, hentries, hpassed, hmarked, rfl⟩

/-- Only a unit of the usual name becomes the fallback. -/
theorem isUnit_of_unionFallback {ctx : TypeContext} {fallbackCase fallback : String}
    {variants : NameMap VariantDef} {rejects : Bool}
    (h : fallbackOf ((unionFallback fallbackCase ctx variants).or
      (if rejects then some .error else none)) = some fallback) :
    ∃ variant, variants.get? fallback = some variant ∧ variant.isUnit = true := by
  unfold unionFallback at h
  split at h
  · next hunit =>
    cases h
    exact (Option.any_eq_true _ _).mp (Bool.and_eq_true_iff.mp hunit).1
  · cases rejects <;> cases h

theorem payloadFormed_of_typed {d : UnionDef} {payload : VariantPayload}
    (h : PayloadTyped payload)
    (hinline : ∀ fields, payload = .inline fields → ∃ field, d.discriminator = some ⟨field, .inline⟩) :
    PayloadFormed d payload := by
  cases payload with
  | unit => trivial
  | wrapped type => exact h
  | inline fields => exact ⟨hinline fields rfl, h⟩

theorem lowerUnion_formed {ctx : TypeContext}
    (hnames : ∀ member ∈ ctx.decl.members, member.NamesIdentify) {fallbackCase : String}
    {definition : TypeDef} (h : (lowerUnion fallbackCase ctx).result = .ok definition) :
    DefinitionFormed definition := by
  obtain ⟨entries, shape, passed, marked, hentries, hpassed, hmarked, rfl⟩ :=
    exists_parts_of_lowerUnion h
  have hvariant : ∀ entry ∈ (NameMap.ofList entries).entries, isIdentifier entry.1 = true ∧
      PayloadTyped entry.2.payload ∧ entry.2.literal = none := by
    intro entry hentry
    obtain ⟨case_, hmem, hlower⟩ :=
      Logged.exists_of_mem_collect hentries (NameMap.mem_ofList hentry)
    exact lowerVariant_formed (namesIdentify_of_mem_casesOf hnames hmem) hlower
  have htagged := SamePayloads.mapValues (.ofList entries)
    (f := withEvidentTag shape.tags) fun name variant => (payload_withEvidentTag _ name variant).1
  have hnone : ∀ entry ∈ ((NameMap.ofList entries).mapValues (withEvidentTag shape.tags)).entries,
      entry.2.literal = none := by
    intro entry hentry
    obtain ⟨other, hother, rfl⟩ := List.mem_map.mp hentry
    exact (payload_withEvidentTag _ _ _).2.trans (hvariant other hother).2.2
  obtain ⟨hmarks, hdistinct⟩ := markLiterals_marks hnone hmarked
  have hsame := htagged.trans hmarks
  refine ⟨?_, ?_, ?_, nodup_ownLiterals hdistinct⟩
  · intro fallback hfallback
    obtain ⟨variant, hget, hunit⟩ := isUnit_of_unionFallback hfallback
    obtain ⟨entry, hentry, hname, hpayload⟩ := hsame.kept _ (mem_of_get? hget)
    have hkept := NameMap.get?_eq_some hentry
    rw [hname] at hkept
    refine ⟨entry.2, hkept, ?_⟩
    rw [VariantDef.isUnit, hpayload]
    exact hunit
  · intro entry hentry
    obtain ⟨other, hother, hname, -⟩ := hsame.old entry hentry
    rw [← hname]
    exact (hvariant other hother).1
  · intro entry hentry
    obtain ⟨other, hother, -, hpayload⟩ := hsame.old entry hentry
    rw [← hpayload]
    exact payloadFormed_of_typed (hvariant other hother).2.1 fun fields hinline =>
      discriminator_of_checkInline hpassed hother hinline

/-! ## Schemas -/

theorem lowerDecl_formed {fallbackCase : String} {extensions : List ExtensionDecl} {decl : Decl}
    (hnames : decl.NamesIdentify) {name : String} {lowering : Lowering TypeDef}
    (h : lowerDecl fallbackCase extensions decl = some (name, lowering)) {definition : TypeDef}
    (hresult : lowering.result = .ok definition) :
    isIdentifier name = true ∧ DefinitionFormed definition := by
  cases decl with
  | extension decl => cases h
  | typealias decl =>
    rw [lowerDecl] at h
    split at h
    · cases h
    · cases h
      refine ⟨hnames, ?_⟩
      unfold lowerAlias at hresult
      split at hresult
      · cases hresult
      · next t ht =>
        cases hresult
        exact denotesType_of_readType ht
  | type decl =>
    obtain ⟨lowering', hlowering, hpair⟩ := Option.map_eq_some_iff.mp h
    cases hpair
    refine ⟨hnames.1, ?_⟩
    unfold lowerType at hlowering
    split at hlowering
    · cases hlowering
    split at hlowering
    · cases hlowering
      exact lowerStruct_formed hnames.2 hresult
    · cases hlowering
      exact lowerStruct_formed hnames.2 hresult
    · cases hlowering
      unfold lowerEnum at hresult
      split at hresult
      · exact lowerUnion_formed hnames.2 hresult
      · exact lowerNumberedEnum_formed hnames.2 hresult
      · exact lowerStringEnum_formed hnames.2 hresult
      · cases hresult
    · cases hlowering
    · cases hlowering

theorem declarations_formed {options : Options} {sources : List (List Decl)}
    (hnames : ∀ decls ∈ sources, ∀ decl ∈ decls, decl.NamesIdentify)
    {definitions : List (String × TypeDef)}
    (h : (declarations options sources).result = .ok definitions) :
    ∀ entry ∈ definitions, isIdentifier entry.1 = true ∧ DefinitionFormed entry.2 := by
  intro entry hentry
  obtain ⟨decl, hdecl, hresult⟩ := Logged.exists_of_mem_collect h hentry
  obtain ⟨decls, hdecls, hmem⟩ := List.mem_flatten.mp hdecl
  obtain ⟨lowering, hlower, hlowering⟩ := exists_lowerDecl_of_extractDecl hresult
  exact lowerDecl_formed (hnames decls hdecls decl hmem) hlower hlowering

theorem mem_of_mergeInto {strictness : Strictness} {schema merged : Schema}
    {definitions : List (String × TypeDef)}
    (h : (mergeInto strictness schema definitions).result = .ok merged) :
    ∀ entry ∈ merged.types.entries, entry ∈ schema.types.entries ∨ entry ∈ definitions := by
  induction definitions generalizing schema with
  | nil =>
    cases h
    exact fun entry hentry => .inl hentry
  | cons first later ih =>
    obtain ⟨name, definition⟩ := first
    have hlater : (mergeInto strictness
        { schema with types := schema.types.insert name definition } later).result = .ok merged := by
      unfold mergeInto at h
      split at h
      · cases strictness with
        | strict => cases h
        | lenient =>
          obtain ⟨_, -, h⟩ := Logged.result_bind_eq_ok_iff.mp h
          exact h
      · exact h
    intro entry hentry
    rcases ih hlater entry hentry with hinserted | hmem
    · rcases mem_insertEntry hinserted with rfl | hold
      · exact .inr List.mem_cons_self
      · exact .inl hold
    · exact .inr (List.mem_cons_of_mem _ hmem)

theorem namesIdentify_of_mapM_parse {texts : List String} {sources : List (List Decl)}
    (h : texts.mapM parse = .ok sources) :
    ∀ decls ∈ sources, ∀ decl ∈ decls, decl.NamesIdentify := by
  induction texts generalizing sources with
  | nil =>
    cases h
    simp
  | cons text later ih =>
    rw [List.mapM_cons] at h
    obtain ⟨first, hfirst, h⟩ := Outcome.bind_eq_ok_iff.mp h
    obtain ⟨others, hothers, h⟩ := Outcome.bind_eq_ok_iff.mp h
    cases h
    intro decls hdecls
    rcases List.mem_cons.mp hdecls with rfl | hmem
    · exact parse_namesIdentify hfirst
    · exact ih hothers decls hmem

/-- An extracted schema is accepted exactly if none of its types has a name that generated code
declares itself and the wire form of each type is clear. Whatever else verification asks holds
of every extracted schema: names are identifiers, types can be parsed, an alias has a target,
the fallback of a union is one of its unit variants, labeled payloads stand next to a tag,
and no two variants are written by the same kind of literal. -/
theorem verify_extracted_iff {options : Options} {texts : List String}
    {sources : List (List Decl)} {schema : Schema} (hparse : texts.mapM parse = .ok sources)
    (hextract : (extract options sources).result = .ok schema) :
    verify schema = .ok () ↔ ∀ entry ∈ schema.types.entries,
      entry.1 ∉ reservedNames ∧ DefinitionDistinct entry.2 := by
  have hnames := namesIdentify_of_mapM_parse hparse
  obtain ⟨definitions, hdefinitions, hmerge⟩ := Logged.result_bind_eq_ok_iff.mp hextract
  have hformed : ∀ entry ∈ schema.types.entries,
      isIdentifier entry.1 = true ∧ DefinitionFormed entry.2 := by
    intro entry hentry
    rcases mem_of_mergeInto hmerge entry hentry with hnone | hmem
    · cases hnone
    · exact declarations_formed hnames hdefinitions entry hmem
  rw [verify_eq_ok_iff]
  constructor
  · intro h entry hentry
    have haccepted := h entry hentry
    exact ⟨haccepted.free, (definitionAccepted_iff (hformed entry hentry).2).mp
      haccepted.definition⟩
  · intro h entry hentry
    obtain ⟨hfree, hdistinct⟩ := h entry hentry
    exact ⟨(hformed entry hentry).1, hfree,
      (definitionAccepted_iff (hformed entry hentry).2).mpr hdistinct⟩

def extractTexts (options : Options) (texts : List String) : Option Schema := do
  let sources ← (texts.mapM parse).toOption
  (extract options sources).result.toOption

theorem exists_sources_of_extractTexts {options : Options} {texts : List String}
    {schema : Schema} (h : extractTexts options texts = some schema) :
    ∃ sources, texts.mapM parse = .ok sources ∧ (extract options sources).result = .ok schema := by
  obtain ⟨sources, hsources, hschema⟩ := Option.bind_eq_some_iff.mp h
  refine ⟨sources, ?_, ?_⟩
  · cases hparse : texts.mapM parse with
    | error failure =>
      rw [hparse] at hsources
      cases hsources
    | ok found =>
      rw [hparse] at hsources
      cases hsources
      rfl
  · cases hresult : (extract options sources).result with
    | error fault =>
      rw [hresult] at hschema
      cases hschema
    | ok found =>
      rw [hresult] at hschema
      cases hschema
      rfl

def colorUnion (green red : Option String) : UnionDef :=
  { direction := .both, doc := none, discriminator := none, unknownHandling := none
    variants := .ofList
      [("green", { VariantDef.ofPayload .unit with tag := green }),
        ("red", { VariantDef.ofPayload .unit with tag := red })] }

def colorSchema (green red : Option String) : Schema :=
  { version := schemaVersion, provider := "paint"
    types := .ofList [("Color", .union (colorUnion green red))] }

def paintOptions : Options :=
  { provider := "paint", fallbackCase := "futureProof", strictness := .strict }

/-- Numbers tell the colors apart. -/
theorem verify_extracted_numberedColors :
    ∃ sources, ["enum Color: Int, Codable { case red, green }"].mapM parse = .ok sources ∧
      (extract paintOptions sources).result = .ok (colorSchema (some "1") (some "0")) ∧
      (∀ entry ∈ (colorSchema (some "1") (some "0")).types.entries,
        entry.1 ∉ reservedNames ∧ DefinitionDistinct entry.2) ∧
      verify (colorSchema (some "1") (some "0")) = .ok () := by
  obtain ⟨sources, hparse, hextract⟩ := exists_sources_of_extractTexts
    (show extractTexts paintOptions ["enum Color: Int, Codable { case red, green }"] =
      some (colorSchema (some "1") (some "0")) by decide +kernel)
  have hunits : ∀ entry ∈ (colorUnion (some "1") (some "0")).variants.entries,
      entry.2.payload = .unit := by decide +kernel
  have hdistinct : ∀ entry ∈ (colorSchema (some "1") (some "0")).types.entries,
      entry.1 ∉ reservedNames ∧ DefinitionDistinct entry.2 := by
    intro entry hentry
    rw [List.mem_singleton.mp hentry]
    refine ⟨by decide +kernel, by simp [colorUnion], ?_, by decide +kernel, by decide +kernel,
      by decide +kernel, by decide +kernel⟩
    intro entry hentry fields hfields
    rw [hunits entry hentry] at hfields
    cases hfields
  exact ⟨sources, hparse, hextract, hdistinct,
    (verify_extracted_iff hparse hextract).mpr hdistinct⟩

/-- Without numbers nothing on the wire tells them apart. They are extracted even in strict
mode, and the schema is refused. -/
theorem verify_extracted_bareColors :
    ∃ sources, ["enum Color: Codable { case red, green }"].mapM parse = .ok sources ∧
      (extract paintOptions sources).result = .ok (colorSchema none none) ∧
      verify (colorSchema none none) ≠ .ok () := by
  obtain ⟨sources, hparse, hextract⟩ := exists_sources_of_extractTexts
    (show extractTexts paintOptions ["enum Color: Codable { case red, green }"] =
      some (colorSchema none none) by decide +kernel)
  exact ⟨sources, hparse, hextract, by decide +kernel⟩

end Extraction

end WireSchema
