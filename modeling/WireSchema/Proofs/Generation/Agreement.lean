import WireSchema.Proofs.Generation.Forms
import WireSchema.Proofs.Schema.RawValues

/-!
# Generated code and agreement

Agreement forgets how a field is made optional, whether a variant is tagged with its own
name, and whether unknown values are rejected explicitly. In accepted schemas the generator
sees these only through what agreement compares. So schemas that agree give the same files.
-/

namespace WireSchema

/-! ## Entries that agree -/

section Entries

variable {α β : Type} {agree : String → α → α → Bool} {as bs : List (String × α)}

/-- What is made of entries that agree is the same if it is the same for any two values that
agree. -/
theorem map_eq_of_entriesAgree (h : entriesAgree agree as bs = true) {f g : String × α → β}
    (hvalues : ∀ name a b, (name, a) ∈ as → (name, b) ∈ bs → agree name a b = true →
      f (name, a) = g (name, b)) : as.map f = bs.map g := by
  fun_induction entriesAgree agree as bs with
  | case1 => rfl
  | case2 first as other bs ih =>
    obtain ⟨name, a⟩ := first
    obtain ⟨name', b⟩ := other
    simp only [Bool.and_eq_true, beq_iff_eq] at h
    obtain ⟨⟨rfl, hfirst⟩, hlater⟩ := h
    rw [List.map_cons, List.map_cons,
      hvalues name a b List.mem_cons_self List.mem_cons_self hfirst,
      ih hlater fun name a b ha hb =>
        hvalues name a b (List.mem_cons_of_mem _ ha) (List.mem_cons_of_mem _ hb)]
  | case3 => cases h

theorem names_eq_of_entriesAgree (h : entriesAgree agree as bs = true) :
    as.map Prod.fst = bs.map Prod.fst :=
  map_eq_of_entriesAgree h fun _ _ _ _ _ _ => rfl

theorem entriesAgree_filter (h : entriesAgree agree as bs = true) (p : String → Bool) :
    entriesAgree agree (as.filter fun entry => p entry.1) (bs.filter fun entry => p entry.1) =
      true := by
  fun_induction entriesAgree agree as bs with
  | case1 => rfl
  | case2 a as b bs ih =>
    simp only [Bool.and_eq_true, beq_iff_eq] at h
    obtain ⟨⟨hname, hfirst⟩, hlater⟩ := h
    rw [List.filter_cons, List.filter_cons, ← hname]
    split
    · simp [entriesAgree, hname, hname ▸ hfirst, ih hlater]
    · exact ih hlater
  | case3 => cases h

theorem get?_map_eq_of_entriesAgree {a b : NameMap α}
    (h : entriesAgree agree a.entries b.entries = true) {f : α → β}
    (hvalues : ∀ name x y, agree name x y = true → f x = f y) (name : String) :
    (a.get? name).map f = (b.get? name).map f := by
  have hfiltered := map_eq_of_entriesAgree (entriesAgree_filter h (· == name))
    (f := fun entry => f entry.2) (g := fun entry => f entry.2)
    fun name x y _ _ hagree => hvalues name x y hagree
  have hhead := congrArg List.head? hfiltered
  simpa [NameMap.get?, List.head?_map, Function.comp_def] using hhead

end Entries

/-! ## Fields and payloads -/

theorem FieldDef.agrees_iff {a b : FieldDef} :
    a.agrees b = true ↔
      a.canonicalType = b.canonicalType ∧ a.wireName = b.wireName ∧ a.doc = b.doc := by
  simp [agrees, and_assoc]

theorem FieldDef.foldedType_eq_of_canonicalType {a b : FieldDef} {s t : TypeExpr}
    (hs : TypeExpr.parse a.type = .ok s) (ht : TypeExpr.parse b.type = .ok t)
    (h : a.canonicalType = b.canonicalType) : a.foldedType s = b.foldedType t := by
  have hcanonical := parse_canonicalType hs
  rw [h, parse_canonicalType ht] at hcanonical
  exact (Except.ok.inj hcanonical).symm

theorem VariantDef.agrees_iff {name : String} {a b : VariantDef} :
    a.agrees name b = true ↔
      a.wireTag name = b.wireTag name ∧ a.payload.agrees b.payload = true ∧
        a.literal = b.literal ∧ a.doc = b.doc := by
  simp [agrees, and_assoc]

theorem VariantDef.isUnit_eq_of_agrees {name : String} {a b : VariantDef}
    (h : a.agrees name b = true) : a.isUnit = b.isUnit := by
  obtain ⟨-, hpayload, -, -⟩ := agrees_iff.mp h
  revert hpayload
  unfold isUnit
  cases a.payload <;> cases b.payload <;> simp [VariantPayload.agrees]

namespace Generation.Namer

open Verification

variable (namer : Namer)

theorem fieldForm_eq_of_agrees {a b : FieldDef} (ha : DenotesType a.type)
    (hb : DenotesType b.type) (h : a.agrees b = true) (name : String) :
    namer.fieldForm (name, a) = namer.fieldForm (name, b) := by
  obtain ⟨htype, hwire, hdoc⟩ := FieldDef.agrees_iff.mp h
  have hfolded := FieldDef.foldedType_eq_of_canonicalType (parse_eq_denoted ha)
    (parse_eq_denoted hb) htype
  have hoptional : a.isOptional = b.isOptional := by
    rw [← FieldDef.isOptional_foldedType (parse_eq_denoted ha), hfolded,
      FieldDef.isOptional_foldedType (parse_eq_denoted hb)]
  simp only [fieldForm, hfolded, hoptional, FieldDef.effectiveWireName, hwire, hdoc]

theorem fieldForms_eq_of_agree {a b : NameMap FieldDef}
    (ha : ∀ entry ∈ a.entries, DenotesType entry.2.type)
    (hb : ∀ entry ∈ b.entries, DenotesType entry.2.type) (h : fieldsAgree a b = true) :
    a.entries.map namer.fieldForm = b.entries.map namer.fieldForm :=
  map_eq_of_entriesAgree h fun name x y hx hy hagree =>
    fieldForm_eq_of_agrees namer (ha (name, x) hx) (hb (name, y) hy) hagree name

theorem payloadForm_eq_of_agrees {a b : VariantPayload}
    (ha : a.All FieldDef.WellTyped DenotesType) (hb : b.All FieldDef.WellTyped DenotesType)
    (h : a.agrees b = true) : namer.payloadForm a = namer.payloadForm b := by
  cases a with
  | unit => cases b <;> first | rfl | cases h
  | wrapped s =>
    cases b with
    | wrapped t => rw [beq_iff_eq.mp h]
    | _ => cases h
  | inline fields =>
    cases b with
    | inline others =>
      have hforms := fieldForms_eq_of_agree namer ha hb h
      have hempty : fields.isEmpty = others.isEmpty := by
        simpa [NameMap.isEmpty] using congrArg List.isEmpty hforms
      rw [payloadForm, payloadForm, hempty, hforms]
    | _ => cases h

theorem variantForm_eq_of_agrees {c d : UnionDef}
    (hfallback : c.fallbackVariant = d.fallbackVariant) {name : String} {a b : VariantDef}
    (ha : a.payload.All FieldDef.WellTyped DenotesType)
    (hb : b.payload.All FieldDef.WellTyped DenotesType) (h : a.agrees name b = true) :
    namer.variantForm c (name, a) = namer.variantForm d (name, b) := by
  obtain ⟨htag, hpayload, hliteral, hdoc⟩ := VariantDef.agrees_iff.mp h
  simp only [variantForm, htag, payloadForm_eq_of_agrees namer ha hb hpayload, hliteral, hdoc,
    UnionDef.isFallback, hfallback]

end Generation.Namer

/-! ## Unions -/

namespace UnionDef

theorem agrees_iff {c d : UnionDef} :
    c.agrees d = true ↔
      c.direction = d.direction ∧ c.doc = d.doc ∧ c.discriminator = d.discriminator ∧
        c.fallbackVariant = d.fallbackVariant ∧
        entriesAgree VariantDef.agrees c.variants.entries d.variants.entries = true := by
  simp [agrees, and_assoc]

/-- Of a variant that is a number on the wire nothing is left to its name. -/
theorem rawKindOf?_eq_ofTag?_wireTag {name : String} (h : Text.isIdentifier name = true)
    (variant : VariantDef) :
    rawKindOf? variant =
      if variant.isUnit then RawKind.ofTag? (variant.wireTag name) else none := by
  unfold rawKindOf? VariantDef.wireTag
  cases variant.tag with
  | none => simp [RawKind.ofTag?_eq_none_of_isIdentifier h]
  | some tag => rfl

theorem rawValueType_eq_of_agrees {c d : UnionDef}
    (hnames : ∀ entry ∈ c.variants.entries, Text.isIdentifier entry.1 = true)
    (h : c.agrees d = true) : c.rawValueType = d.rawValueType := by
  obtain ⟨-, -, hdisc, hfallback, hvariants⟩ := agrees_iff.mp h
  have hown := entriesAgree_filter hvariants fun name => !d.isFallback name
  have hkinds := map_eq_of_entriesAgree hown (f := fun entry => rawKindOf? entry.2)
    (g := fun entry => rawKindOf? entry.2) fun name a b ha _ hagree => by
      have hname : Text.isIdentifier name = true :=
        hnames (name, a) (List.mem_of_mem_filter ha)
      have htag := (VariantDef.agrees_iff.mp hagree).1
      simp only [rawKindOf?_eq_ofTag?_wireTag hname, VariantDef.isUnit_eq_of_agrees hagree, htag]
  rw [rawValueType, rawValueType, hdisc, ← hkinds]
  simp only [isFallback, hfallback]

end UnionDef

namespace Generation

open Verification

theorem unionForms_eq_of_agrees {c d : UnionDef} (hc : DefinitionAccepted (.union c))
    (hd : DefinitionAccepted (.union d)) (h : c.agrees d = true) (namer : Namer) :
    namer.unionForms c = namer.unionForms d := by
  obtain ⟨-, -, -, hfallback, hvariants⟩ := UnionDef.agrees_iff.mp h
  have hforms (p : String → Bool) :
      (c.variants.entries.filter fun entry => p entry.1).map (namer.variantForm c) =
        (d.variants.entries.filter fun entry => p entry.1).map (namer.variantForm d) :=
    map_eq_of_entriesAgree (entriesAgree_filter hvariants p) fun name a b ha hb hagree =>
      Namer.variantForm_eq_of_agrees namer hfallback
        (wellTyped_of_accepted hc _ (List.mem_of_mem_filter ha))
        (wellTyped_of_accepted hd _ (List.mem_of_mem_filter hb)) hagree
  have hisFallback : c.isFallback = d.isFallback := by
    funext name
    rw [UnionDef.isFallback, UnionDef.isFallback, hfallback]
  simp only [Namer.unionForms, orderedVariants, List.map_append, hisFallback,
    hforms (fun name => !d.isFallback name), hforms d.isFallback]

theorem numberedEnumLines_eq_of_agrees {c d : UnionDef} (h : c.agrees d = true) (namer : Namer)
    (name : String) (raw : RawKind) :
    numberedEnumLines namer name c raw = numberedEnumLines namer name d raw := by
  obtain ⟨hdirection, hdoc, -, hfallback, hvariants⟩ := UnionDef.agrees_iff.mp h
  have hown : entriesAgree VariantDef.agrees (numberedVariants c) (numberedVariants d) = true := by
    have hfiltered := entriesAgree_filter hvariants fun name => !c.isFallback name
    simpa only [numberedVariants, UnionDef.isFallback, hfallback] using hfiltered
  have htags := map_eq_of_entriesAgree hown (f := fun entry => entry.2.wireTag entry.1)
    (g := fun entry => entry.2.wireTag entry.1)
    fun _ _ _ _ _ hagree => (VariantDef.agrees_iff.mp hagree).1
  have hcases := map_eq_of_entriesAgree hown (f := fun entry => numberedCaseLines entry.1 entry.2)
    (g := fun entry => numberedCaseLines entry.1 entry.2) fun _ _ _ _ _ hagree => by
      obtain ⟨htag, -, -, hdoc⟩ := VariantDef.agrees_iff.mp hagree
      simp only [numberedCaseLines, htag, hdoc]
  have hdocs (fallback : String) : (c.variants.get? fallback).bind VariantDef.doc =
      (d.variants.get? fallback).bind VariantDef.doc := by
    have hmap := get?_map_eq_of_entriesAgree hvariants
      (fun _ _ _ hagree => (VariantDef.agrees_iff.mp hagree).2.2.2) fallback
    simpa [Option.bind_map] using congrArg (Option.bind · id) hmap
  have hlines : numberedFallbackLines c = numberedFallbackLines d := by
    simp only [numberedFallbackLines, fallbackRawValue, hfallback, htags, hdocs]
  simp only [numberedEnumLines, List.flatMap_def, hdirection, hdoc, hfallback, hcases, hlines]

theorem unionLines_eq_of_agrees {c d : UnionDef} (hc : DefinitionAccepted (.union c))
    (hd : DefinitionAccepted (.union d)) (h : c.agrees d = true) (namer : Namer) (name : String) :
    unionLines namer name c = unionLines namer name d := by
  have hraw := UnionDef.rawValueType_eq_of_agrees hc.variants.identifiers h
  cases hkind : d.rawValueType with
  | some raw =>
    simp only [unionLines, hraw.trans hkind, hkind, numberedEnumLines_eq_of_agrees h]
  | none =>
    obtain ⟨hdirection, hdoc, hdisc, hfallback, -⟩ := UnionDef.agrees_iff.mp h
    have hbody (typeName : String) (forms : List VariantForm) :
        unionBody typeName c forms = unionBody typeName d forms := by
      simp only [unionBody, taggedBody, untaggedBody, hdisc, hdirection, hfallback]
    rw [unionLines_eq_ok hc (hraw.trans hkind), unionLines_eq_ok hd hkind,
      unionForms_eq_of_agrees hc hd h, hbody, hdirection, hdoc]

/-! ## Definitions and schemas -/

theorem definitionLines_eq_of_agrees {a b : TypeDef} (ha : DefinitionAccepted a)
    (hb : DefinitionAccepted b) (h : a.agrees b = true) (namer : Namer) (name : String) :
    definitionLines namer name a = definitionLines namer name b := by
  cases a <;> cases b <;> try cases h
  case struct.struct c d =>
    simp only [TypeDef.agrees, StructDef.agrees, Bool.and_eq_true, beq_iff_eq] at h
    obtain ⟨⟨hdirection, hdoc⟩, hfields⟩ := h
    have hforms := Namer.fieldForms_eq_of_agree namer (fieldsWellTyped_of_accepted ha)
      (fieldsWellTyped_of_accepted hb) hfields
    simp only [definitionLines, structLines,
      Namer.resolveFields_eq_ok namer (fieldsWellTyped_of_accepted ha),
      Namer.resolveFields_eq_ok namer (fieldsWellTyped_of_accepted hb), hforms, hdirection, hdoc]
  case stringEnum.stringEnum c d =>
    simp only [TypeDef.agrees, StringEnumDef.agrees, Bool.and_eq_true, beq_iff_eq] at h
    obtain ⟨⟨⟨hdirection, hdoc⟩, hfallback⟩, hvalues⟩ := h
    simp only [definitionLines, stringEnumLines, addedCase, hdirection, hdoc, hfallback, hvalues]
  case union.union c d => exact unionLines_eq_of_agrees ha hb h namer name
  case typeAlias.typeAlias c d => rw [beq_iff_eq.mp h]

theorem renderTypes_eq_of_agree {as bs : List (String × TypeDef)}
    (ha : ∀ entry ∈ as, EntryAccepted entry) (hb : ∀ entry ∈ bs, EntryAccepted entry)
    (h : entriesAgree (fun _ => TypeDef.agrees) as bs = true) (namer : Namer) :
    renderTypes namer as = renderTypes namer bs := by
  induction as generalizing bs with
  | nil => cases bs <;> first | rfl | cases h
  | cons first as ih =>
    cases bs with
    | nil => cases h
    | cons other bs =>
      obtain ⟨name, a⟩ := first
      obtain ⟨name', b⟩ := other
      simp only [entriesAgree, Bool.and_eq_true, beq_iff_eq] at h
      obtain ⟨⟨rfl, hfirst⟩, hlater⟩ := h
      have hlines := definitionLines_eq_of_agrees (ha (name, a) List.mem_cons_self).definition
        (hb (name, b) List.mem_cons_self).definition hfirst namer name
      rw [renderTypes, renderTypes, renderType, renderType, hlines,
        ih (fun entry hentry => ha entry (List.mem_cons_of_mem _ hentry))
          (fun entry hentry => hb entry (List.mem_cons_of_mem _ hentry)) hlater]

/-- From accepted schemas that agree the same files are generated, whatever stands in front of
their names. -/
theorem generate_eq_of_agrees {a b : Schema} (ha : verify a = .ok ()) (hb : verify b = .ok ())
    (h : a.agrees b = true) (lead : String) :
    ∃ files, generate a .swift lead = .ok files ∧ generate b .swift lead = .ok files := by
  obtain ⟨files, hfiles⟩ := render_succeeds ha lead
  simp only [Schema.agrees, Bool.and_eq_true] at h
  have hnames : a.types.names = b.types.names := names_eq_of_entriesAgree h.2
  have hrender : render b lead = render a lead := by
    rw [render, render, Namer.ofSchema, Namer.ofSchema, hnames]
    exact (renderTypes_eq_of_agree (verify_eq_ok_iff.mp ha) (verify_eq_ok_iff.mp hb) h.2 _).symm
  exact ⟨files, generate_of_render ha hfiles, generate_of_render hb (hrender.trans hfiles)⟩

/-- A schema with all that agreement forgets left to choose. -/
def looseSchema (note : FieldDef) (tag : Option String) (handling : Option UnknownHandling) :
    Schema :=
  { version := schemaVersion
    provider := "shop"
    types := .ofList
      [("Cart", .struct { direction := .both, doc := none, fields := .ofList [("note", note)] }),
        ("Event", .union
          { direction := .decode, doc := none, discriminator := some ⟨"type", .wrapped⟩
            unknownHandling := handling
            variants := .ofList [("opened", ⟨tag, .wrapped "Cart", none, none⟩)] })] }

theorem generate_eq_of_agrees_looseSchema :
    let tight := looseSchema ⟨"string?", none, true, none⟩ none none
    let loose := looseSchema ⟨"string ", none, false, none⟩ (some "opened") (some .error)
    tight ≠ loose ∧ verify tight = .ok () ∧ verify loose = .ok () ∧ tight.agrees loose = true ∧
      ∃ files, generate tight .swift "Shop" = .ok files ∧
        generate loose .swift "Shop" = .ok files := by
  intro tight loose
  have htight : verify tight = .ok () := by decide +kernel
  have hloose : verify loose = .ok () := by decide +kernel
  have hagrees : tight.agrees loose = true := by decide +kernel
  exact ⟨by decide +kernel, htight, hloose, hagrees,
    generate_eq_of_agrees htight hloose hagrees "Shop"⟩

end Generation

end WireSchema
