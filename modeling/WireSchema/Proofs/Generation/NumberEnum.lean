import WireSchema.Proofs.Generation.Sources
import WireSchema.Proofs.Schema.RawValues
import WireSchema.Proofs.Swift.NumberText
import WireSchema.Proofs.Verification.Accepted

/-!
# Numbered enums in generated code as declarations

A union whose tags are numbers is read as one declaration: its tags start with numbers to
the parser too, which are the raw values of its cases, and so does what the fallback has for
a tag.
-/

namespace WireSchema.Generation

open Swift
open Text (isIdentifier)

/-! ## Tags that are numbers -/

theorem exists_isSignedNumber_decimal (n : Int) :
    ∃ negative number, IsSignedNumber (Number.decimal n).toList negative number := by
  have hchars (m : Nat) : IsNumberText (Number.natDigits m) := fun c hc =>
    mem_numberChars_of_isDigit (Number.isDigit_of_mem_natDigits hc)
  have hdigit (m : Nat) : (Number.natDigits m).head?.any Char.isDigit = true := by
    obtain ⟨c, later, hdigits⟩ := List.exists_cons_of_ne_nil (Number.natDigits_ne_nil m)
    rw [hdigits]
    exact Number.isDigit_of_mem_natDigits (hdigits ▸ List.mem_cons_self)
  rw [Number.decimal, String.toList_ofList]
  cases n with
  | ofNat n => exact ⟨false, _, rfl, hdigit n, hchars n⟩
  | negSucc n => exact ⟨true, _, rfl, hdigit (n + 1), hchars (n + 1)⟩

theorem exists_isSignedNumber_of_isIntTag {tag : String} (h : RawKind.isIntTag tag = true) :
    ∃ negative number, IsSignedNumber tag.toList negative number := by
  obtain ⟨n, -, rfl⟩ := RawKind.isIntTag_iff.mp h
  exact exists_isSignedNumber_decimal n

theorem exists_isSignedNumber_of_isFloatTag {tag : String} (h : RawKind.isFloatTag tag = true) :
    ∃ negative number, IsSignedNumber tag.toList negative number := by
  unfold RawKind.isFloatTag at h
  simp only [Bool.and_eq_true] at h
  obtain ⟨⟨⟨hdigit, -⟩, hall⟩, -⟩ := h
  have hchars : IsNumberText ((Text.stripStart? ['-'] tag.toList).getD tag.toList) := by
    intro c hc
    have hinner := List.all_eq_true.mp hall c hc
    simp only [Bool.or_eq_true, beq_iff_eq] at hinner
    rcases hinner with ((((hdigit | rfl) | rfl) | rfl) | rfl) | rfl
    · exact mem_numberChars_of_isDigit hdigit
    all_goals decide
  cases hstrip : Text.stripStart? ['-'] tag.toList with
  | some number =>
    rw [hstrip, Option.getD_some] at hdigit hchars
    exact ⟨true, number, Text.eq_append_of_stripStart? hstrip, hdigit, hchars⟩
  | none =>
    rw [hstrip, Option.getD_none] at hdigit hchars
    exact ⟨false, tag.toList, rfl, hdigit, hchars⟩

/-- A tag that is a number is a number to the parser, at least at its start. -/
theorem exists_isSignedNumber_of_ofTag? {tag : String} (h : (RawKind.ofTag? tag).isSome = true) :
    ∃ negative number, IsSignedNumber tag.toList negative number := by
  unfold RawKind.ofTag? at h
  split at h
  · next hint => exact exists_isSignedNumber_of_isIntTag hint
  · split at h
    · next hfloat => exact exists_isSignedNumber_of_isFloatTag hfloat
    · cases h

/-- Each variant but the fallback is tagged with a number. -/
theorem isSome_rawKindOf?_of_rawValueType {d : UnionDef} {raw : RawKind}
    (h : d.rawValueType = some raw) {entry : String × VariantDef}
    (hentry : entry ∈ numberedVariants d) : (UnionDef.rawKindOf? entry.2).isSome = true := by
  have hnumbered : d.IsNumbered := UnionDef.isSome_rawValueType_iff.mp (by rw [h]; rfl)
  obtain ⟨hmem, hown⟩ := List.mem_filter.mp hentry
  exact UnionDef.isSome_rawKindOf?_iff.mpr (hnumbered.numbers entry hmem (by simpa using hown))

theorem exists_isSignedNumber_of_rawKindOf? {variant : VariantDef}
    (h : (UnionDef.rawKindOf? variant).isSome = true) (name : String) :
    ∃ negative number, IsSignedNumber (variant.wireTag name).toList negative number := by
  obtain ⟨-, tag, htag, hkind⟩ := UnionDef.isSome_rawKindOf?_iff.mp h
  rw [VariantDef.wireTag, htag]
  exact exists_isSignedNumber_of_ofTag? hkind

theorem isUnit_of_rawKindOf? {variant : VariantDef}
    (h : (UnionDef.rawKindOf? variant).isSome = true) : variant.isUnit = true :=
  beq_iff_eq.mpr (UnionDef.isSome_rawKindOf?_iff.mp h).1

/-! ## Lines read as items -/

/-- Lines that are read as items of a body with the outline. -/
def ReadsItems (lines : List String) (o : Outline) : Prop :=
  ∃ faces, SpellsLines lines faces ∧ ReadsBody faces o ∧
    (faces = [] ∨ faces.head?.any startsItem = true)

structure TaggedCase where
  doc : Option String
  name : String
  tag : String

/-- What the case is read as, with the number that its tag starts with. -/
def TaggedCase.enumCase (c : TaggedCase) : EnumCase :=
  { Swift.enumCase (docTexts c.doc) c.name [] none with
    rawValue := some (.number (rawLiteralOf c.tag)) }

def fallbackFunctions (direction : Direction) (rawType : String) (fallback : Option String) :
    List FunctionOutline :=
  fallback.toList.flatMap fun fallback =>
    if direction.allowsDecode then [⟨"init", some "from", rawValueBodyFaces rawType fallback⟩]
    else []

namespace ReadsItems

theorem nil : ReadsItems [] .empty :=
  ⟨[], .nil, .nil, .inl rfl⟩

theorem append {a b : List String} {o o' : Outline} (ha : ReadsItems a o) (hb : ReadsItems b o') :
    ReadsItems (a ++ b) (o ++ o') := by
  obtain ⟨fs, hfs, hreads, hstart⟩ := ha
  obtain ⟨gs, hgs, hreads', hstart'⟩ := hb
  refine ⟨fs ++ gs, hfs.append hgs, hreads.append hreads' hstart', ?_⟩
  cases fs with
  | nil => exact hstart'
  | cons face fs => exact .inr (hstart.resolve_left (List.cons_ne_nil _ _))

theorem flatMap {α : Type} {as : List α} {lines : α → List String} {o : α → Outline}
    (h : ∀ a ∈ as, ReadsItems (lines a) (o a)) :
    ReadsItems (as.flatMap lines) (.flatten (as.map o)) := by
  induction as with
  | nil => exact nil
  | cons a later ih =>
    exact (h a List.mem_cons_self).append (ih fun b hb => h b (List.mem_cons_of_mem a hb))

/-- A case with a number. -/
theorem numberCase (doc : Option String) {name tag : String} (hname : isIdentifier name = true)
    (htag : ∃ negative number, IsSignedNumber tag.toList negative number) :
    ReadsItems (docLines "    " doc ++ ["    case " ++ identifier name ++ " = " ++ tag])
      (.ofCases [TaggedCase.enumCase ⟨doc, name, tag⟩]) := by
  obtain ⟨negative, number, hnumber⟩ := htag
  have hdocs : SpellsLines (docLines "    " doc) _ := spellsLines_docLines rfl doc
  have hcase : Spells breaksSymbol "    case " [.word "case"] := spells_constant rfl rfl
  have hequals : Spells breaksSymbol " = " [.symbol "="] := spells_constant rfl rfl
  have hfront := (spells_constant_identifier hcase hname).append hequals rfl
  obtain ⟨skipped, hskipped, hline⟩ := spellsLines_number hfront hnumber
  have hreads := readsBody_numberCase (docTexts doc) name negative hnumber.leadingNumber_ne
    fun face hface => (hskipped face hface).isPassedOver
  have hliteral : rawLiteralOf tag =
      signedText negative (String.ofList (leadingNumber number)) := by
    rw [rawLiteralOf, hnumber.splitMinus_eq]
  rw [TaggedCase.enumCase, hliteral]
  refine ⟨_, ?_, hreads, .inr (head?_headingFaces_startsItem (.inr rfl) _)⟩
  have hlines := hdocs.append hline
  simpa [headingFaces] using hlines

/-- The decoder of an enum with a fallback. -/
theorem fallbackDecoder (direction : Direction) {rawType : String} {fallback : Option String}
    (hraw : isIdentifier rawType = true) (hfallback : ∀ name ∈ fallback, isIdentifier name = true) :
    ReadsItems (Generation.fallbackDecoder direction rawType fallback)
      ⟨[], [], fallbackFunctions direction rawType fallback, []⟩ := by
  have hspells : SpellsLines (Generation.fallbackDecoder direction rawType fallback) _ :=
    spellsLines_fallbackDecoder hraw hfallback
  unfold fallbackDecoderFaces at hspells
  unfold fallbackFunctions
  cases fallback with
  | none => exact ⟨[], hspells, .nil, .inl rfl⟩
  | some name =>
    cases hdecode : direction.allowsDecode with
    | false =>
      rw [hdecode] at hspells
      exact ⟨[], hspells, .nil, .inl rfl⟩
    | true =>
      rw [hdecode] at hspells
      exact ⟨_, hspells, readsBody_rawValueDecoderFaces hraw (hfallback name rfl), .inr rfl⟩

end ReadsItems

/-! ## Numbered enums -/

def rawPrimitive : RawKind → Primitive
  | .int => .int
  | .float => .float

def taggedVariant (entry : String × VariantDef) : TaggedCase :=
  ⟨entry.2.doc, entry.1, entry.2.wireTag entry.1⟩

def taggedFallback (d : UnionDef) (fallback : String) : TaggedCase :=
  ⟨(d.variants.get? fallback).bind VariantDef.doc, fallback, Number.decimal (fallbackRawValue d)⟩

/-- The cases that a numbered enum is written with, the fallback last. -/
def taggedCases (d : UnionDef) : List TaggedCase :=
  (numberedVariants d).map taggedVariant ++ d.fallbackVariant.toList.map (taggedFallback d)

def numberedOutline (d : UnionDef) (raw : RawKind) : Outline where
  properties := []
  cases := (taggedCases d).map TaggedCase.enumCase
  functions := fallbackFunctions d.direction (rawTypeName raw) d.fallbackVariant
  types := []

theorem readsItems_numberedEnum {d : UnionDef} {raw : RawKind} (h : Verification.UnionAccepted d)
    (hraw : d.rawValueType = some raw)
    (hfallback : ∀ name ∈ d.fallbackVariant, isIdentifier name = true) :
    ReadsItems (((numberedVariants d).flatMap fun entry => numberedCaseLines entry.1 entry.2) ++
        numberedFallbackLines d ++ fallbackDecoder d.direction (rawTypeName raw) d.fallbackVariant)
      (numberedOutline d raw) := by
  have hidentifiers : ∀ entry ∈ numberedVariants d, isIdentifier entry.1 = true :=
    fun entry hentry => h.variants.identifiers entry (List.mem_filter.mp hentry).1
  have hcases : ReadsItems ((numberedVariants d).flatMap fun entry =>
      numberedCaseLines entry.1 entry.2)
        (.ofCases ((numberedVariants d).map fun entry => (taggedVariant entry).enumCase)) := by
    rw [← Outline.flatten_ofCases]
    exact .flatMap fun entry hentry => .numberCase entry.2.doc (hidentifiers entry hentry)
      (exists_isSignedNumber_of_rawKindOf? (isSome_rawKindOf?_of_rawValueType hraw hentry) entry.1)
  have hadded : ReadsItems (numberedFallbackLines d)
      (.ofCases (d.fallbackVariant.toList.map fun fallback =>
        (taggedFallback d fallback).enumCase)) := by
    unfold numberedFallbackLines
    cases hfall : d.fallbackVariant with
    | none => exact .nil
    | some fallback =>
      exact .numberCase _ (hfallback fallback hfall) (exists_isSignedNumber_decimal _)
  have hdecoder : ReadsItems (fallbackDecoder d.direction (rawTypeName raw) d.fallbackVariant) _ :=
    .fallbackDecoder d.direction (by cases raw <;> decide) hfallback
  have hitems := (hcases.append hadded).append hdecoder
  simpa [Outline.append_eq, Outline.ofCases, numberedOutline, taggedCases, Function.comp_def]
    using hitems

/-- A generated numbered enum is one declaration. -/
theorem readsSource_numberedEnum {namer : Namer} {name : String} {d : UnionDef} {raw : RawKind}
    (hname : isIdentifier (namer.typeName name) = true) (h : Verification.UnionAccepted d)
    (hraw : d.rawValueType = some raw)
    (hfallback : ∀ name ∈ d.fallbackVariant, isIdentifier name = true) :
    ∃ body, SpellsLines (numberedEnumLines namer name d raw)
        (typeDeclFaces (docTexts d.doc) .enum (namer.typeName name)
          (.primitive (rawPrimitive raw) :: conformances d.direction) body) ∧
      ReadsSource (typeDeclFaces (docTexts d.doc) .enum (namer.typeName name)
          (.primitive (rawPrimitive raw) :: conformances d.direction) body)
        [.type (typeHeader (docTexts d.doc) .enum (namer.typeName name)
          (.primitive (rawPrimitive raw) :: conformances d.direction)) (numberedOutline d raw)] := by
  obtain ⟨body, hbody, hreads, -⟩ := readsItems_numberedEnum h hraw hfallback
  refine ⟨body, ?_, ?_⟩
  · have hdocs : SpellsLines (docLines "" d.doc) _ := spellsLines_docLines rfl d.doc
    have henum : Spells breaksSymbol "public enum " [.word "public", .word "enum"] :=
      spells_constant rfl rfl
    have hcolon : Spells breaksSymbol ": " [.symbol ":"] := spells_constant rfl rfl
    have hcomma : Spells breaksSymbol ", " [.symbol ","] := spells_constant rfl rfl
    have hrawName : isIdentifier (rawTypeName raw) = true := by cases raw <;> decide
    have hnamed := (henum.append (spells_name hname) (head?_name hname)).append hcolon rfl
    have htyped := (hnamed.append (spells_name hrawName) (head?_name hrawName)).append hcomma rfl
    have hheader := (htyped.append (spells_conformances d.direction)
      (head?_conformances d.direction)).line rfl
    have hclose : SpellsLines ["\x7d"] [.symbol "\x7d"] := .constant rfl
    have hlines := ((hdocs.append hheader).append hbody).append hclose
    have hprimitive : primitiveText (rawPrimitive raw) = rawTypeName raw := by cases raw <;> rfl
    rw [typeDeclFaces, bodyFaces, commaFaces_rawType, hprimitive]
    simpa [numberedEnumLines, headingFaces, DeclKind.keyword, String.append_assoc] using hlines
  · refine readsSource_type (docTexts d.doc) _ (by decide) (by simp) (fun t ht => ?_) hreads
    rcases List.mem_cons.mp ht with rfl | ht
    · exact standsAlone_primitive (rawPrimitive raw)
    · exact standsAlone_of_mem_conformances t ht

end WireSchema.Generation
