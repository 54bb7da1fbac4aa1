import WireSchema.Proofs.Extraction.RoundTrip
import WireSchema.Proofs.Generation.FallbackNumber
import WireSchema.Proofs.Generation.LastingTags
import WireSchema.Proofs.Generation.References
import WireSchema.Proofs.Number.Reduced

/-!
# Raw values of generated enums

Verification compares the texts that stand in a schema. The fallback case of a string enum
comes to them afterwards, with its own name for its string, and in an enum of doubles different
texts may be one number. Apart from these two, the raw values of an enum are distinct.
-/

namespace WireSchema.Generation

open Extraction (codingKeyWire)
open Number (Decimal)
open Swift
open Text (isIdentifier)
open Verification

/-! ## Strings -/

variable {namer : Namer} {name : String}

/-- The cases of a string enum have in code the strings that are given for them, and the fallback
that is added has its own name. -/
theorem exists_decl_stringEnum {d : StringEnumDef} (haccepted : EntryAccepted (name, .stringEnum d))
    (hname : isIdentifier (namer.typeName name) = true) :
    ∃ file decl, renderType namer name (.stringEnum d) = .ok file ∧
      parse file.content = .ok [.type decl] ∧
      (casesOf decl.members).map (fun case_ => (case_.name, codingKeyWire case_)) =
        stringEntries d := by
  have hvalues : StringEnumAccepted d := haccepted.definition
  obtain ⟨decl, houtline, hparse⟩ := Extraction.exists_decl_of_parse
    (parse_stringEnum hname hvalues.values.identifiers hvalues.fallback)
  obtain ⟨typeDecl, rfl, -, hmembers⟩ := Extraction.exists_type_of_outline houtline
  refine ⟨_, typeDecl, renderType_of_lines rfl, hparse, ?_⟩
  have hcases : (casesOf typeDecl.members).map EnumCase.unplaced = stringCases (stringEntries d) :=
    congrArg Outline.cases hmembers
  -- Where a case stands has no part in its name and its raw value.
  have hpairs : (casesOf typeDecl.members).map (fun case_ => (case_.name, codingKeyWire case_)) =
      ((casesOf typeDecl.members).map EnumCase.unplaced).map
        fun case_ => (case_.name, codingKeyWire case_) := by
    rw [List.map_map]
    rfl
  rw [hpairs, hcases, Extraction.map_codingKeyWire_stringCases]

/-- The strings are distinct exactly if the fallback that is added is not one of them. -/
theorem nodup_stringEntries_iff {d : StringEnumDef} (hvalues : ValuesAccepted d.values.entries) :
    ((stringEntries d).map Prod.snd).Nodup ↔
      ∀ fallback ∈ d.fallbackCase, d.values.contains fallback = false →
        fallback ∉ d.values.entries.map Prod.snd := by
  have hdistinct := hvalues.distinct
  unfold stringEntries
  cases d.fallbackCase with
  | none => simpa using hdistinct
  | some fallback =>
    cases hknown : d.values.contains fallback with
    | true => simpa [hknown] using hdistinct
    | false =>
      rw [Option.toList_some, List.filter_cons_of_pos (by simp [hknown]), List.filter_nil,
        List.map_singleton, List.map_append, List.map_singleton, List.nodup_append']
      simp [hdistinct, hknown, List.disjoint_singleton]

/-! ## Numbers -/

def writtenTags (d : UnionDef) : List String :=
  (numberedVariants d).map fun entry => entry.2.wireTag entry.1

def writtenCases (d : UnionDef) : List String :=
  (numberedVariants d).map fun entry =>
    "    case " ++ identifier entry.1 ++ " = " ++ entry.2.wireTag entry.1

/-- The cases with their tags are among the lines, in their order. -/
theorem sublist_numberedEnumLines (namer : Namer) (name : String) (d : UnionDef) (raw : RawKind) :
    List.Sublist (writtenCases d) (numberedEnumLines namer name d raw) := by
  have hcases : List.Sublist (writtenCases d)
      ((numberedVariants d).flatMap fun entry => numberedCaseLines entry.1 entry.2) := by
    rw [writtenCases, List.map_eq_flatMap]
    exact .flatMap_right _ fun entry _ => List.sublist_append_right (docLines "    " entry.2.doc) _
  unfold numberedEnumLines
  refine List.Sublist.trans ?_ (List.sublist_append_left _ _)
  refine List.Sublist.trans ?_ (List.sublist_append_left _ _)
  refine List.Sublist.trans ?_ (List.sublist_append_left _ _)
  exact hcases.trans (List.sublist_append_right _ _)

/-- The exact number that a tag denotes. -/
def tagValue? (tag : String) : Option ℚ :=
  (Decimal.read? tag.toList).map Decimal.value

/-- The one spelling of this number without zeros at either end. -/
def tagReduced? (tag : String) : Option Decimal :=
  (Decimal.read? tag.toList).map Decimal.reduced

theorem tagValue?_eq_iff {a b : String} :
    tagValue? a = tagValue? b ↔ tagReduced? a = tagReduced? b := by
  unfold tagValue? tagReduced?
  cases Decimal.read? a.toList <;> cases Decimal.read? b.toList <;>
    simp [Decimal.value_eq_iff]

theorem tagUnits?_eq (tag : String) :
    tagUnits? tag = (Decimal.read? tag.toList).bind fun d => d.toBinary64.units? := by
  unfold tagUnits? Number.readFinite?
  cases Decimal.read? tag.toList with
  | none => rfl
  | some d =>
    rw [Option.map_some, Option.bind_some]
    cases hdouble : d.toBinary64 <;> rfl

/-- Tags of one number are one double. -/
theorem tagUnits?_eq_of_tagValue? {a b : String} (h : tagValue? a = tagValue? b) :
    tagUnits? a = tagUnits? b := by
  rw [tagUnits?_eq, tagUnits?_eq]
  unfold tagValue? at h
  cases ha : Decimal.read? a.toList with
  | none =>
    rw [ha] at h
    rw [Option.map_eq_none_iff.mp h.symm]
  | some d =>
    rw [ha] at h
    obtain ⟨e, hb, hvalue⟩ := Option.map_eq_some_iff.mp h.symm
    rw [hb, Option.bind_some, Option.bind_some, Decimal.units?_eq_of_value_eq hvalue]

theorem nodup_map_of_imp {α β γ : Type} {f : α → β} {g : α → γ} {as : List α}
    (h : ∀ a b, g a = g b → f a = f b) (hnodup : (as.map f).Nodup) : (as.map g).Nodup :=
  List.pairwise_map.mpr ((List.pairwise_map.mp hnodup).imp fun hne hsame => hne (h _ _ hsame))

section

variable {d : UnionDef} {raw : RawKind}

theorem isSome_tagValue?_of_mem_writtenTags (hraw : d.rawValueType = some raw) {tag : String}
    (htag : tag ∈ writtenTags d) : (tagValue? tag).isSome = true := by
  obtain ⟨entry, hentry, rfl⟩ := List.mem_map.mp htag
  obtain ⟨-, tag, htag, hkind⟩ :=
    UnionDef.isSome_rawKindOf?_iff.mp (isSome_rawKindOf?_of_rawValueType hraw hentry)
  obtain ⟨double, hdouble⟩ := Option.isSome_iff_exists.mp (finite_of_ofTag? hkind).1
  obtain ⟨number, hnumber, -⟩ :=
    Option.map_eq_some_iff.mp (Option.eq_some_of_filter_eq_some hdouble)
  rw [VariantDef.wireTag, htag, Option.getD_some, tagValue?, hnumber]
  rfl

/-- Verification has compared the texts of all tags that are written. -/
theorem nodup_writtenTags (haccepted : UnionAccepted d) (hraw : d.rawValueType = some raw) :
    (writtenTags d).Nodup := by
  have hsame : numberedVariants d =
      d.variants.entries.filter fun entry => isTagged d entry.1 entry.2 := by
    refine List.filter_congr fun entry hentry => ?_
    unfold isTagged
    cases hfallback : d.isFallback entry.1 with
    | true => simp
    | false =>
      have hnumbered : entry ∈ numberedVariants d := List.mem_filter.mpr ⟨hentry, by simp [hfallback]⟩
      obtain ⟨-, tag, htag, -⟩ :=
        UnionDef.isSome_rawKindOf?_iff.mp (isSome_rawKindOf?_of_rawValueType hraw hnumbered)
      simp [htag]
  have hdistinct := haccepted.variants.distinctTags
  rwa [ownTags, ← hsame] at hdistinct

theorem tagValue?_decimal (n : Int) : tagValue? (Number.decimal n) = some (n : ℚ) := by
  have hsigned : Decimal.signed ⟨decide (n < 0), n.natAbs, 0⟩ = n := by
    simp only [Decimal.signed, decide_eq_true_eq]
    split <;> omega
  rw [tagValue?, Number.decimal, String.toList_ofList, Decimal.read?_decimalChars, Option.map_some,
    Decimal.value, hsigned, zpow_zero, mul_one]

/-- The texts of integers in plain decimal differ only if the integers do. -/
theorem nodup_tagValue?_of_int (haccepted : UnionAccepted d) (hraw : d.rawValueType = some .int) :
    ((writtenTags d).map tagValue?).Nodup := by
  have hinteger : ∀ tag ∈ writtenTags d, ∃ n, tag = Number.decimal n := by
    intro tag htag
    obtain ⟨entry, hentry, rfl⟩ := List.mem_map.mp htag
    obtain ⟨n, -, htag⟩ := UnionDef.exists_tag_of_rawValueType_int hraw hentry
    exact ⟨n, by rw [VariantDef.wireTag, htag, Option.getD_some]⟩
  refine (nodup_writtenTags haccepted hraw).map_on fun a ha b hb hsame => ?_
  obtain ⟨m, rfl⟩ := hinteger a ha
  obtain ⟨n, rfl⟩ := hinteger b hb
  rw [tagValue?_decimal, tagValue?_decimal, Option.some.injEq, Int.cast_inj] at hsame
  rw [hsame]

end

/-! ## Accepted schemas -/

/-- In the string enums of every accepted schema the raw values are distinct strings exactly if
no fallback case that is added has a string of another case for its name. In its numbered enums
the tags are distinct numbers if they are integers, and else exactly if they are so once zeros
at their ends are left out. -/
theorem generate_distinctValues_iff {schema : Schema} (hverify : verify schema = .ok ())
    {lead : String} (hlead : lead = "" ∨ isIdentifier lead = true) :
    ∃ files, generate schema .swift lead = .ok files ∧
      (∀ name d, (name, TypeDef.stringEnum d) ∈ schema.types.entries →
        ∃ file ∈ files, ∃ decl, file.fileName = fileNameOf lead name ∧
          parse file.content = .ok [.type decl] ∧
          (casesOf decl.members).map (fun case_ => (case_.name, codingKeyWire case_)) =
            stringEntries d ∧
          (((casesOf decl.members).map codingKeyWire).Nodup ↔
            ∀ fallback ∈ d.fallbackCase, d.values.contains fallback = false →
              fallback ∉ d.values.entries.map Prod.snd)) ∧
      ∀ name d raw, (name, TypeDef.union d) ∈ schema.types.entries → d.rawValueType = some raw →
        (∃ lines, ⟨fileNameOf lead name, header ++ "\n\nimport Foundation\n\n" ++
          joinLines lines⟩ ∈ files ∧ List.Sublist (writtenCases d) lines) ∧
        (∀ tag ∈ writtenTags d, (tagValue? tag).isSome = true) ∧
        (raw = .int → ((writtenTags d).map tagValue?).Nodup) ∧
        (((writtenTags d).map tagValue?).Nodup ↔ ((writtenTags d).map tagReduced?).Nodup) ∧
        (((writtenTags d).map tagUnits?).Nodup → ((writtenTags d).map tagValue?).Nodup) := by
  have haccepted := verify_eq_ok_iff.mp hverify
  obtain ⟨files, hfiles⟩ := render_succeeds hverify lead
  refine ⟨files, generate_of_render hverify hfiles, fun name d hmem => ?_,
    fun name d raw hmem hraw => ⟨?_, ?_, ?_, ?_, ?_⟩⟩
  · have hname : isIdentifier ((Namer.ofSchema lead schema).typeName name) = true :=
      isIdentifier_of_mem_codeNames hverify hlead _ (List.mem_map_of_mem (List.mem_map_of_mem hmem))
    obtain ⟨file, decl, hfile, hparse, hcases⟩ := exists_decl_stringEnum (haccepted _ hmem) hname
    have hvalues : StringEnumAccepted d := (haccepted _ hmem).definition
    refine ⟨file, mem_renderTypes hfiles hmem hfile, decl, fileName_of_renderType hfile, hparse,
      hcases, ?_⟩
    rw [← nodup_stringEntries_iff hvalues.values, ← hcases, List.map_map]
    rfl
  · have hdefinition : definitionLines (.ofSchema lead schema) name (.union d) =
        .ok (numberedEnumLines (.ofSchema lead schema) name d raw) := by
      rw [definitionLines, unionLines, hraw]
    exact ⟨_, mem_renderTypes hfiles hmem (renderType_of_lines hdefinition),
      sublist_numberedEnumLines _ name d raw⟩
  · exact fun tag htag => isSome_tagValue?_of_mem_writtenTags hraw htag
  · rintro rfl
    exact nodup_tagValue?_of_int (haccepted _ hmem).definition hraw
  · exact ⟨nodup_map_of_imp fun _ _ => tagValue?_eq_iff.mpr,
      nodup_map_of_imp fun _ _ => tagValue?_eq_iff.mp⟩
  · exact nodup_map_of_imp fun _ _ => tagUnits?_eq_of_tagValue?

def tierEnum (literal : String) : StringEnumDef :=
  { direction := .both, doc := none, unknownHandling := some (.fallback "other")
    values := .ofList [("misc", literal)] }

def scaleUnion (low high : String) : UnionDef :=
  { direction := .both, doc := none, discriminator := none, unknownHandling := none
    variants := .ofList [("high", { VariantDef.ofPayload .unit with tag := high }),
      ("low", { VariantDef.ofPayload .unit with tag := low })] }

def valuesSchema (literal low high : String) : Schema :=
  { version := schemaVersion, provider := "shop"
    types := .ofList
      [("Scale", .union (scaleUnion low high)), ("Tier", .stringEnum (tierEnum literal))] }

theorem generate_distinctValues_valuesSchema :
    verify (valuesSchema "rest" "1" "2.50") = .ok () ∧ isIdentifier "Shop" = true ∧
      ∃ files, generate (valuesSchema "rest" "1" "2.50") .swift "Shop" = .ok files ∧
        (∃ file ∈ files, ∃ decl, file.fileName = "ShopTier.swift" ∧
          parse file.content = .ok [.type decl] ∧
          (casesOf decl.members).map (fun case_ => (case_.name, codingKeyWire case_)) =
            [("misc", "rest"), ("other", "other")] ∧
          ((casesOf decl.members).map codingKeyWire).Nodup) ∧
        (scaleUnion "1" "2.50").rawValueType = some .float ∧
        (∃ lines, ⟨"ShopScale.swift", header ++ "\n\nimport Foundation\n\n" ++
          joinLines lines⟩ ∈ files ∧
          List.Sublist ["    case high = 2.50", "    case low = 1"] lines) ∧
        ((writtenTags (scaleUnion "1" "2.50")).map tagValue?).Nodup := by
  have hverify : verify (valuesSchema "rest" "1" "2.50") = .ok () := by decide +kernel
  have hlead : isIdentifier "Shop" = true := by decide
  obtain ⟨files, hfiles, hstrings, hnumbers⟩ := generate_distinctValues_iff hverify (.inr hlead)
  have hraw : (scaleUnion "1" "2.50").rawValueType = some .float := by decide +kernel
  obtain ⟨file, hfile, decl, hname, hparse, hcases, hdistinct⟩ :=
    hstrings "Tier" (tierEnum "rest") (by decide +kernel)
  obtain ⟨hwritten, -, -, hreduced, -⟩ :=
    hnumbers "Scale" (scaleUnion "1" "2.50") .float (by decide +kernel) hraw
  exact ⟨hverify, hlead, files, hfiles,
    ⟨file, hfile, decl, hname, hparse, hcases, hdistinct.mpr (by decide +kernel)⟩, hraw, hwritten,
    hreduced.mpr (by decide +kernel)⟩

/-- The fallback that is added repeats the string of another case, and two texts are one number. -/
theorem generate_repeatedValues_valuesSchema :
    verify (valuesSchema "other" "1" "1.0") = .ok () ∧
      generate (valuesSchema "other" "1" "1.0") .swift "" = .ok
        [⟨"Scale.swift", header ++ "\n\nimport Foundation\n\n" ++ joinLines
          ["public enum Scale: Double, Codable, Sendable \x7b", "    case high = 1.0",
            "    case low = 1", "\x7d"]⟩,
        ⟨"Tier.swift", header ++ "\n\nimport Foundation\n\n" ++ joinLines
          (["public enum Tier: String, Codable, Sendable \x7b", "    case misc = \"other\"",
            "    case other"] ++ fallbackDecoder .both "String" (some "other") ++ ["\x7d"])⟩] ∧
      stringEntries (tierEnum "other") = [("misc", "other"), ("other", "other")] ∧
      ¬ ((stringEntries (tierEnum "other")).map Prod.snd).Nodup ∧
      (scaleUnion "1" "1.0").rawValueType = some .float ∧
      writtenTags (scaleUnion "1" "1.0") = ["1.0", "1"] ∧
      ¬ ((writtenTags (scaleUnion "1" "1.0")).map tagValue?).Nodup := by
  have hsame : tagValue? "1.0" = tagValue? "1" := tagValue?_eq_iff.mpr (by decide +kernel)
  have htags : writtenTags (scaleUnion "1" "1.0") = ["1.0", "1"] := by decide +kernel
  refine ⟨by decide +kernel, by decide +kernel, by decide +kernel, by decide +kernel,
    by decide +kernel, htags, ?_⟩
  rw [htags]
  simp [hsame]

end WireSchema.Generation
