import Mathlib.Order.Bounds.Basic
import WireSchema.Proofs.Generation.Forms
import WireSchema.Proofs.Generation.Sources
import WireSchema.Proofs.Generation.Files
import WireSchema.Proofs.Number.Decimal
import WireSchema.Proofs.Schema.RawValues

/-!
# The number of a fallback case

In a union of integers the fallback case takes the integer after the greatest tag, worked out
on doubles. A tag that is no double is rounded first, so the number of the fallback lies past
every tag exactly if the greatest of them is not rounded down, nor up to the end of the
integers.
-/

namespace WireSchema

open Number
open Verification (verify)

/-! ## Unions of integers -/

namespace UnionDef

def tagIntegers (d : UnionDef) : List Int :=
  (Generation.numberedVariants d).filterMap fun entry =>
    entry.2.tag.bind fun tag => readInt64? 10 tag.toList

/-- In a union of integers every variant but the fallback is tagged with an integer in plain
decimal. -/
theorem exists_tag_of_rawValueType_int {d : UnionDef} (h : d.rawValueType = some .int)
    {entry : String × VariantDef} (hentry : entry ∈ Generation.numberedVariants d) :
    ∃ n, isInt64 n = true ∧ entry.2.tag = some (decimal n) := by
  have hcovered := (rawValueType_eq_some_iff.mp h).2
  have hkind := (coveringKind?_eq_some_iff.mp hcovered).2.2.mp rfl _ (List.mem_map_of_mem hentry)
  unfold rawKindOf? at hkind
  split at hkind
  · obtain ⟨tag, htag, hint⟩ := Option.bind_eq_some_iff.mp hkind
    obtain ⟨n, hn, rfl⟩ := RawKind.isIntTag_iff.mp (RawKind.ofTag?_eq_int_iff.mp hint)
    exact ⟨n, hn, htag⟩
  · cases hkind

/-- No tag is left out of the integers. -/
theorem map_tag_numberedVariants {d : UnionDef} (h : d.rawValueType = some .int) :
    (Generation.numberedVariants d).map (fun entry => entry.2.tag) =
      d.tagIntegers.map fun n => some (decimal n) := by
  have htags (entry : String × VariantDef) := @exists_tag_of_rawValueType_int d h entry
  unfold tagIntegers
  generalize Generation.numberedVariants d = variants at htags ⊢
  induction variants with
  | nil => rfl
  | cons entry later ih =>
    obtain ⟨n, hn, htag⟩ := htags entry List.mem_cons_self
    have hread : (entry.2.tag.bind fun tag => readInt64? 10 tag.toList) = some n := by
      rw [htag, Option.bind_some, decimal, String.toList_ofList, readInt64?_decimalChars hn]
    simp only [List.filterMap_cons, hread]
    rw [List.map_cons, List.map_cons, htag,
      ih fun entry hentry => htags entry (List.mem_cons_of_mem _ hentry)]

theorem isInt64_of_mem_tagIntegers {d : UnionDef} {n : Int} (h : n ∈ d.tagIntegers) :
    isInt64 n = true := by
  obtain ⟨entry, -, htag⟩ := List.mem_filterMap.mp h
  obtain ⟨tag, -, hread⟩ := Option.bind_eq_some_iff.mp htag
  exact isInt64_of_readInt64? hread

theorem tagIntegers_ne_nil {d : UnionDef} (h : d.rawValueType = some .int) :
    d.tagIntegers ≠ [] := by
  have hnumbered : d.IsNumbered := isSome_rawValueType_iff.mp (by rw [h]; rfl)
  obtain ⟨entry, hentry, hown⟩ := hnumbered.variants
  have hmem : entry ∈ Generation.numberedVariants d := List.mem_filter.mpr ⟨hentry, by simp [hown]⟩
  intro hnil
  have hmap := map_tag_numberedVariants h
  rw [hnil] at hmap
  exact absurd (List.mem_map_of_mem hmem) (by rw [hmap]; simp)

end UnionDef

namespace Generation

/-! ## The next number -/

theorem tagUnits?_decimal {n : Int} (h : isInt64 n = true) :
    tagUnits? (decimal n) = some (nearestDouble n * 2 ^ unitExponent) := by
  rw [tagUnits?, decimal, String.toList_ofList, readFinite?_decimalChars h, Option.bind_some,
    Binary64.units?, nearestDouble]
  simp only [decide_eq_true_eq, Int.ofNat_eq_natCast]
  split <;> push_cast <;> ring_nf

/-- The greatest of the images of integers under a function that keeps their order. -/
theorem foldl_greatest {f : Int → Int} (hf : ∀ {m n}, m ≤ n → f m ≤ f n) {ns : List Int}
    (hns : ns ≠ []) :
    ∃ g, IsGreatest {n | n ∈ ns} g ∧
      (ns.map fun n => some (f n)).foldl greatest none = some (f g) := by
  -- from the end of the list, where the fold takes its last step
  induction ns using List.reverseRecOn with
  | nil => exact absurd rfl hns
  | append_singleton later n ih =>
    rw [List.map_append, List.foldl_append]
    by_cases hlater : later = []
    · subst hlater
      exact ⟨n, ⟨by simp, by simp [upperBounds]⟩, rfl⟩
    obtain ⟨g, ⟨hmem, hupper⟩, hfold⟩ := ih hlater
    rw [hfold]
    show ∃ g, _ ∧ some (max _ (f n)) = some (f g)
    rcases le_total n g with hle | hle
    · refine ⟨g, ⟨List.mem_append_left _ hmem, fun m hm => ?_⟩, by rw [max_eq_left (hf hle)]⟩
      rcases List.mem_append.mp hm with hm | hm
      · exact hupper hm
      · rwa [List.mem_singleton.mp hm]
    · refine ⟨n, ⟨by simp, fun m hm => ?_⟩, by rw [max_eq_right (hf hle)]⟩
      rcases List.mem_append.mp hm with hm | hm
      · exact (hupper hm).trans hle
      · rw [List.mem_singleton.mp hm]

theorem floorUnits_mul (n : Int) : floorUnits (n * 2 ^ unitExponent) = n := by
  rw [floorUnits]
  have hpower : Int.ofNat (Nat.pow 2 unitExponent) = 2 ^ unitExponent := by
    rw [Int.ofNat_eq_natCast, Nat.pow_eq, Nat.cast_pow, Nat.cast_ofNat]
  rw [hpower]
  exact Int.mul_fdiv_cancel n (by positivity)

/-- The number of the fallback follows on the double nearest to the greatest tag. -/
theorem nextRawValue_decimal {ns : List Int} (hns : ns ≠ [])
    (hrange : ∀ n ∈ ns, isInt64 n = true) :
    ∃ g, IsGreatest {n | n ∈ ns} g ∧
      nextRawValue (ns.map decimal) = nextInt64 (clampInt64 (nearestDouble g)) := by
  have hscaled {m n : Int} (hmn : m ≤ n) :
      nearestDouble m * 2 ^ unitExponent ≤ nearestDouble n * 2 ^ unitExponent :=
    Int.mul_le_mul_of_nonneg_right (nearestDouble_le hmn) (by positivity)
  obtain ⟨g, hgreatest, hfold⟩ :=
    @foldl_greatest (fun n => nearestDouble n * 2 ^ unitExponent) hscaled _ hns
  have hunits : (ns.map decimal).map tagUnits? =
      ns.map fun n => some (nearestDouble n * 2 ^ unitExponent) := by
    rw [List.map_map]
    exact List.map_congr_left fun n hn => tagUnits?_decimal (hrange n hn)
  refine ⟨g, hgreatest, ?_⟩
  rw [nextRawValue, hunits, hfold]
  simp only [floorUnits_mul]

theorem nextInt64_clampInt64 {n r : Int} (hn : isInt64 n = true) (hr : r = nearestDouble n) :
    nextInt64 (clampInt64 r) = if r < int64Max then r + 1 else int64Min := by
  obtain ⟨hlow, hhigh⟩ := nearestDouble_bounds hn
  rw [← hr] at hlow hhigh
  unfold nextInt64 clampInt64
  split_ifs <;> omega

theorem numberedEnumLines_fallback (namer : Namer) (name : String) {d : UnionDef} {raw : RawKind}
    {fallback : String} (hfallback : d.fallbackVariant = some fallback) :
    ∃ before after, numberedEnumLines namer name d raw =
      before ++ ("    case " ++ identifier fallback ++ " = " ++ decimal (fallbackRawValue d)) ::
        after := by
  refine ⟨docLines "" d.doc ++
    ["public enum " ++ namer.typeName name ++ ": " ++ rawTypeName raw ++ ", " ++
      conformance d.direction ++ ", Sendable \x7b"] ++
    ((numberedVariants d).flatMap fun entry => numberedCaseLines entry.1 entry.2) ++
    docLines "    " ((d.variants.get? fallback).bind VariantDef.doc),
    fallbackDecoder d.direction (rawTypeName raw) d.fallbackVariant ++ ["\x7d"], ?_⟩
  rw [numberedEnumLines, numberedFallbackLines, hfallback]
  simp only [List.append_assoc, List.cons_append, List.nil_append]

/-- The integer that is written for the fallback case of a union of integers is the one after
the double nearest to the greatest tag; after the last integer it starts over with the least,
as in a build without overflow checks.
So it lies past every tag exactly if the greatest tag is not rounded down, nor up to the end
of the integers, as no tag of 53 bits is. -/
theorem generate_fallback_past_tags_iff {schema : Schema} (hverify : verify schema = .ok ())
    (lead : String) {name : String} {d : UnionDef}
    (hmem : (name, TypeDef.union d) ∈ schema.types.entries) (hraw : d.rawValueType = some .int)
    {fallback : String} (hfallback : d.fallbackVariant = some fallback) :
    ∃ next greatest nearest before after files,
      generate schema .swift lead = .ok files ∧
      ⟨fileNameOf lead name, header ++ "\n\nimport Foundation\n\n" ++
        joinLines (before ++
          ("    case " ++ identifier fallback ++ " = " ++ decimal next) :: after)⟩ ∈ files ∧
      (numberedVariants d).map (fun entry => entry.2.tag) =
        d.tagIntegers.map (fun n => some (decimal n)) ∧
      IsGreatest {n | n ∈ d.tagIntegers} greatest ∧ IsNearestDouble greatest nearest ∧
      next = (if nearest < int64Max then nearest + 1 else int64Min) ∧
      ((∀ n ∈ d.tagIntegers, n < next) ↔ greatest ≤ nearest ∧ nearest < int64Max) ∧
      (greatest.natAbs ≤ 2 ^ 53 → ∀ n ∈ d.tagIntegers, n < next) := by
  have htags := UnionDef.map_tag_numberedVariants hraw
  obtain ⟨greatest, hgreatest, hnext⟩ :=
    nextRawValue_decimal (UnionDef.tagIntegers_ne_nil hraw) fun n => UnionDef.isInt64_of_mem_tagIntegers
  have hin := UnionDef.isInt64_of_mem_tagIntegers hgreatest.1
  have hvalue : fallbackRawValue d =
      if nearestDouble greatest < int64Max then nearestDouble greatest + 1 else int64Min := by
    have hwire : (numberedVariants d).map (fun entry => entry.2.wireTag entry.1) =
        d.tagIntegers.map decimal := by
      have hnames : ∀ entry ∈ numberedVariants d,
          entry.2.wireTag entry.1 = entry.2.tag.getD "" := fun entry hentry => by
        obtain ⟨n, -, htag⟩ := UnionDef.exists_tag_of_rawValueType_int hraw hentry
        rw [VariantDef.wireTag, htag, Option.getD_some, Option.getD_some]
      have hgiven := congrArg (List.map fun tag? => tag?.getD "") htags
      rw [List.map_congr_left hnames]
      simpa only [List.map_map, Function.comp_def, Option.getD_some] using hgiven
    rw [fallbackRawValue, hwire, hnext, nextInt64_clampInt64 hin rfl]
  have hpast : (∀ n ∈ d.tagIntegers, n < fallbackRawValue d) ↔ greatest < fallbackRawValue d :=
    ⟨fun h => h greatest hgreatest.1, fun h n hn => (hgreatest.2 hn).trans_lt h⟩
  have hlow := (isInt64_iff.mp hin).1
  have hiff : (∀ n ∈ d.tagIntegers, n < fallbackRawValue d) ↔
      greatest ≤ nearestDouble greatest ∧ nearestDouble greatest < int64Max := by
    rw [hpast, hvalue]
    split_ifs <;> omega
  obtain ⟨files, hfiles⟩ := render_succeeds hverify lead
  obtain ⟨before, after, hlines⟩ :=
    @numberedEnumLines_fallback (.ofSchema lead schema) name d .int fallback hfallback
  have hdefinition : definitionLines (.ofSchema lead schema) name (.union d) =
      .ok (numberedEnumLines (.ofSchema lead schema) name d .int) := by
    rw [definitionLines, unionLines, hraw]
  have hfile := mem_renderTypes hfiles hmem (renderType_of_lines hdefinition)
  refine ⟨fallbackRawValue d, greatest, nearestDouble greatest, before, after, files,
    generate_of_render hverify hfiles, ?_, htags, hgreatest, isNearestDouble_nearestDouble greatest,
    hvalue, hiff, fun hbits => ?_⟩
  · rw [hlines] at hfile
    exact hfile
  · have hsame := nearestDouble_of_natAbs_le hbits
    refine hiff.mpr ⟨hsame.ge, ?_⟩
    rw [hsame]
    unfold int64Max
    omega

/-- A schema with one union of integers that has a fallback. -/
def integerUnion (low high : String) : UnionDef :=
  { direction := .both, doc := none, discriminator := none
    unknownHandling := some (.fallback "futureProof")
    variants := .ofList
      [("futureProof", .ofPayload .unit), ("high", { VariantDef.ofPayload .unit with tag := high }),
        ("low", { VariantDef.ofPayload .unit with tag := low })] }

def integerSchema (d : UnionDef) : Schema :=
  { version := schemaVersion, provider := "shop", types := .ofList [("Priority", .union d)] }

theorem generate_fallback_past_tags_iff_priority :
    verify (integerSchema (integerUnion "-1" "5")) = .ok () ∧
      (integerUnion "-1" "5").rawValueType = some .int ∧
      (integerUnion "-1" "5").tagIntegers = [5, -1] ∧
      ∃ next greatest nearest before after files,
        generate (integerSchema (integerUnion "-1" "5")) .swift "" = .ok files ∧
        ⟨"Priority.swift", header ++ "\n\nimport Foundation\n\n" ++
          joinLines (before ++
            ("    case " ++ identifier "futureProof" ++ " = " ++ decimal next) :: after)⟩ ∈ files ∧
        IsGreatest {n | n ∈ (integerUnion "-1" "5").tagIntegers} greatest ∧
        IsNearestDouble greatest nearest ∧
        (greatest.natAbs ≤ 2 ^ 53 → ∀ n ∈ (integerUnion "-1" "5").tagIntegers, n < next) := by
  have hverify : verify (integerSchema (integerUnion "-1" "5")) = .ok () := by decide +kernel
  have hraw : (integerUnion "-1" "5").rawValueType = some .int := by decide +kernel
  obtain ⟨next, greatest, nearest, before, after, files, hfiles, hfile, -, hgreatest, hnearest, -, -,
    hpast⟩ := @generate_fallback_past_tags_iff _ hverify "" "Priority" _ (by decide +kernel) hraw
      "futureProof" rfl
  exact ⟨hverify, hraw, by decide +kernel, next, greatest, nearest, before, after, files, hfiles,
    hfile, hgreatest, hnearest, hpast⟩

/-- The first integer that is no double is rounded down, and the fallback then has the number of
another case. -/
theorem fallback_shares_number_of_tag :
    verify (integerSchema (integerUnion "9007199254740993" "5")) = .ok () ∧
      (integerUnion "9007199254740993" "5").rawValueType = some .int ∧
      (∀ n ∈ (integerUnion "9007199254740993" "5").tagIntegers, n < int64Max) ∧
      numberedEnumLines (.ofSchema "" (integerSchema (integerUnion "9007199254740993" "5")))
          "Priority" (integerUnion "9007199254740993" "5") .int =
        ["public enum Priority: Int, Codable, Sendable \x7b", "    case high = 5",
          "    case low = 9007199254740993", "    case futureProof = 9007199254740993"] ++
          fallbackDecoder .both "Int" (some "futureProof") ++ ["\x7d"] ∧
      ¬ ∀ n ∈ (integerUnion "9007199254740993" "5").tagIntegers,
        n < fallbackRawValue (integerUnion "9007199254740993" "5") := by
  decide +kernel

end Generation

end WireSchema
