import Mathlib.Data.List.Forall2
import WireSchema.Extraction.Extractor
import WireSchema.Proofs.Extraction.Outline
import WireSchema.Proofs.Lookup
import WireSchema.Proofs.Number.Integer

/-!
# The numbering of enums

A case of a numbered enum without a raw value has the number after that of the case before
it, and zero if there is none before it. The numbers are carried along as texts and end with
the 64-bit integers.
-/

namespace WireSchema

namespace Extraction

open Swift
open Number (decimal isInt64 int64Min int64Max)

/-! ## Steps and runs -/

/-- The raw values of cases one after the other, where `implicit` is the number of the first
if it has none of its own. -/
inductive IsNumbering : Option Int → List EnumCase → List String → Prop where
  | nil (implicit : Option Int) : IsNumbering implicit [] []
  | cons {implicit : Option Int} {case_ : EnumCase} {raw : String} {later : List EnumCase}
      {raws : List String} (unit : case_.associated = [])
      (number : rawNumber? implicit case_ = some raw)
      (rest : IsNumbering (nextNumber? raw) later raws) :
      IsNumbering implicit (case_ :: later) (raw :: raws)

namespace IsNumbering

variable {implicit : Option Int} {cases_ : List EnumCase} {raws : List String}

theorem numberCases_eq (h : IsNumbering implicit cases_ raws) :
    numberCases implicit cases_ = pure (cases_.zip raws) := by
  induction h with
  | nil => rfl
  | cons unit number _ ih =>
    rw [numberCases, unit, if_neg (by simp), number]
    dsimp only
    rw [ih]
    rfl

end IsNumbering

/-- Cases are numbered only by a numbering. -/
theorem exists_isNumbering {implicit : Option Int} {cases_ : List EnumCase}
    {numbered : List (EnumCase × String)} (h : (numberCases implicit cases_).result = .ok numbered) :
    ∃ raws, IsNumbering implicit cases_ raws ∧ numbered = cases_.zip raws := by
  induction cases_ generalizing implicit numbered with
  | nil =>
    cases h
    exact ⟨[], .nil implicit, rfl⟩
  | cons case_ later ih =>
    unfold numberCases at h
    split at h
    · cases h
    · next hunit =>
      split at h
      · cases h
      · next raw hraw =>
        obtain ⟨others, hothers, h⟩ := Logged.result_bind_eq_ok_iff.mp h
        cases h
        obtain ⟨raws, hraws, rfl⟩ := ih hothers
        exact ⟨raw :: raws, .cons (by simpa using hunit) hraw hraws, rfl⟩

def numberedUnion (fallbackCase : String) (ctx : TypeContext) (raws : List String) : UnionDef where
  direction := ctx.direction
  doc := joinDocs ctx.decl.docs
  discriminator := none
  unknownHandling := sentinelHandling ctx fallbackCase
  variants := .ofList (((casesOf ctx.decl.members).zip raws).map fun pair =>
    (pair.1.name, numberedVariant ctx fallbackCase pair.1 pair.2))

theorem lowerNumberedEnum_of_isNumbering {ctx : TypeContext} {raws : List String}
    (h : IsNumbering (some 0) (casesOf ctx.decl.members) raws) (fallbackCase : String) :
    lowerNumberedEnum fallbackCase ctx = pure (.union (numberedUnion fallbackCase ctx raws)) := by
  rw [lowerNumberedEnum, h.numberCases_eq]
  rfl

/-- The raw type of an enum decides how it is lowered. -/
theorem lowerType_numberedEnum {ctx : TypeContext} (hkind : ctx.decl.kind = .enum)
    (hgeneric : ctx.decl.isGeneric = false) {raw : String} (hraw : ctx.decl.inherited.head? = some raw)
    (hnumber : readType raw = .ok (.primitive .int) ∨ readType raw = .ok (.primitive .float))
    (fallbackCase : String) :
    lowerType fallbackCase ctx = some (lowerNumberedEnum fallbackCase ctx) := by
  have htype : ctx.rawType? = some .number := by
    rw [TypeContext.rawType?, hraw, Option.bind_some, TypeContext.rawTypeOf?]
    rcases hnumber with hread | hread <;> rw [hread]
  rw [lowerType, hgeneric, hkind, lowerEnum, htype]
  rfl

/-- What is extracted of a declaration that cannot be lowered. -/
theorem extractDecl_of_lowerDecl_fail {options : Options} {extensions : List ExtensionDecl}
    {decl : Decl} {name : String} {reason : DropReason}
    (h : lowerDecl options.fallbackCase extensions decl = some (name, .fail reason)) :
    extractDecl options extensions decl =
      match options.strictness with
      | .strict => ⟨[], .error (.dropped name reason)⟩
      | .lenient => ⟨[.dropping name reason], .ok none⟩ := by
  rw [extractDecl, h]
  cases hstrict : options.strictness <;> simp only [settle, Logged.fail] <;> rfl

/-! ## Numbers of cases -/

inductive GivesInteger (case_ : EnumCase) : Option Int → Prop where
  | unnumbered (absent : case_.rawValue = none) : GivesInteger case_ none
  | numbered {raw : String} {n : Int}
      (given : case_.rawValue = some (.number raw) ∨ case_.rawValue = some (.other raw))
      (text : numberText? raw = some (decimal n)) (range : isInt64 n = true) :
      GivesInteger case_ (some n)

/-- The numbers of cases: what they give themselves, or the number after the case before.
The first has `next` if it gives none. -/
def numbersFrom (next : Int) : List (Option Int) → List Int
  | [] => []
  | given :: later => given.getD next :: numbersFrom (given.getD next + 1) later

/-- Is there a case without a number of its own for which no 64-bit integer is left? -/
def Overflows (next : Int) (given : List (Option Int)) : Prop :=
  ∃ pair ∈ given.zip (numbersFrom next given), pair.1 = none ∧ int64Max < pair.2

instance (next : Int) (given : List (Option Int)) : Decidable (Overflows next given) :=
  inferInstanceAs (Decidable (∃ pair ∈ given.zip (numbersFrom next given), _))

def int64? (n : Int) : Option Int :=
  if isInt64 n then some n else none

theorem rawNumber?_of_givesInteger {case_ : EnumCase} {given : Option Int}
    (h : GivesInteger case_ given) (implicit : Option Int) :
    rawNumber? implicit case_ = (given.or implicit).map decimal := by
  unfold rawNumber?
  cases h with
  | unnumbered absent =>
    rw [absent]
    rfl
  | numbered given text range => rcases given with given | given <;> rw [given] <;> exact text

theorem nextNumber?_decimal {n : Int} (h : isInt64 n = true) :
    nextNumber? (decimal n) = int64? (n + 1) := by
  rw [nextNumber?, decimal, String.toList_ofList, Number.readInt64?_decimalChars h, Option.map_some,
    Option.filter_some, int64?]

/-- The next number is a 64-bit integer, or the first one past them. -/
def IsNext (n : Int) : Prop :=
  int64Min ≤ n ∧ n ≤ int64Max + 1

theorem isNext_add_one {n : Int} (h : isInt64 n = true) : IsNext (n + 1) := by
  obtain ⟨hlow, hhigh⟩ := Number.isInt64_iff.mp h
  exact ⟨by omega, by omega⟩

theorem overflows_cons {next : Int} {given : Option Int} {later : List (Option Int)} :
    Overflows next (given :: later) ↔
      given = none ∧ int64Max < next ∨ Overflows (given.getD next + 1) later := by
  rw [Overflows, numbersFrom, List.zip_cons_cons, List.exists_mem_cons_iff]
  refine or_congr ?_ Iff.rfl
  cases given <;> simp

/-- A case that an integer is left for, or that has one of its own, is numbered by it. -/
theorem rawNumber?_of_not_overflow {case_ : EnumCase} {given : Option Int} {next : Int}
    (hcase : GivesInteger case_ given) (hnext : IsNext next)
    (h : ¬ (given = none ∧ int64Max < next)) :
    isInt64 (given.getD next) = true ∧
      rawNumber? (int64? next) case_ = some (decimal (given.getD next)) := by
  rw [rawNumber?_of_givesInteger hcase]
  cases hcase with
  | unnumbered =>
    have hrange : isInt64 next = true :=
      Number.isInt64_iff.mpr ⟨hnext.1, not_lt.mp fun hover => h ⟨rfl, hover⟩⟩
    exact ⟨hrange, by rw [int64?, if_pos hrange]; rfl⟩
  | numbered _ _ range => exact ⟨range, rfl⟩

/-- As long as there are integers left, cases are numbered by them. -/
theorem isNumbering_of_not_overflows {cases_ : List EnumCase} {given : List (Option Int)}
    (hgiven : List.Forall₂ GivesInteger cases_ given)
    (hunits : ∀ case_ ∈ cases_, case_.associated = []) {next : Int} (hnext : IsNext next)
    (h : ¬ Overflows next given) :
    IsNumbering (int64? next) cases_ ((numbersFrom next given).map decimal) := by
  -- what `IsNext` says of the number holds again after each case
  induction hgiven generalizing next with
  | nil => exact .nil _
  | cons hcase _ ih =>
    rw [overflows_cons, not_or] at h
    obtain ⟨hrange, hraw⟩ := rawNumber?_of_not_overflow hcase hnext h.1
    refine .cons (hunits _ List.mem_cons_self) hraw ?_
    rw [nextNumber?_decimal hrange]
    exact ih (fun other hother => hunits other (List.mem_cons_of_mem _ hother))
      (isNext_add_one hrange) h.2

/-- The first case that no integer is left for cannot be numbered. -/
theorem numberCases_of_overflows {cases_ : List EnumCase} {given : List (Option Int)}
    (hgiven : List.Forall₂ GivesInteger cases_ given)
    (hunits : ∀ case_ ∈ cases_, case_.associated = []) {next : Int} (hnext : IsNext next)
    (h : Overflows next given) :
    ∃ case_ ∈ cases_, case_.rawValue = none ∧
      numberCases (int64? next) cases_ = .fail (.rawValueNotNumber case_.name) := by
  induction hgiven generalizing next with
  | nil =>
    obtain ⟨_, hmem, -⟩ := h
    cases hmem
  | @cons case_ given later givens hcase _ ih =>
    have hunit := hunits case_ List.mem_cons_self
    by_cases hover : given = none ∧ int64Max < next
    · obtain ⟨rfl, hpast⟩ := hover
      have hnone : int64? next = none := by
        rw [int64?, if_neg]
        exact fun hin => absurd (Number.isInt64_iff.mp hin).2 (not_le.mpr hpast)
      refine ⟨case_, List.mem_cons_self, ?_, ?_⟩
      · cases hcase with
        | unnumbered absent => exact absent
      · rw [numberCases, hunit, if_neg (by simp), rawNumber?_of_givesInteger hcase, hnone]
        rfl
    · have hlater := (overflows_cons.mp h).resolve_left hover
      obtain ⟨hrange, hraw⟩ := rawNumber?_of_not_overflow hcase hnext hover
      obtain ⟨failing, hmem, habsent, hfail⟩ :=
        ih (fun other hother => hunits other (List.mem_cons_of_mem _ hother))
          (isNext_add_one hrange) hlater
      refine ⟨failing, List.mem_cons_of_mem _ hmem, habsent, ?_⟩
      rw [numberCases, hunit, if_neg (by simp), hraw]
      dsimp only
      rw [nextNumber?_decimal hrange, hfail]
      rfl

/-! ## Declarations -/

/-- The case absorbs unknown values: it has the name for that, and the enum has a decoder. -/
def IsAbsorbing (fallbackCase : String) (ctx : TypeContext) (name : String) : Prop :=
  name = fallbackCase ∧ ctx.decoder?.isSome = true

instance (fallbackCase : String) (ctx : TypeContext) (name : String) :
    Decidable (IsAbsorbing fallbackCase ctx name) :=
  inferInstanceAs (Decidable (_ ∧ _))

/-- The union of the cases of an enum, tagged with their numbers. The case that absorbs unknown
values has no tag and is the fallback. -/
structure IsNumberedUnion (fallbackCase : String) (ctx : TypeContext) (numbers : List Int)
    (d : UnionDef) : Prop where
  direction : d.direction = ctx.direction
  doc : d.doc = joinDocs ctx.decl.docs
  discriminator : d.discriminator = none
  fallback : ∀ name, d.unknownHandling = some (.fallback name) ↔
    IsAbsorbing fallbackCase ctx name ∧ ∃ case_ ∈ casesOf ctx.decl.members, case_.name = name
  handling : d.unknownHandling ≠ some .error
  names : ∀ name, d.variants.contains name = true ↔
    ∃ case_ ∈ casesOf ctx.decl.members, case_.name = name
  variants : ∀ pair ∈ (casesOf ctx.decl.members).zip numbers,
    d.variants.get? pair.1.name = some
      { tag := if IsAbsorbing fallbackCase ctx pair.1.name then none else some (decimal pair.2)
        payload := .unit, literal := none, doc := joinDocs pair.1.docs }

theorem isSentinel_iff {ctx : TypeContext} {fallbackCase : String} {case_ : EnumCase} :
    isSentinel ctx fallbackCase case_ = true ↔ IsAbsorbing fallbackCase ctx case_.name := by
  rw [isSentinel, Bool.and_eq_true, beq_iff_eq, IsAbsorbing]

theorem any_isSentinel_iff {ctx : TypeContext} {fallbackCase : String} :
    (casesOf ctx.decl.members).any (isSentinel ctx fallbackCase) = true ↔
      IsAbsorbing fallbackCase ctx fallbackCase ∧
        ∃ case_ ∈ casesOf ctx.decl.members, case_.name = fallbackCase := by
  rw [List.any_eq_true]
  constructor
  · rintro ⟨case_, hmem, hsentinel⟩
    obtain ⟨hname, hdecoder⟩ := isSentinel_iff.mp hsentinel
    exact ⟨⟨rfl, hdecoder⟩, case_, hmem, hname⟩
  · rintro ⟨habsorbs, case_, hmem, hname⟩
    exact ⟨case_, hmem, isSentinel_iff.mpr (hname ▸ habsorbs)⟩

/-- Unknown values go to the case that absorbs them, if there is one. -/
theorem sentinelHandling_eq_fallback_iff {ctx : TypeContext} {fallbackCase name : String} :
    sentinelHandling ctx fallbackCase = some (.fallback name) ↔
      IsAbsorbing fallbackCase ctx name ∧
        ∃ case_ ∈ casesOf ctx.decl.members, case_.name = name := by
  unfold sentinelHandling
  split
  · next hsome =>
    rw [Option.some.injEq, UnknownHandling.fallback.injEq]
    constructor
    · rintro rfl
      exact any_isSentinel_iff.mp hsome
    · exact fun h => h.1.1.symm
  · next hnone =>
    refine ⟨nofun, fun ⟨habsorbs, hcase⟩ => absurd (any_isSentinel_iff.mpr ?_) hnone⟩
    have hname : name = fallbackCase := habsorbs.1
    subst hname
    exact ⟨habsorbs, hcase⟩

theorem sentinelHandling_ne_error (ctx : TypeContext) (fallbackCase : String) :
    sentinelHandling ctx fallbackCase ≠ some .error := by
  unfold sentinelHandling
  split <;> simp

theorem isNumberedUnion_numberedUnion {ctx : TypeContext}
    (hnames : ((casesOf ctx.decl.members).map EnumCase.name).Nodup) {numbers : List Int}
    (hlength : (casesOf ctx.decl.members).length = numbers.length) (fallbackCase : String) :
    IsNumberedUnion fallbackCase ctx numbers
      (numberedUnion fallbackCase ctx (numbers.map decimal)) := by
  have hfirst : (((casesOf ctx.decl.members).zip (numbers.map decimal)).map fun pair =>
      (pair.1.name, numberedVariant ctx fallbackCase pair.1 pair.2)).map Prod.fst =
        (casesOf ctx.decl.members).map EnumCase.name := by
    have hzip : ((casesOf ctx.decl.members).zip (numbers.map decimal)).map Prod.fst =
        casesOf ctx.decl.members := List.map_fst_zip (by rw [List.length_map, hlength])
    conv_rhs => rw [← hzip]
    rw [List.map_map, List.map_map]
    rfl
  refine ⟨rfl, rfl, rfl, fun _ => sentinelHandling_eq_fallback_iff,
    sentinelHandling_ne_error ctx fallbackCase, fun name => ?_, fun pair hpair => ?_⟩
  · show (NameMap.ofList _).contains name = true ↔ _
    rw [NameMap.contains_ofList, hfirst, List.mem_map]
  · have hraw : (pair.1, decimal pair.2) ∈
        (casesOf ctx.decl.members).zip (numbers.map decimal) := by
      rw [List.zip_map_right]
      exact List.mem_map_of_mem (f := Prod.map id decimal) hpair
    rw [← hfirst] at hnames
    have hget := (NameMap.get?_ofList hnames).mpr (List.mem_map_of_mem hraw)
    refine Eq.trans hget (congrArg some ?_)
    simp only [numberedVariant, VariantDef.ofPayload, isSentinel_iff]

theorem length_numbersFrom (next : Int) (given : List (Option Int)) :
    (numbersFrom next given).length = given.length := by
  induction given generalizing next with
  | nil => rfl
  | cons number later ih => rw [numbersFrom, List.length_cons, List.length_cons, ih]

/-- An enum of integers is extracted as the union of its cases, tagged with their numbers. It is
dropped if a case without a number of its own would have one past the 64-bit integers. -/
theorem extractDecl_numberedEnum {options : Options} {extensions : List ExtensionDecl}
    {decl : TypeDecl} (hkind : decl.kind = .enum) (hgeneric : decl.isGeneric = false) {raw : String}
    (hraw : decl.inherited.head? = some raw) (hint : readType raw = .ok (.primitive .int))
    (hnames : ((casesOf decl.members).map EnumCase.name).Nodup)
    (hunits : ∀ case_ ∈ casesOf decl.members, case_.associated = []) {given : List (Option Int)}
    (hgiven : List.Forall₂ GivesInteger (casesOf decl.members) given) :
    (¬ Overflows 0 given →
      ∃ d, IsNumberedUnion options.fallbackCase ⟨decl, extensionsNamed extensions decl.name⟩
          (numbersFrom 0 given) d ∧
        extractDecl options extensions (.type decl) = ⟨[], .ok (some (decl.name, .union d))⟩) ∧
    (Overflows 0 given →
      ∃ case_ ∈ casesOf decl.members, case_.rawValue = none ∧
        extractDecl options extensions (.type decl) =
          match options.strictness with
          | .strict => ⟨[], .error (.dropped decl.name (.rawValueNotNumber case_.name))⟩
          | .lenient => ⟨[.dropping decl.name (.rawValueNotNumber case_.name)], .ok none⟩) := by
  generalize hctx : (⟨decl, extensionsNamed extensions decl.name⟩ : TypeContext) = ctx
  have hdecl : ctx.decl = decl := by rw [← hctx]
  have hlower : lowerDecl options.fallbackCase extensions (.type decl) =
      some (decl.name, lowerNumberedEnum options.fallbackCase ctx) := by
    rw [lowerDecl, hctx, lowerType_numberedEnum (by rwa [hdecl]) (by rwa [hdecl])
      (by rwa [hdecl]) (.inl hint), Option.map_some]
  have hzero : int64? 0 = some 0 := rfl
  have hstart : IsNext 0 := ⟨by decide, by decide⟩
  subst hdecl
  constructor
  · intro hfits
    have hnumbering := isNumbering_of_not_overflows hgiven hunits hstart hfits
    rw [hzero] at hnumbering
    have hlength : (casesOf ctx.decl.members).length = (numbersFrom 0 given).length := by
      rw [hgiven.length_eq, length_numbersFrom]
    refine ⟨_, isNumberedUnion_numberedUnion hnames hlength options.fallbackCase,
      extractDecl_of_lowerDecl ?_⟩
    rw [hlower, lowerNumberedEnum_of_isNumbering hnumbering]
    rfl
  · intro hover
    obtain ⟨case_, hmem, habsent, hfail⟩ := numberCases_of_overflows hgiven hunits hstart hover
    rw [hzero] at hfail
    refine ⟨case_, hmem, habsent, extractDecl_of_lowerDecl_fail ?_⟩
    rw [hlower, lowerNumberedEnum, hfail]
    rfl

def levelDecl (cases_ : List EnumCase) : TypeDecl where
  kind := .enum
  name := "Level"
  position := .start
  docs := []
  attributes := []
  isGeneric := false
  inherited := ["Int", "Decodable"]
  members := [.cases cases_, .function ⟨"init", .start, false, some "from", []⟩]

/-- A negative number, two numbers that follow on it, one of them absorbing unknown values, and
one more after that. -/
def levelCases : List EnumCase :=
  [⟨"low", .start, ["Quiet."], some (.number "-0x10"), []⟩, ⟨"mid", .start, [], none, []⟩,
    ⟨"futureProof", .start, [], none, []⟩, ⟨"high", .start, [], none, []⟩]

def lastCases : List EnumCase :=
  [⟨"last", .start, [], some (.number "9_223_372_036_854_775_807"), []⟩,
    ⟨"beyond", .start, [], none, []⟩]

theorem extractDecl_numberedEnum_levels :
    (∃ d, IsNumberedUnion "futureProof" ⟨levelDecl levelCases, []⟩ [-16, -15, -14, -13] d ∧
      extractDecl ⟨"shop", "futureProof", .strict⟩ [] (.type (levelDecl levelCases)) =
        ⟨[], .ok (some ("Level", .union d))⟩) ∧
    ∃ case_ ∈ lastCases, case_.rawValue = none ∧
      extractDecl ⟨"shop", "futureProof", .strict⟩ [] (.type (levelDecl lastCases)) =
        ⟨[], .error (.dropped "Level" (.rawValueNotNumber case_.name))⟩ := by
  have hint : readType "Int" = .ok (.primitive .int) := by decide +kernel
  have hlevels : List.Forall₂ GivesInteger (casesOf (levelDecl levelCases).members)
      [some (-16), none, none, none] :=
    .cons (.numbered (.inl rfl) (by decide +kernel) (by decide)) <|
      .cons (.unnumbered rfl) <| .cons (.unnumbered rfl) <| .cons (.unnumbered rfl) .nil
  have hlast : List.Forall₂ GivesInteger (casesOf (levelDecl lastCases).members)
      [some int64Max, none] :=
    .cons (.numbered (.inl rfl) (by decide +kernel) (by decide)) <| .cons (.unnumbered rfl) .nil
  have hfits := @extractDecl_numberedEnum ⟨"shop", "futureProof", .strict⟩ [] (levelDecl levelCases)
    rfl rfl _ rfl hint (by decide) (by decide) _ hlevels
  have hover := @extractDecl_numberedEnum ⟨"shop", "futureProof", .strict⟩ [] (levelDecl lastCases)
    rfl rfl _ rfl hint (by decide) (by decide) _ hlast
  exact ⟨hfits.1 (by decide), hover.2 (by decide)⟩

end Extraction

end WireSchema
