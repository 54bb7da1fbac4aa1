import WireSchema.Proofs.Extraction.Alike
import WireSchema.Proofs.Extraction.Numbering
import WireSchema.Proofs.Swift.IntegerLiteral

/-!
# Integers as raw values

The raw value of a case passes through the tokens, the parser and the reader of numbers. A
decimal or hexadecimal literal comes out as its value. Of an octal or binary one only the zero
in front is taken, and the rest is passed over.
-/

namespace WireSchema

namespace Swift

open Text (isIdentifier)

/-! ## A source with one case -/

def rawIntegerSource (literal : String) : String :=
  "enum E: Int \x7b case a = " ++ literal ++ " \x7d"

def rawIntegerCase (raw : String) : EnumCase :=
  { enumCase [] "a" [] none with rawValue := some (.number raw) }

/-- The literal is read as the number that it starts with. -/
theorem parse_rawIntegerSource (literal : IntegerLiteral) :
    ∃ decls, parse (rawIntegerSource literal.text) = .ok decls ∧
      decls.map Decl.outline = [.type ⟨.enum, "E", .start, [], [], false, ["Int"]⟩
        (.ofCases [rawIntegerCase
          (signedText literal.isNegative (String.ofList literal.number))])] := by
  have hfront : Spells breaksSymbol "enum E: Int \x7b case a = "
      [.word "enum", .word "E", .symbol ":", .word "Int", .symbol "\x7b", .word "case", .word "a",
        .symbol "="] := spells_constant (by decide) (by decide)
  have hlexes := hfront (literal.head?_text closing) (literal.lexes_text lexes_closing)
  have hclosing : " \x7d".toList = closing := by decide
  rw [← hclosing, ← List.append_assoc, ← String.toList_append, ← String.toList_append] at hlexes
  have hnumber : String.ofList literal.number ≠ "-" := by
    intro hminus
    have hchars : literal.number = ['-'] := by simpa using congrArg String.toList hminus
    have hdigit := literal.head?_number
    rw [hchars] at hdigit
    cases hdigit
  have hbody : ReadsBody _ (.ofCases [rawIntegerCase
      (signedText literal.isNegative (String.ofList literal.number))]) :=
    readsBody_numberCase [] "a" literal.isNegative hnumber
      fun face => literal.isPassedOver_of_mem_skipped
  have hinherited : ∀ t ∈ [TypeExpr.primitive .int], StandsAlone t := by
    simpa using standsAlone_primitive .int
  have hreads := readsSource_typeDecl [] false "E" (show DeclKind.enum ≠ .classType by decide)
    (fun t ht => (hinherited t ht).readsEntry) hbody.closes
  have hint : primitiveText .int = "Int" := rfl
  simp only [List.map_cons, List.map_nil, typeText, typeFaces, hint] at hreads
  have hfaces : headingFaces [] false ++ declFaces DeclKind.enum.keyword "E" [[Face.word "Int"]]
      (headingFaces [] false ++ .word "case" :: .word "a" :: .symbol "=" ::
        (signFaces literal.isNegative ++ (.number, String.ofList literal.number) ::
          literal.skipped)) =
      [.word "enum", .word "E", .symbol ":", .word "Int", .symbol "\x7b", .word "case", .word "a",
        .symbol "="] ++ (signFaces literal.isNegative ++ (.number, String.ofList literal.number) ::
          (literal.skipped ++ [.symbol "\x7d"])) := by
    simp [headingFaces, declFaces, clauseFaces, commaFaces, DeclKind.keyword]
  rw [hfaces] at hreads
  unfold rawIntegerSource
  exact parse_of_readsWhole hlexes hreads.whole

end Swift

namespace Extraction

open Swift

/-! ## The union -/

def rawIntegerUnion (tag : String) : TypeDef :=
  .union
    { direction := .both, doc := none, discriminator := none, unknownHandling := none
      variants := .ofList [("a", { VariantDef.ofPayload .unit with tag := some tag })] }

def rawIntegerDecl (raw : String) : TypeDecl where
  kind := .enum
  name := "E"
  position := .start
  docs := []
  attributes := []
  isGeneric := false
  inherited := ["Int"]
  members := [.cases [rawIntegerCase raw]]

/-- The case is tagged with the text of its number. -/
theorem declarations_rawInteger (options : Options) {decls : List Decl} {raw tag : String}
    (hdecls : decls.map Decl.outline =
      [.type ⟨.enum, "E", .start, [], [], false, ["Int"]⟩ (.ofCases [rawIntegerCase raw])])
    (htag : numberText? raw = some tag) :
    declarations options [decls] = .ok [("E", rawIntegerUnion tag)] := by
  have hplaced : [decls].flatten.map Decl.outline =
      [[Decl.type (rawIntegerDecl raw)]].flatten.map Decl.outline := by
    rw [List.flatten_singleton, hdecls]
    rfl
  have hnumbering : IsNumbering (some 0)
      (casesOf (TypeContext.mk (rawIntegerDecl raw) []).decl.members) [tag] :=
    .cons rfl htag (.nil _)
  have hunion : TypeDef.union (numberedUnion options.fallbackCase ⟨rawIntegerDecl raw, []⟩ [tag]) =
      rawIntegerUnion tag := by
    have hdecoder : (TypeContext.mk (rawIntegerDecl raw) []).decoder?.isSome = false := rfl
    have hsentinel : ∀ case_, isSentinel ⟨rawIntegerDecl raw, []⟩ options.fallbackCase case_ =
        false := fun case_ => by rw [isSentinel, hdecoder, Bool.and_false]
    have hhandling : sentinelHandling ⟨rawIntegerDecl raw, []⟩ options.fallbackCase = none := by
      rw [sentinelHandling, if_neg (by simp [hsentinel])]
    simp only [numberedUnion, numberedVariant, hsentinel, hhandling]
    rfl
  have hlower : lowerDecl options.fallbackCase [] (.type (rawIntegerDecl raw)) =
      some ("E", pure (rawIntegerUnion tag)) := by
    have htype := lowerType_numberedEnum (show (TypeContext.mk (rawIntegerDecl raw) []).decl.kind =
      .enum from rfl) rfl rfl (.inl (by decide +kernel)) options.fallbackCase
    rw [lowerNumberedEnum_of_isNumbering hnumbering, hunion] at htype
    show (lowerType options.fallbackCase ⟨rawIntegerDecl raw, []⟩).map _ = _
    rw [htype]
    rfl
  rw [declarations_eq_of_outlines options hplaced]
  show Logged.collect (extractDecl options []) [_] = _
  rw [Logged.collect, extractDecl_of_lowerDecl hlower]
  rfl

/-- Is the case extracted with this text as its tag? -/
def ExtractsInteger (options : Options) (source tag : String) : Prop :=
  ExtractsAlone options (rawIntegerSource source) ("E", rawIntegerUnion tag)

theorem rawIntegerUnion_inj {tag tag' : String} (h : rawIntegerUnion tag = rawIntegerUnion tag') :
    tag = tag' := by
  have hvariants := congrArg UnionDef.variants (TypeDef.union.inj h)
  have hvariant := (Prod.mk.inj (NameMap.ofList_singleton_inj hvariants)).2
  exact Option.some.inj (congrArg VariantDef.tag hvariant)

/-- A case with any integer literal for its raw value is extracted with an integer for its tag.
It is the one that the literal stands for if the literal is decimal or hexadecimal. An octal or
binary literal is taken for zero. -/
theorem extractsInteger_literal (options : Options) {literal : IntegerLiteral}
    (hlow : -2 ^ 63 < literal.value) (hhigh : literal.value < 2 ^ 63) :
    ExtractsInteger options literal.text (Number.decimal literal.valueRead) ∧
      (ExtractsInteger options literal.text (Number.decimal literal.value) ↔
        literal.radix = .decimal ∨ literal.radix = .hexadecimal ∨ literal.value = 0) := by
  obtain ⟨decls, hok, houtline⟩ := parse_rawIntegerSource literal
  have hread : ExtractsInteger options literal.text (Number.decimal literal.valueRead) :=
    ⟨decls, hok, declarations_rawInteger options houtline (literal.numberText?_number hlow hhigh)⟩
  refine ⟨hread, ?_⟩
  rw [← or_assoc]
  constructor
  · intro hvalue
    have htag := rawIntegerUnion_inj (Prod.mk.inj (hread.unique hvalue)).2
    have hsame := Number.decimal_injective htag
    by_cases hwhole : literal.IsWhole
    · exact .inl hwhole
    · rw [IntegerLiteral.valueRead, if_neg hwhole] at hsame
      exact .inr hsame.symm
  · intro hkept
    have hsame : literal.valueRead = literal.value := by
      unfold IntegerLiteral.valueRead
      split
      · rfl
      · next hwhole => exact (hkept.resolve_left hwhole).symm
    rwa [← hsame]

def maskLiteral : IntegerLiteral where
  isNegative := true
  radix := .hexadecimal
  first := '1'
  rest := ['F', '_', 'f']
  first_digit := by decide
  rest_digits := List.forall_mem_cons.mpr ⟨by decide, List.forall_mem_cons.mpr
    ⟨by decide, List.forall_mem_singleton.mpr (by decide)⟩⟩

theorem extractsInteger_literal_mask :
    maskLiteral.text = "-0x1F_f" ∧ maskLiteral.value = -511 ∧
      ∀ options, ExtractsInteger options "-0x1F_f" "-511" := by
  have htext : maskLiteral.text = "-0x1F_f" := by decide
  have hvalue : maskLiteral.value = -511 := by decide
  refine ⟨htext, hvalue, fun options => ?_⟩
  have hlow : -2 ^ 63 < maskLiteral.value := by rw [hvalue]; decide
  have hhigh : maskLiteral.value < 2 ^ 63 := by rw [hvalue]; decide
  have hkept := (extractsInteger_literal options hlow hhigh).2.mpr (.inr (.inl rfl))
  have hdecimal : Number.decimal (-511) = "-511" := by decide
  rwa [htext, hvalue, hdecimal] at hkept

def modeLiteral : IntegerLiteral where
  isNegative := false
  radix := .octal
  first := '1'
  rest := ['7']
  first_digit := by decide
  rest_digits := List.forall_mem_singleton.mpr (by decide)

/-- The octal literal stands for fifteen, but its case is tagged with zero. -/
theorem not_extractsInteger_mode :
    let options : Options := ⟨"", "futureProof", .strict⟩
    modeLiteral.text = "0o17" ∧ modeLiteral.value = 15 ∧
      ¬ ExtractsInteger options modeLiteral.text (Number.decimal modeLiteral.value) := by
  intro options
  have hunion : (parse (rawIntegerSource modeLiteral.text)).map
      (fun decls => (declarations options [decls]).result) =
        .ok (.ok [("E", rawIntegerUnion "0")]) := by decide +kernel
  refine ⟨by decide, by decide, fun hvalue => ?_⟩
  have htag := rawIntegerUnion_inj (Prod.mk.inj (hvalue.eq_of_result hunion)).2
  exact absurd htag (by decide)

end Extraction

end WireSchema
