import WireSchema.Proofs.Generation.Struct

/-!
# String enums in generated code as declarations

A generated string enum is read as one declaration with a case for each value, one
more for the fallback, and the decoder that falls back to it.
-/

namespace WireSchema.Generation

open Swift
open Text (isIdentifier)

/-! ## Decoders of raw values -/

def decoderParameterFaces : List Face :=
  [.word "from", .word "decoder", .symbol ":", .word "Decoder"]

/-- The body of the decoder up to the raw type. -/
def decodeRawFaces : List Face :=
  [.word "let", .word "container", .symbol "=", .word "try", .word "decoder", .symbol ".",
    .word "singleValueContainer", .symbol "(", .symbol ")",
    .word "let", .word "rawValue", .symbol "=", .word "try", .word "container", .symbol ".",
    .word "decode", .symbol "("]

def fallBackFaces : List Face :=
  [.symbol ".", .word "self", .symbol ")",
    .word "self", .symbol "=", .word "Self", .symbol "(", .word "rawValue", .symbol ":",
    .word "rawValue", .symbol ")", .symbol "??", .symbol "."]

def rawValueBodyFaces (rawType fallback : String) : List Face :=
  decodeRawFaces ++ .word rawType :: (fallBackFaces ++ [.word fallback])

def rawValueDecoderFaces (rawType fallback : String) : List Face :=
  initFaces [] decoderParameterFaces true (rawValueBodyFaces rawType fallback)

theorem spells_coalesce (next : Char → Bool) : Spells next "??" [.symbol "??"] :=
  spells_lexeme .symbol (fun _ _ => rfl) rfl

theorem spellsLines_rawValueDecoder {rawType fallback : String}
    (hraw : isIdentifier rawType = true) (hfallback : isIdentifier fallback = true) :
    SpellsLines (rawValueDecoder rawType fallback) (rawValueDecoderFaces rawType fallback) := by
  have hempty : SpellsLines [""] [] := .constant rfl
  have hopen : SpellsLines ["    public init(from decoder: Decoder) throws \x7b"]
      [.word "public", .word "init", .symbol "(", .word "from", .word "decoder", .symbol ":",
        .word "Decoder", .symbol ")", .word "throws", .symbol "\x7b"] := .constant rfl
  have hcontainer : SpellsLines ["        let container = try decoder.singleValueContainer()"]
      [.word "let", .word "container", .symbol "=", .word "try", .word "decoder", .symbol ".",
        .word "singleValueContainer", .symbol "(", .symbol ")"] := .constant rfl
  have hdecode : Spells breaksSymbol "        let rawValue = try container.decode("
      [.word "let", .word "rawValue", .symbol "=", .word "try", .word "container", .symbol ".",
        .word "decode", .symbol "("] := spells_constant rfl rfl
  have hself : Spells breaksSymbol ".self)" [.symbol ".", .word "self", .symbol ")"] :=
    spells_constant rfl rfl
  have hvalue := ((hdecode.append (spells_name hraw) (head?_name hraw)).append hself rfl).line rfl
  have hassign : Spells breaksSymbol "        self = Self(rawValue: rawValue)"
      [.word "self", .symbol "=", .word "Self", .symbol "(", .word "rawValue", .symbol ":",
        .word "rawValue", .symbol ")"] := spells_constant rfl rfl
  have hdot : Spells breaksSymbol " ." [.symbol "."] := spells_constant rfl rfl
  have hcoalesce := ((hassign.space rfl fun _ => true).append (spells_coalesce breaksSymbol) rfl
    ).append hdot rfl
  have hfall := (spells_constant_identifier hcoalesce hfallback).line rfl
  have hclose : SpellsLines ["    \x7d"] [.symbol "\x7d"] := .constant rfl
  have hlines := ((((hempty.append hopen).append hcontainer).append hvalue).append hfall).append
    hclose
  exact hlines

theorem balanced_rawValueBodyFaces {rawType fallback : String}
    (hraw : isIdentifier rawType = true) (hfallback : isIdentifier fallback = true) :
    Balanced "\x7b" "\x7d" (rawValueBodyFaces rawType fallback) := by
  have hfront : Balanced "\x7b" "\x7d" decodeRawFaces := fun _ => rfl
  have hback : Balanced "\x7b" "\x7d" fallBackFaces := fun _ => rfl
  exact hfront.append ((balanced_word hraw (by decide)).append
    (hback.append (balanced_word hfallback (by decide))))

theorem readsBody_rawValueDecoderFaces {rawType fallback : String}
    (hraw : isIdentifier rawType = true) (hfallback : isIdentifier fallback = true) :
    ReadsBody (rawValueDecoderFaces rawType fallback)
      (.ofFunction ⟨"init", some "from", rawValueBodyFaces rawType fallback⟩) :=
  readsBody_init [] true (fun _ => rfl) (balanced_rawValueBodyFaces hraw hfallback)

/-! ## String enums -/

def stringEntries (d : StringEnumDef) : List (String × String) :=
  d.values.entries ++ (d.fallbackCase.toList.filter fun fallback =>
    !d.values.contains fallback).map fun fallback => (fallback, fallback)

theorem addedCase_eq (d : StringEnumDef) :
    (d.values.entries.map fun entry => stringCase "    " entry.1 entry.2) ++ addedCase d =
      (stringEntries d).map fun entry => stringCase "    " entry.1 entry.2 := by
  have hself : ∀ name, stringCase "    " name name = "    case " ++ identifier name := by
    intro name
    rw [stringCase, if_pos rfl]
    rfl
  unfold addedCase stringEntries
  cases d.fallbackCase with
  | none => simp
  | some fallback =>
    cases hknown : d.values.contains fallback with
    | true => simp [hknown]
    | false => simp [hknown, hself]

def fallbackDecoderFaces (direction : Direction) (rawType : String) (fallback : Option String) :
    List Face :=
  match fallback with
  | some fallback => if direction.allowsDecode then rawValueDecoderFaces rawType fallback else []
  | none => []

def stringEnumBodyFaces (d : StringEnumDef) : List Face :=
  ((stringEntries d).flatMap fun entry => caseFaces [] entry.1 [] (rawText entry.1 entry.2)) ++
    fallbackDecoderFaces d.direction "String" d.fallbackCase

def stringEnumFaces (name : String) (d : StringEnumDef) : List Face :=
  typeDeclFaces (docTexts d.doc) .enum name (.primitive .string :: conformances d.direction)
    (stringEnumBodyFaces d)

theorem commaFaces_rawType (rawType : Primitive) (direction : Direction) :
    commaFaces ((.primitive rawType :: conformances direction).map typeFaces) =
      .word (primitiveText rawType) :: .symbol "," ::
        [.word (conformance direction), .symbol ",", .word "Sendable"] := by
  rw [← commaFaces_conformances]
  rfl

theorem spellsLines_fallbackDecoder {direction : Direction} {rawType : String}
    {fallback : Option String} (hraw : isIdentifier rawType = true)
    (hfallback : ∀ name ∈ fallback, isIdentifier name = true) :
    SpellsLines (fallbackDecoder direction rawType fallback)
      (fallbackDecoderFaces direction rawType fallback) := by
  unfold fallbackDecoder fallbackDecoderFaces
  cases fallback with
  | none => exact .nil
  | some fallback =>
    dsimp only
    split
    · exact spellsLines_rawValueDecoder hraw (hfallback fallback rfl)
    · exact .nil

theorem isIdentifier_of_mem_stringEntries {d : StringEnumDef}
    (hvalues : ∀ entry ∈ d.values.entries, isIdentifier entry.1 = true)
    (hfallback : ∀ fallback ∈ d.fallbackCase, isIdentifier fallback = true) :
    ∀ entry ∈ stringEntries d, isIdentifier entry.1 = true := by
  intro entry hentry
  rcases List.mem_append.mp hentry with hmem | hmem
  · exact hvalues entry hmem
  · obtain ⟨fallback, hkept, rfl⟩ := List.mem_map.mp hmem
    exact hfallback fallback (Option.mem_toList.mp (List.mem_filter.mp hkept).1)

theorem spellsLines_stringEnumLines {namer : Namer} {name : String} {d : StringEnumDef}
    (hname : isIdentifier (namer.typeName name) = true)
    (hvalues : ∀ entry ∈ d.values.entries, isIdentifier entry.1 = true)
    (hfallback : ∀ fallback ∈ d.fallbackCase, isIdentifier fallback = true) :
    SpellsLines (stringEnumLines namer name d) (stringEnumFaces (namer.typeName name) d) := by
  have hdocs : SpellsLines (docLines "" d.doc) _ := spellsLines_docLines rfl d.doc
  have henum : Spells breaksSymbol "public enum " [.word "public", .word "enum"] :=
    spells_constant rfl rfl
  have hraw : Spells breaksSymbol ": String, " [.symbol ":", .word "String", .symbol ","] :=
    spells_constant rfl rfl
  have hnamed := (henum.append (spells_name hname) (head?_name hname)).append hraw rfl
  have hheader := (hnamed.append (spells_conformances d.direction)
    (head?_conformances d.direction)).line rfl
  have hindent : Spells breaksSymbol ("    " ++ "case ") [.word "case"] := by
    have hjoined : "    " ++ "case " = "    case " := rfl
    rw [hjoined]
    exact spells_constant rfl rfl
  have hcases := SpellsLines.map fun entry hentry => spellsLines_stringCase hindent
    (isIdentifier_of_mem_stringEntries hvalues hfallback entry hentry) entry.2
  rw [← addedCase_eq] at hcases
  have hdecoder : SpellsLines (fallbackDecoder d.direction "String" d.fallbackCase) _ :=
    spellsLines_fallbackDecoder (by decide) hfallback
  have hclose : SpellsLines ["\x7d"] [.symbol "\x7d"] := .constant rfl
  have hlines := (((hdocs.append hheader).append hcases).append hdecoder).append hclose
  rw [stringEnumFaces, typeDeclFaces, bodyFaces, commaFaces_rawType]
  simpa [stringEnumLines, stringEnumBodyFaces, headingFaces, DeclKind.keyword, primitiveText,
    String.append_assoc] using hlines

def stringEnumOutline (d : StringEnumDef) : Outline where
  properties := []
  cases := stringCases (stringEntries d)
  functions := d.fallbackCase.toList.flatMap fun fallback =>
    if d.direction.allowsDecode then
      [⟨"init", some "from", rawValueBodyFaces "String" fallback⟩]
    else []
  types := []

theorem readsBody_stringEnumBodyFaces {d : StringEnumDef}
    (hfallback : ∀ fallback ∈ d.fallbackCase, isIdentifier fallback = true) :
    ReadsBody (stringEnumBodyFaces d) (stringEnumOutline d) := by
  have hcases := readsBody_stringCases (stringEntries d)
  unfold stringEnumBodyFaces fallbackDecoderFaces stringEnumOutline
  cases hcase : d.fallbackCase with
  | none =>
    have hbody := hcases.append .nil (.inl rfl)
    simpa [Outline.append_eq, Outline.ofCases, Outline.empty] using hbody
  | some fallback =>
    cases hdecode : d.direction.allowsDecode with
    | false =>
      have hbody := hcases.append .nil (.inl rfl)
      simpa [Outline.append_eq, Outline.ofCases, Outline.empty] using hbody
    | true =>
      have hdecoder : ReadsBody (rawValueDecoderFaces "String" fallback) _ :=
        readsBody_rawValueDecoderFaces (by decide) (hfallback fallback hcase)
      have hbody := hcases.append hdecoder (.inr rfl)
      simpa [Outline.append_eq, Outline.ofCases, Outline.ofFunction] using hbody

/-- A generated string enum is one declaration. -/
theorem readsSource_stringEnumFaces (name : String) {d : StringEnumDef}
    (hfallback : ∀ fallback ∈ d.fallbackCase, isIdentifier fallback = true) :
    ReadsSource (stringEnumFaces name d)
      [.type (typeHeader (docTexts d.doc) .enum name
        (.primitive .string :: conformances d.direction)) (stringEnumOutline d)] := by
  refine readsSource_type (docTexts d.doc) name (by decide) (by simp) (fun t ht => ?_)
    (readsBody_stringEnumBodyFaces hfallback)
  rcases List.mem_cons.mp ht with rfl | ht
  · exact standsAlone_primitive .string
  · exact standsAlone_of_mem_conformances t ht

end WireSchema.Generation
