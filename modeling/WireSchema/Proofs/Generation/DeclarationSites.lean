import WireSchema.Proofs.Generation.CodeTypes
import WireSchema.Proofs.Generation.NameSites
import WireSchema.Proofs.Generation.NumberEnum

/-!
# Names in the code of structs and of enums with raw values

The names in the code, in the order in which they stand there. A member is written as
`identifier` has it wherever it stands: where it is declared, as a parameter, in an assignment
and as a coding key.
-/

namespace WireSchema.Generation

/-! ## Parts of several kinds -/

theorem CodeRow.conformance {row : String} {sites : List NameSite} (h : CodeRow row sites)
    (direction : Direction) : CodeRow (row ++ Generation.conformance direction) sites :=
  h.phrase _ (by cases direction <;> simp [phrases, Generation.conformance])

theorem rawTypeName_mem_phrases (raw : RawKind) : rawTypeName raw ∈ phrases := by
  cases raw <;> simp [rawTypeName, phrases]

def keySites (keys : List (String × String)) : List NameSite :=
  keys.map fun key => memberSite key.1

theorem codeRow_stringCase (indent : String) (hindent : indent ++ "case " ∈ phrases)
    (name value : String) : CodeRow (stringCase indent name value) [memberSite name] := by
  have hcase := (CodeRow.start (indent ++ "case ") hindent).member name
  unfold stringCase
  split
  · exact hcase
  · exact (hcase.phrase " = " (by simp [phrases])).literal value

theorem codeLines_stringCases (indent : String) (hindent : indent ++ "case " ∈ phrases)
    (entries : List (String × String)) :
    CodeLines (entries.map fun entry => stringCase indent entry.1 entry.2) (keySites entries) :=
  .mapMembers entries fun entry _ => codeRow_stringCase indent hindent entry.1 entry.2

theorem codeLines_codingKeyLines (keys : List (String × String)) :
    CodeLines (codingKeyLines keys) (keySites keys) := by
  have hopen := CodeLines.ofPhrases ["", "    enum CodingKeys: String, CodingKey \x7b"]
    (by simp [phrases])
  have hcases := codeLines_stringCases "        " (by simp [phrases]) keys
  exact (hopen.append hcases).phrases ["    \x7d"] (by simp [phrases])

theorem codeLines_singleValueDecoder {body : List String} {sites : List NameSite}
    (h : CodeLines body sites) : CodeLines (singleValueDecoder body) sites := by
  have hopen := CodeLines.ofPhrases ["", "    public init(from decoder: Decoder) throws \x7b",
    "        let container = try decoder.singleValueContainer()"] (by simp [phrases])
  exact (hopen.append h).phrases ["    \x7d"] (by simp [phrases])

def decoderSites (direction : Direction) (fallback : Option String) : List NameSite :=
  if direction.allowsDecode then fallback.toList.map memberSite else []

theorem codeLines_fallbackDecoder (direction : Direction) {rawType : String}
    (hraw : rawType ∈ phrases) (fallback : Option String) :
    CodeLines (fallbackDecoder direction rawType fallback) (decoderSites direction fallback) := by
  unfold fallbackDecoder decoderSites
  cases fallback with
  | none =>
    rw [Option.toList_none, List.map_nil, ite_self]
    exact .nil
  | some fallback =>
    dsimp only
    split
    · have hread := ((CodeRow.start "        let rawValue = try container.decode("
        (by simp [phrases])).phrase rawType hraw).phrase ".self)" (by simp [phrases])
      have hself := (CodeRow.start "        self = Self(rawValue: rawValue) ?? ."
        (by simp [phrases])).member fallback
      exact codeLines_singleValueDecoder (hread.line.append hself.line)
    · exact .nil

/-! ## Structs -/

/-- A field with its type: where it is declared, as a parameter and as a labeled value. -/
def FieldForm.sites (field : FieldForm) : List NameSite :=
  memberSite field.name :: typeSites field.type

theorem codeLines_fieldLines (field : FieldForm) : CodeLines (fieldLines field) field.sites := by
  have hrow := (((CodeRow.start "    public let " (by simp [phrases])).member field.name).phrase
    ": " (by simp [phrases])).type field.type
  exact (CodeLines.docs "    " (by decide) field.doc).append hrow.line

theorem codeRow_parameter (field : FieldForm) : CodeRow (parameter field) field.sites := by
  have hrow := (((CodeRow.start "        " (by simp [phrases])).member field.name).phrase
    ": " (by simp [phrases])).type field.type
  unfold parameter
  split
  · exact hrow.phrase " = nil" (by simp [phrases])
  · exact hrow.phrase "" (by simp [phrases])

/-- A field that is assigned from the parameter of its name, or encoded for the key of its name. -/
def FieldForm.twice (field : FieldForm) : List NameSite :=
  [memberSite field.name, memberSite field.name]

theorem codeRow_assignment (field : FieldForm) : CodeRow (assignment field) field.twice :=
  (((CodeRow.start "        self." (by simp [phrases])).member field.name).phrase
    " = " (by simp [phrases])).member field.name

def structKeySites (fields : List FieldForm) : List NameSite :=
  if fields.any fun field => field.wireName != field.name then
    keySites (fields.map fun field => (field.name, field.wireName))
  else []

theorem codeLines_structKeyLines (fields : List FieldForm) :
    CodeLines (structKeyLines fields) (structKeySites fields) := by
  unfold structKeyLines structKeySites
  split
  · exact codeLines_codingKeyLines _
  · exact .nil

def initializerSites (fields : List FieldForm) : List NameSite :=
  fields.flatMap FieldForm.sites ++ fields.flatMap FieldForm.twice

theorem codeLines_initializerLines (fields : List FieldForm) :
    CodeLines (initializerLines fields) (initializerSites fields) := by
  cases fields with
  | nil => exact .ofPhrases ["    public init() \x7b\x7d"] (by simp [phrases])
  | cons field later =>
    have hopen := CodeLines.ofPhrases ["", "    public init("] (by simp [phrases])
    have hparameters := CodeLines.commaSeparated (field :: later)
      fun field _ => codeRow_parameter field
    have hassignments := CodeLines.map (field :: later) fun field _ => codeRow_assignment field
    have hmiddle := (hopen.append hparameters).phrases ["    ) \x7b"] (by simp [phrases])
    exact (hmiddle.append hassignments).phrases ["    \x7d"] (by simp [phrases])

def structSites (typeName : String) (fields : List FieldForm) : List NameSite :=
  typeSite typeName ::
    (fields.flatMap FieldForm.sites ++ structKeySites fields ++ initializerSites fields)

theorem codeLines_structLines {namer : Namer} {name : String} {d : StructDef}
    {fields : List FieldForm} (hfields : namer.resolveFields d.fields.entries = .ok fields) :
    ∃ lines, structLines namer name d = .ok lines ∧
      CodeLines lines (structSites (namer.typeName name) fields) := by
  have hheader := (((CodeRow.start "public struct " (by simp [phrases])).typeName
    (namer.typeName name)).phrase ": " (by simp [phrases])).conformance d.direction
  have hopen := (CodeLines.docs "" (by decide) d.doc).append
    (hheader.phrase ", Sendable \x7b" (by simp [phrases])).line
  have hconstants := CodeLines.flatMap fields fun field _ => codeLines_fieldLines field
  have hbody := ((hopen.append hconstants).append (codeLines_structKeyLines fields)).append
    (codeLines_initializerLines fields)
  refine ⟨_, by rw [structLines, hfields]; rfl, ?_⟩
  simpa [structSites] using hbody.phrases ["\x7d"] (by simp [phrases])

/-! ## Enums with raw values -/

def stringEnumSites (typeName : String) (d : StringEnumDef) : List NameSite :=
  typeSite typeName :: (keySites (stringEntries d) ++ decoderSites d.direction d.fallbackCase)

theorem codeLines_stringEnumLines (namer : Namer) (name : String) (d : StringEnumDef) :
    CodeLines (stringEnumLines namer name d) (stringEnumSites (namer.typeName name) d) := by
  have hheader := (((CodeRow.start "public enum " (by simp [phrases])).typeName
    (namer.typeName name)).phrase ": String, " (by simp [phrases])).conformance d.direction
  have hopen := (CodeLines.docs "" (by decide) d.doc).append
    (hheader.phrase ", Sendable \x7b" (by simp [phrases])).line
  have hcases := codeLines_stringCases "    " (by simp [phrases]) (stringEntries d)
  rw [← addedCase_eq] at hcases
  have hbody := (hopen.append hcases).append
    (codeLines_fallbackDecoder d.direction (show "String" ∈ phrases by simp [phrases])
      d.fallbackCase)
  simpa [stringEnumLines, stringEnumSites] using hbody.phrases ["\x7d"] (by simp [phrases])

def numberedEnumSites (typeName : String) (d : UnionDef) : List NameSite :=
  typeSite typeName :: ((taggedCases d).map (fun c => memberSite c.name) ++
    decoderSites d.direction d.fallbackVariant)

theorem codeLines_numberedCase (doc : Option String) (name : String) {tag : String}
    (htag : ∃ negative number, Swift.IsSignedNumber tag.toList negative number) :
    CodeLines (docLines "    " doc ++ ["    case " ++ identifier name ++ " = " ++ tag])
      [memberSite name] := by
  obtain ⟨negative, number, hnumber⟩ := htag
  have hrow := (((CodeRow.start "    case " (by simp [phrases])).member name).phrase " = "
    (by simp [phrases])).number hnumber
  exact (CodeLines.docs "    " (by decide) doc).append hrow.line

theorem codeLines_numberedEnumLines (namer : Namer) (name : String) {d : UnionDef} {raw : RawKind}
    (hraw : d.rawValueType = some raw) :
    CodeLines (numberedEnumLines namer name d raw) (numberedEnumSites (namer.typeName name) d) := by
  have hraws := rawTypeName_mem_phrases raw
  have hheader := (((((CodeRow.start "public enum " (by simp [phrases])).typeName
    (namer.typeName name)).phrase ": " (by simp [phrases])).phrase _ hraws).phrase ", "
    (by simp [phrases])).conformance d.direction
  have hopen := (CodeLines.docs "" (by decide) d.doc).append
    (hheader.phrase ", Sendable \x7b" (by simp [phrases])).line
  have hcases : CodeLines ((numberedVariants d).flatMap fun entry =>
      numberedCaseLines entry.1 entry.2)
      ((numberedVariants d).flatMap fun entry => [memberSite entry.1]) :=
    .flatMap _ fun entry hentry => codeLines_numberedCase entry.2.doc entry.1
      (exists_isSignedNumber_of_rawKindOf? (isSome_rawKindOf?_of_rawValueType hraw hentry) entry.1)
  have hadded : CodeLines (numberedFallbackLines d) (d.fallbackVariant.toList.map memberSite) := by
    unfold numberedFallbackLines
    cases d.fallbackVariant with
    | none => exact .nil
    | some fallback => exact codeLines_numberedCase _ fallback (exists_isSignedNumber_decimal _)
  have hbody := ((hopen.append hcases).append hadded).append
    (codeLines_fallbackDecoder d.direction hraws d.fallbackVariant)
  simpa [numberedEnumLines, numberedEnumSites, taggedCases, taggedVariant, taggedFallback,
    ← List.map_eq_flatMap, Function.comp_def] using hbody.phrases ["\x7d"] (by simp [phrases])

end WireSchema.Generation
