import Mathlib.Tactic.MkIffOfInductiveProp
import WireSchema.Extraction.Context
import WireSchema.Generation.Generate
import WireSchema.Proofs.Swift.Declarations
import WireSchema.Proofs.Text.Lines

/-!
# Lines of generated code as tokens

What lines that occur in many places read as: documentation, cases with a string,
coding keys. Documentation that does not end in white space on any line is found
again in the comments that it is written as.
-/

namespace WireSchema.Generation

open Extraction (joinDocs)
open Swift
open Text (isIdentifier isBlank TrimmedLines)

theorem toList_joinLines {lines : List String} (hne : lines ≠ []) :
    (joinLines lines).toList = lineChars lines := by
  rw [joinLines, String.toList_append]
  induction lines with
  | nil => exact absurd rfl hne
  | cons line later ih =>
    cases later with
    | nil =>
      rw [String.intercalate_singleton]
      simp [lineChars]
    | cons next later =>
      have hlater := ih (List.cons_ne_nil next later)
      rw [String.intercalate_cons_cons, String.toList_append, String.toList_append,
        List.append_assoc, hlater]
      simp [lineChars]

theorem tokenize_joinLines {lines : List String} {faces : List Face} (h : SpellsLines lines faces) :
    ∃ stream, tokenize (joinLines lines) = .ok stream ∧ stream.tokens.map Token.face = faces := by
  cases lines with
  | nil =>
    -- Without lines there is still the line feed at the end.
    have hempty : SpellsLines [""] [] := .constant rfl
    exact tokenize_of_spellsLines rfl (hempty.append h)
  | cons line later => exact tokenize_of_spellsLines (toList_joinLines (List.cons_ne_nil _ _)) h

/-! ## Documentation -/

/-- Documentation of which no character is lost in comments. -/
@[mk_iff]
structure IsPlainDoc (doc : String) : Prop where
  nonempty : doc ≠ ""
  lines : TrimmedLines doc.toList

instance (doc : String) : Decidable (IsPlainDoc doc) :=
  decidable_of_iff' _ (isPlainDoc_iff ..)

def docTexts (doc : Option String) : List String :=
  (doc.toList.flatMap fun text => Text.lines text.toList).map fun line =>
    String.ofList (Text.trimEndChars line)

/-- The text of a comment with one line of documentation. -/
theorem spellsLines_docLine {indent : String} (hindent : indent.toList.all isBlank = true)
    {line : List Char} (hline : '\n' ∉ line) :
    SpellsLines [docLine indent line] [.doc (String.ofList (Text.trimEndChars line))] := by
  unfold docLine
  split
  · next hempty =>
    rw [List.isEmpty_iff.mp hempty]
    exact .docLine hindent (show "///".toList = ['/', '/', '/'] ++ [] from rfl) List.not_mem_nil
  · have hbody : ("/// " ++ String.ofList line).toList = ['/', '/', '/'] ++ ' ' :: line := by
      simp
    have htext : docLineText (' ' :: line) = Text.trimEndChars line := by
      have hstrip : Text.stripStart? [' '] (' ' :: line) = some line :=
        Text.stripStart?_append [' '] line
      rw [docLineText, hstrip]
      rfl
    have hspace : '\n' ∉ ' ' :: line := by
      intro hmem
      rcases List.mem_cons.mp hmem with heq | hmem
      · cases heq
      · exact hline hmem
    have hspells := SpellsLines.docLine hindent hbody hspace
    rwa [htext, ← String.append_assoc] at hspells

theorem spellsLines_docLines {indent : String} (hindent : indent.toList.all isBlank = true)
    (doc : Option String) : SpellsLines (docLines indent doc) ((docTexts doc).map Face.doc) := by
  cases doc with
  | none => exact .nil
  | some text =>
    have hlines : SpellsLines ((Text.lines text.toList).map (docLine indent))
        ((Text.lines text.toList).flatMap fun line =>
          [.doc (String.ofList (Text.trimEndChars line))]) :=
      .map fun line hline =>
        spellsLines_docLine hindent (Text.lineFeed_notMem_of_mem_lines hline)
    have hfaces : (docTexts (some text)).map Face.doc = (Text.lines text.toList).flatMap fun line =>
        [.doc (String.ofList (Text.trimEndChars line))] := by
      simp [docTexts, List.map_eq_flatMap, List.flatMap_assoc]
    rw [hfaces]
    exact hlines

/-- Lines that do not end in white space are the texts of the comments. -/
theorem docTexts_eq {text : String} {parts : List (List Char)}
    (hlines : Text.lines text.toList = parts)
    (htrimmed : ∀ part ∈ parts, part.getLast?.any isBlank = false) :
    docTexts (some text) = parts.map String.ofList := by
  rw [docTexts, Option.toList_some, List.flatMap_singleton, hlines]
  refine List.map_congr_left fun part hpart => ?_
  have hlast := (Option.any_eq_false _ _).mp (htrimmed part hpart)
  rw [Text.trimEndChars_of_getLast? fun c hc => by simpa using hlast c hc]

theorem joinDocs_of_ne_nil {texts : List String} (hne : texts ≠ []) :
    joinDocs texts = some (String.intercalate "\n" texts) := by
  rw [joinDocs, if_neg (by rwa [List.isEmpty_iff])]

theorem joinDocs_map_ofList {parts : List (List Char)} (hne : parts ≠ []) :
    joinDocs (parts.map String.ofList) = some (String.ofList (['\n'].intercalate parts)) := by
  rw [joinDocs_of_ne_nil (by simpa using hne)]
  refine congrArg some (String.toList_inj.mp ?_)
  have hid : String.toList ∘ String.ofList = id := funext fun _ => String.toList_ofList
  rw [String.toList_intercalate, List.map_map, hid, List.map_id]
  exact String.toList_ofList.symm

/-- Documentation is what its comments say. -/
theorem joinDocs_docTexts {doc : Option String} (h : ∀ text ∈ doc, IsPlainDoc text) :
    joinDocs (docTexts doc) = doc := by
  cases doc with
  | none => rfl
  | some text =>
    have hplain := h text rfl
    have hchars : text.toList ≠ [] := by
      intro hnil
      exact hplain.nonempty (String.toList_eq_nil_iff.mp hnil)
    rw [docTexts_eq (hplain.lines.lines_eq_splitOn hchars) hplain.lines.trimmed,
      joinDocs_map_ofList (List.splitOn_ne_nil _ _), List.intercalate_splitOn, String.ofList_toList]

/-! ## Names -/

theorem spells_identifier {name : String} (h : isIdentifier name = true) :
    Spells breaksName (identifier name) [.word name] := by
  unfold identifier
  split
  · exact spells_quotedName h breaksName
  · exact spells_name h

theorem head?_identifier {name : String} (h : isIdentifier name = true) :
    (identifier name).toList.head?.any breaksSymbol = true := by
  unfold identifier
  split
  · rw [String.append_assoc, String.toList_append]
    rfl
  · exact head?_name h

/-- A name in front of which nothing but a constant piece stands. -/
theorem spells_constant_identifier {text name : String} {faces : List Face}
    (htext : Spells breaksSymbol text faces) (h : isIdentifier name = true) :
    Spells breaksName (text ++ identifier name) (faces ++ [.word name]) :=
  htext.append (spells_identifier h) (head?_identifier h)

/-! ## Items with commas -/

/-- Does an item of a list end before this character? -/
def endsItem (c : Char) : Bool :=
  c == ',' || c == '\n'

theorem spellsLines_commaSeparated {α : Type} {items : List α} {text : α → String}
    {faces : α → List Face} (h : ∀ item ∈ items, Spells endsItem (text item) (faces item)) :
    SpellsLines (commaSeparated (items.map text)) (commaFaces (items.map faces)) := by
  induction items with
  | nil => exact .nil
  | cons item later ih =>
    have hitem := h item List.mem_cons_self
    have hlater := ih fun next hnext => h next (List.mem_cons_of_mem item hnext)
    cases later with
    | nil => exact hitem.line rfl
    | cons next later =>
      have hcomma : Spells breaksSymbol "," [.symbol ","] := spells_constant rfl rfl
      have hline := (hitem.append hcomma rfl).line rfl
      have hlines := hline.cons hlater
      rw [List.append_assoc] at hlines
      exact hlines

/-! ## Cases with a string -/

/-- The raw value of the case for a string; none if it is the name of the case. -/
def rawText (name value : String) : Option String :=
  if name = value then none else some value

theorem head?_stringLiteral (text : String) :
    (stringLiteral text).toList.head?.any breaksSymbol = true := by
  rw [stringLiteral, String.toList_ofList]
  rfl

theorem spellsLines_stringCase {indent name : String}
    (hindent : Spells breaksSymbol (indent ++ "case ") [.word "case"])
    (hname : isIdentifier name = true) (value : String) :
    SpellsLines [stringCase indent name value] (caseFaces [] name [] (rawText name value)) := by
  have hcase := spells_constant_identifier hindent hname
  unfold stringCase rawText
  split
  · exact hcase.line rfl
  · have hequals : Spells breaksSymbol " = " [.symbol "="] := spells_constant rfl rfl
    have hvalue := (hcase.append hequals rfl).append (spells_stringLiteral value)
      (head?_stringLiteral value)
    exact hvalue.line rfl

/-! ## Coding keys -/

def codingKeyTypes : List TypeExpr := [.primitive .string, .custom "CodingKey"]

def codingKeyFaces (keys : List (String × String)) : List Face :=
  nestedEnumFaces "CodingKeys" codingKeyTypes
    (keys.flatMap fun key => caseFaces [] key.1 [] (rawText key.1 key.2))

theorem spellsLines_codingKeyLines {keys : List (String × String)}
    (h : ∀ key ∈ keys, isIdentifier key.1 = true) :
    SpellsLines (codingKeyLines keys) (codingKeyFaces keys) := by
  have hindent : Spells breaksSymbol ("        " ++ "case ") [.word "case"] := by
    have hjoined : "        " ++ "case " = "        case " := rfl
    rw [hjoined]
    exact spells_constant rfl rfl
  have hcases : SpellsLines (keys.map fun key => stringCase "        " key.1 key.2)
      (keys.flatMap fun key => caseFaces [] key.1 [] (rawText key.1 key.2)) :=
    .map fun key hkey => spellsLines_stringCase hindent (h key hkey) key.2
  have hempty : SpellsLines [""] [] := .constant rfl
  have hopen : SpellsLines ["    enum CodingKeys: String, CodingKey \x7b"]
      [.word "enum", .word "CodingKeys", .symbol ":", .word "String", .symbol ",",
        .word "CodingKey", .symbol "\x7b"] := .constant rfl
  have hclose : SpellsLines ["    \x7d"] [.symbol "\x7d"] := .constant rfl
  have hlines := ((hempty.append hopen).append hcases).append hclose
  have htypes : commaFaces (codingKeyTypes.map typeFaces) =
      [.word "String", .symbol ",", .word "CodingKey"] := by decide
  have hfaces : codingKeyFaces keys = [] ++
      [.word "enum", .word "CodingKeys", .symbol ":", .word "String", .symbol ",",
        .word "CodingKey", .symbol "\x7b"] ++
      (keys.flatMap fun key => caseFaces [] key.1 [] (rawText key.1 key.2)) ++
        [.symbol "\x7d"] := by
    rw [codingKeyFaces, nestedEnumFaces, bodyFaces, htypes]
    simp [headingFaces]
  rw [hfaces]
  exact hlines

def stringCases (values : List (String × String)) : List EnumCase :=
  values.map fun entry => enumCase [] entry.1 [] (rawText entry.1 entry.2)

theorem readsBody_stringCases (values : List (String × String)) :
    ReadsBody (values.flatMap fun entry => caseFaces [] entry.1 [] (rawText entry.1 entry.2))
      (.ofCases (stringCases values)) := by
  have hcases : ∀ entry ∈ values,
      ReadsBody (caseFaces [] entry.1 [] (rawText entry.1 entry.2))
        (.ofCases [enumCase [] entry.1 [] (rawText entry.1 entry.2)]) := by
    intro entry _
    exact readsBody_case [] entry.1 (rawText entry.1 entry.2) (by simp)
  have hbody := ReadsBody.flatMap hcases fun _ _ => rfl
  rwa [Outline.flatten_ofCases] at hbody

theorem standsAlone_of_mem_codingKeyTypes : ∀ t ∈ codingKeyTypes, StandsAlone t := by
  intro t ht
  simp only [codingKeyTypes, List.mem_cons, List.not_mem_nil, or_false] at ht
  rcases ht with rfl | rfl
  · exact standsAlone_primitive .string
  · exact standsAlone_custom (by decide) (by decide)

/-- Coding keys are read as a nested type with a case for each. -/
theorem readsBody_codingKeyFaces (keys : List (String × String)) :
    ReadsBody (codingKeyFaces keys) (.ofType "CodingKeys" (stringCases keys)) :=
  readsBody_nestedEnum "CodingKeys" (by decide) standsAlone_of_mem_codingKeyTypes
    (readsBody_stringCases keys)

end WireSchema.Generation
