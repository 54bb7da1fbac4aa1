import Mathlib.Data.Finset.Dedup
import Mathlib.Data.Finset.Insert
import WireSchema.Generation.Lines
import WireSchema.Proofs.Extraction.Outline
import WireSchema.Proofs.Swift.TypeMeaning

/-!
# Conformances as they are written

A type conforms to the protocols that its own clause and the clauses of its extensions list. An
entry of a clause may compose several protocols, but is kept as one text, in which none of them
is found again. So the protocols count that are entries by themselves, and of these just the
set: their order, their repetition, the clauses they stand in and the module before their names
make no difference.
-/

namespace WireSchema

namespace Swift

/-! ## Sources -/

structure TypeSource where
  docs : List String
  isPublic : Bool
  kind : DeclKind
  isData : kind = .struct ∨ kind = .enum
  name : String
  clause : List Composition
  body : List Face
  members : Outline
  closes : ClosesBody body members

structure ExtensionSource where
  docs : List String
  isPublic : Bool
  name : String
  clause : List Composition
  body : List Face
  members : Outline
  closes : ClosesBody body members

/-- Other declarations, among which are no extensions. -/
structure OtherSource where
  faces : List Face
  outlines : List DeclOutline
  reads : ReadsSource faces outlines
  starts : faces.head?.all (fun face => endsType (face.token .start)) = true
  extendsNothing : ∀ header members, .extension header members ∉ outlines

inductive DeclSource where
  | type (source : TypeSource)
  | extension (source : ExtensionSource)
  | other (source : OtherSource)

namespace TypeSource

variable (source : TypeSource)

def faces : List Face :=
  headingFaces source.docs source.isPublic ++
    declFaces source.kind.keyword source.name (source.clause.map Composition.faces) source.body

def outline : DeclOutline :=
  .type ⟨source.kind, source.name, .start, source.docs, [], false,
    source.clause.map Composition.text⟩ source.members

theorem kind_ne_classType : source.kind ≠ .classType := by
  rcases source.isData with hkind | hkind <;> simp [hkind]

end TypeSource

namespace ExtensionSource

variable (source : ExtensionSource)

def faces : List Face :=
  headingFaces source.docs source.isPublic ++
    declFaces "extension" source.name (source.clause.map Composition.faces) source.body

def outline : DeclOutline :=
  .extension ⟨source.name, .start, source.clause.map Composition.text⟩ source.members

end ExtensionSource

namespace DeclSource

def faces : DeclSource → List Face
  | type source => source.faces
  | extension source => source.faces
  | other source => source.faces

def outlines : DeclSource → List DeclOutline
  | type source => [source.outline]
  | extension source => [source.outline]
  | other source => source.outlines

end DeclSource

theorem DeclSource.starts (source : DeclSource) :
    source.faces.head?.all (fun face => endsType (face.token .start)) = true := by
  cases source with
  | type source =>
    refine endsType_head?_headingFaces source.docs source.isPublic ?_
    rcases source.isData with hkind | hkind <;> rw [hkind] <;> rfl
  | extension source => exact endsType_head?_headingFaces source.docs source.isPublic rfl
  | other source => exact source.starts

theorem DeclSource.reads (source : DeclSource) : ReadsSource source.faces source.outlines := by
  cases source with
  | type source =>
    exact readsSource_typeDecl source.docs source.isPublic source.name source.kind_ne_classType
      (fun entry _ => readsEntry_composition entry) source.closes
  | extension source =>
    exact readsSource_extensionDecl source.docs source.isPublic source.name
      (fun entry _ => readsEntry_composition entry) source.closes
  | other source => exact source.reads

/-- The declarations of a file are read one after the other. -/
theorem readsSource_flatMap (sources : List DeclSource) :
    (sources.flatMap DeclSource.faces).head?.all
        (fun face => endsType (face.token .start)) = true ∧
      ReadsSource (sources.flatMap DeclSource.faces) (sources.flatMap DeclSource.outlines) := by
  induction sources with
  | nil => exact ⟨rfl, .nil⟩
  | cons source later ih =>
    refine ⟨?_, source.reads.append ih.2 ih.1⟩
    have hstarts := source.starts
    rw [List.flatMap_cons, List.head?_append]
    cases hhead : source.faces.head? with
    | none => exact ih.1
    | some face =>
      rw [hhead] at hstarts
      exact hstarts

/-- Files whose texts are spelled are parsed as what they declare. -/
theorem mapM_parse_of_lexes {texts : List String} {files : List (List DeclSource)}
    (h : List.Forall₂ (fun text sources => Lexes text.toList (sources.flatMap DeclSource.faces))
      texts files) :
    ∃ parsed : List (List Decl), texts.mapM parse = .ok parsed ∧
      parsed.flatten.map Decl.outline = files.flatten.flatMap DeclSource.outlines := by
  induction h with
  | nil => exact ⟨[], rfl, rfl⟩
  | @cons text sources texts files htext _ ih =>
    obtain ⟨decls, hparse, houtlines⟩ :=
      parse_of_readsWhole htext (readsSource_flatMap sources).2.whole
    obtain ⟨parsed, hlater, hparsed⟩ := ih
    refine ⟨decls :: parsed, ?_, ?_⟩
    · rw [List.mapM_cons, hparse, hlater]
      rfl
    · rw [List.flatten_cons, List.map_append, houtlines, hparsed, List.flatten_cons,
        List.flatMap_append]

/-! ## Protocols -/

namespace Composition

/-- The protocols that are composed, without the module that declares them. -/
def protocols (entry : Composition) : List String :=
  entry.names.map localName

def isSingle (entry : Composition) : Bool :=
  entry.names.length == 1

/-- Composed names have a space between them. -/
theorem space_mem_text {entry : Composition} (h : entry.isSingle = false) :
    ' ' ∈ entry.text.toList := by
  obtain ⟨names, hne, hdotted⟩ := entry
  cases names with
  | nil => exact absurd rfl hne
  | cons name later =>
    cases later with
    | nil => cases h
    | cons next later => simp [text, String.toList_intercalate]

/-- The text of an entry names a protocol only if the entry is that protocol by itself. -/
theorem localName_text_eq_iff (entry : Composition) {protocol : String}
    (hspace : ' ' ∉ protocol.toList) :
    localName entry.text = protocol ↔ entry.isSingle = true ∧ protocol ∈ entry.protocols := by
  by_cases hsingle : entry.isSingle = true
  · obtain ⟨name, hname⟩ := List.length_eq_one_iff.mp (beq_iff_eq.mp hsingle)
    have htext : entry.text = name := by rw [text, hname, String.intercalate_singleton]
    simp [hsingle, htext, protocols, hname, eq_comm]
  · rw [Bool.not_eq_true] at hsingle
    have hmem := space_mem_text hsingle
    constructor
    · intro hlocal
      rcases localName_eq hlocal with hsame | hqualified
      · exact absurd (hsame ▸ hmem) hspace
      · rw [hqualified] at hmem
        exact absurd (by simpa using hmem) hspace
    · rintro ⟨htrue, -⟩
      simp [hsingle] at htrue

end Composition

/-- All protocols that entries name, composed or not. -/
def conformed (entries : List Composition) : Finset String :=
  (entries.flatMap Composition.protocols).toFinset

/-- The protocols that are entries by themselves. -/
def listed (entries : List Composition) : Finset String :=
  conformed (entries.filter Composition.isSingle)

theorem listed_subset_conformed (entries : List Composition) : listed entries ⊆ conformed entries := by
  intro protocol hmem
  simp only [listed, conformed, List.mem_toFinset, List.mem_flatMap, List.mem_filter] at hmem ⊢
  obtain ⟨entry, ⟨hentry, -⟩, hprotocol⟩ := hmem
  exact ⟨entry, hentry, hprotocol⟩

theorem mem_listed_iff {entries : List Composition} {protocol : String}
    (hspace : ' ' ∉ protocol.toList) :
    protocol ∈ entries.map (fun entry => localName entry.text) ↔ protocol ∈ listed entries := by
  simp only [listed, conformed, List.mem_toFinset, List.mem_flatMap, List.mem_filter, List.mem_map,
    Composition.localName_text_eq_iff _ hspace, and_assoc]

/-! ## Entries of a type -/

/-- What the type of the name inherits by the declaration, if that is an extension of it. -/
def DeclOutline.inheritedBy (name : String) (outline : DeclOutline) : List String :=
  if outline.isExtensionOf name then outline.inherited else []

@[simp] theorem DeclOutline.inheritedBy_extension (name : String) (header : ExtensionHeader)
    (body : Outline) : (extension header body).inheritedBy name =
      if header.name == name then header.inherited else [] :=
  rfl

namespace DeclSource

def entriesFor (name : String) : DeclSource → List Composition
  | extension source => if source.name == name then source.clause else []
  | _ => []

theorem flatMap_inheritedBy (name : String) (source : DeclSource) :
    source.outlines.flatMap (DeclOutline.inheritedBy name) =
      (source.entriesFor name).map Composition.text := by
  cases source with
  | type source => rfl
  | extension source =>
    rw [outlines, List.flatMap_singleton, ExtensionSource.outline,
      DeclOutline.inheritedBy_extension, entriesFor]
    split <;> rfl
  | other source =>
    refine List.flatMap_eq_nil_iff.mpr fun outline hmem => ?_
    cases outline with
    | type | typealias => rfl
    | extension header members => exact absurd hmem (source.extendsNothing header members)

end DeclSource

/-- The entries for a type: those of its own clause and those of its extensions in all files. -/
def TypeSource.entries (source : TypeSource) (files : List (List DeclSource)) : List Composition :=
  source.clause ++ files.flatten.flatMap (DeclSource.entriesFor source.name)

end Swift

namespace Extraction

open Swift
open Generation (conformance)

theorem flatMap_extensionsNamed (decls : List Decl) (name : String) :
    (extensionsNamed (extensionsOf decls) name).flatMap (fun extension_ => extension_.inherited) =
      (decls.map Decl.outline).flatMap (DeclOutline.inheritedBy name) := by
  induction decls with
  | nil => rfl
  | cons decl later ih =>
    rw [List.map_cons, List.flatMap_cons, ← ih]
    cases decl with
    | type | typealias => rfl
    | extension decl =>
      have hcons : extensionsOf (.extension decl :: later) = decl :: extensionsOf later := rfl
      rw [hcons, extensionsNamed, List.filter_cons]
      cases hname : decl.name == name <;> simp [Decl.outline, hname, extensionsNamed]

/-! ## The direction -/

/-- The direction that a set of protocols stands for. Without any of the coding protocols values
travel both ways. -/
def directionFor (protocols : Finset String) : Direction :=
  if "Codable" ∈ protocols then .both
  else if "Encodable" ∈ protocols then if "Decodable" ∈ protocols then .both else .encode
  else if "Decodable" ∈ protocols then .decode
  else .both

def codingProtocols : List String :=
  ["Codable", "Encodable", "Decodable"]

theorem directionFor_congr {protocols protocols' : Finset String}
    (h : ∀ protocol ∈ codingProtocols, protocol ∈ protocols ↔ protocol ∈ protocols') :
    directionFor protocols = directionFor protocols' := by
  simp only [codingProtocols, List.forall_mem_cons] at h
  obtain ⟨hcodable, hencodable, hdecodable, -⟩ := h
  simp only [directionFor, hcodable, hencodable, hdecodable]

/-- Directions that are merged are one direction only if all of them are. -/
theorem foldl_merge (first : Direction) (later : List Direction) :
    later.foldl Direction.merge first = if ∀ d ∈ later, d = first then first else .both := by
  induction later generalizing first with
  | nil => rfl
  | cons d later ih =>
    rw [List.foldl_cons, ih]
    by_cases hsame : first = d
    · subst hsame
      simp [Direction.merge]
    · have hmerge : first.merge d = .both := by rw [Direction.merge, if_neg hsame]
      rw [hmerge, ite_self, if_neg]
      intro hall
      exact hsame (hall d List.mem_cons_self).symm

namespace TypeContext

variable {ctx : TypeContext}

theorem directionOf?_eq_some_iff {name : String} {d : Direction} :
    directionOf? name = some d ↔ name = conformance d := by
  constructor
  · intro h
    unfold directionOf? at h
    split at h <;> cases h <;> rfl
  · rintro rfl
    cases d <;> rfl

theorem mem_shown_iff (ctx : TypeContext) (d : Direction) :
    d ∈ ctx.conformances.filterMap directionOf? ↔ conformance d ∈ ctx.conformances := by
  simp only [List.mem_filterMap, directionOf?_eq_some_iff, exists_eq_right]

/-- The direction depends on the set of the conformances. -/
theorem direction_eq : ctx.direction = directionFor ctx.conformances.toFinset := by
  have hboth := mem_shown_iff ctx .both
  have hencode := mem_shown_iff ctx .encode
  have hdecode := mem_shown_iff ctx .decode
  simp only [conformance] at hboth hencode hdecode
  simp only [direction, directionFor, List.mem_toFinset, ← hboth, ← hencode, ← hdecode]
  cases ctx.conformances.filterMap directionOf? with
  | nil => rfl
  | cons first later =>
    show later.foldl Direction.merge first = _
    rw [foldl_merge]
    by_cases hall : ∀ d ∈ later, d = first
    · have hmem : ∀ d, d ∈ first :: later ↔ d = first := by
        intro d
        rw [List.mem_cons, or_iff_left_of_imp (hall d)]
      simp only [if_pos hall, hmem]
      cases first <;> rfl
    · rw [if_neg hall]
      obtain ⟨other, hother, hne⟩ : ∃ other ∈ later, other ≠ first := by simpa using hall
      cases first <;> cases other <;> simp_all

end TypeContext

/-! ## What is recognized -/

/-- Does extraction see the type as one that conforms to the protocols? -/
structure TypeContext.Recognizes (ctx : TypeContext) (protocols : Finset String) : Prop where
  direction : ctx.direction = directionFor protocols
  conformsTo : ∀ literal ∈ literalProtocols,
    ctx.conformsTo literal.protocol = true ↔ literal.protocol ∈ protocols

theorem TypeContext.Recognizes.iff_congr {ctx : TypeContext} {protocols protocols' : Finset String}
    (h : ctx.Recognizes protocols) :
    ctx.Recognizes protocols' ↔ directionFor protocols = directionFor protocols' ∧
      ∀ literal ∈ literalProtocols,
        literal.protocol ∈ protocols ↔ literal.protocol ∈ protocols' := by
  constructor
  · intro h'
    refine ⟨h.direction.symm.trans h'.direction, fun literal hmem => ?_⟩
    rw [← h.conformsTo literal hmem, h'.conformsTo literal hmem]
  · rintro ⟨hdirection, hliterals⟩
    refine ⟨h.direction.trans hdirection, fun literal hmem => ?_⟩
    rw [h.conformsTo literal hmem, hliterals literal hmem]

def soughtProtocols : List String :=
  codingProtocols ++ literalProtocols.map LiteralProtocol.protocol

theorem TypeContext.recognizes_listed {ctx : TypeContext} {entries : List Composition}
    (h : ctx.conformances = entries.map fun entry => localName entry.text) :
    ctx.Recognizes (listed entries) := by
  have hmem : ∀ protocol ∈ soughtProtocols,
      protocol ∈ ctx.conformances ↔ protocol ∈ listed entries := by
    intro protocol hsought
    have hspace : ∀ sought ∈ soughtProtocols, ' ' ∉ sought.toList := by decide
    rw [h, mem_listed_iff (hspace protocol hsought)]
  constructor
  · rw [TypeContext.direction_eq]
    refine directionFor_congr fun protocol hcoding => ?_
    rw [List.mem_toFinset, hmem protocol (List.mem_append_left _ hcoding)]
  · intro literal hliteral
    rw [TypeContext.conformsTo, List.contains_iff_mem]
    exact hmem _ (List.mem_append_right _ (List.mem_map_of_mem hliteral))

/-! ## Definitions -/

section

variable (ctx : TypeContext) (fallbackCase : String)

theorem direction?_lowerStruct :
    (lowerStruct ctx).Gives fun definition => definition.direction? = some ctx.direction :=
  .andThen fun _ => .pure rfl

theorem direction?_lowerStringEnum :
    (lowerStringEnum fallbackCase ctx).Gives fun definition =>
      definition.direction? = some ctx.direction :=
  .andThen fun _ => .pure rfl

theorem direction?_lowerNumberedEnum :
    (lowerNumberedEnum fallbackCase ctx).Gives fun definition =>
      definition.direction? = some ctx.direction :=
  .andThen fun _ => .pure rfl

theorem direction?_lowerUnion :
    (lowerUnion fallbackCase ctx).Gives fun definition =>
      definition.direction? = some ctx.direction := by
  refine .andThen fun entries => ?_
  dsimp only
  split
  · exact .andThen fun _ => .andThen fun _ => .andThen fun _ => .pure rfl
  · exact .andThen fun _ => .andThen fun _ => .pure rfl

end

/-- A definition has the direction of its type. -/
theorem direction?_lowerType {ctx : TypeContext} {fallbackCase : String}
    {lowering : Lowering TypeDef} (h : lowerType fallbackCase ctx = some lowering) :
    lowering.Gives fun definition => definition.direction? = some ctx.direction := by
  unfold lowerType at h
  split at h
  · cases h
  · split at h
    · cases h
      exact direction?_lowerStruct ctx
    · cases h
      exact direction?_lowerStruct ctx
    · cases h
      unfold lowerEnum
      split
      · exact direction?_lowerUnion ctx fallbackCase
      · exact direction?_lowerNumberedEnum ctx fallbackCase
      · exact direction?_lowerStringEnum ctx fallbackCase
      · exact .fail _
    · cases h
    · cases h

theorem direction?_extractDecl {options : Options} {extensions : List ExtensionDecl}
    {decl : TypeDecl} {name : String} {definition : TypeDef}
    (h : (extractDecl options extensions (.type decl)).result = .ok (some (name, definition))) :
    definition.direction? =
      some (TypeContext.direction ⟨decl, extensionsNamed extensions decl.name⟩) := by
  obtain ⟨lowering, hlower, hresult⟩ := exists_lowerDecl_of_extractDecl h
  obtain ⟨found, htype, hsame⟩ := Option.map_eq_some_iff.mp hlower
  cases hsame
  exact direction?_lowerType htype definition hresult

/-! ## Types with their extensions -/

theorem conformances_eq {source : TypeSource} {files : List (List DeclSource)}
    {decls : List Decl} {decl : TypeDecl}
    (hdecls : decls.map Decl.outline = files.flatten.flatMap DeclSource.outlines)
    (hdecl : (Decl.type decl).outline = source.outline) :
    TypeContext.conformances ⟨decl, extensionsNamed (extensionsOf decls) decl.name⟩ =
      (source.entries files).map fun entry => localName entry.text := by
  have hheader := (DeclOutline.type.inj hdecl).1
  have hname : decl.name = source.name := congrArg TypeHeader.name hheader
  have hinherited : decl.inherited = source.clause.map Composition.text :=
    congrArg TypeHeader.inherited hheader
  rw [TypeContext.conformances, flatMap_extensionsNamed, hdecls, List.flatMap_assoc, hname,
    hinherited]
  simp only [DeclSource.flatMap_inheritedBy, TypeSource.entries, List.map_append, List.map_map,
    List.map_flatMap, Function.comp_def]

/-- Of the protocols that the clauses of a type and of its extensions name, in whatever files they
stand, extraction sees the set of those that are entries by themselves. It sees all of them exactly
if the ones that are only parts of compositions make no difference. -/
theorem recognizes_of_lexes {texts : List String} {files : List (List DeclSource)}
    (htexts : List.Forall₂
      (fun text sources => Lexes text.toList (sources.flatMap DeclSource.faces)) texts files) :
    ∃ parsed, texts.mapM parse = .ok parsed ∧ ∀ source, .type source ∈ files.flatten →
      let entries := source.entries files
      let extensions := extensionsOf parsed.flatten
      ∃ decl, .type decl ∈ parsed.flatten ∧ (Decl.type decl).outline = source.outline ∧
        TypeContext.Recognizes ⟨decl, extensionsNamed extensions decl.name⟩ (listed entries) ∧
        (TypeContext.Recognizes ⟨decl, extensionsNamed extensions decl.name⟩ (conformed entries) ↔
          directionFor (listed entries) = directionFor (conformed entries) ∧
            ∀ literal ∈ literalProtocols,
              literal.protocol ∈ conformed entries → literal.protocol ∈ listed entries) ∧
        ∀ (options : Options) (name : String) (definition : TypeDef),
          (extractDecl options extensions (.type decl)).result = .ok (some (name, definition)) →
            definition.direction? = some (directionFor (listed entries)) := by
  obtain ⟨parsed, hparse, houtlines⟩ := mapM_parse_of_lexes htexts
  refine ⟨parsed, hparse, fun source hsource => ?_⟩
  dsimp only
  have hmem : source.outline ∈ parsed.flatten.map Decl.outline := by
    rw [houtlines]
    exact List.mem_flatMap.mpr ⟨_, hsource, List.mem_singleton_self _⟩
  obtain ⟨found, hfound, houtline⟩ := List.mem_map.mp hmem
  cases found with
  | extension | typealias => cases houtline
  | type decl =>
    have hlisted := TypeContext.recognizes_listed (conformances_eq houtlines houtline)
    refine ⟨decl, hfound, houtline, hlisted, ?_, fun options name definition hextract => ?_⟩
    · rw [hlisted.iff_congr]
      refine and_congr_right fun _ => forall_congr' fun literal => imp_congr_right fun _ => ?_
      exact ⟨fun h => h.mpr, fun h => ⟨fun hmem => listed_subset_conformed _ hmem, h⟩⟩
    · rw [direction?_extractDecl hextract, hlisted.direction]

theorem recognizes_of_lexes_tag :
    ∃ parsed, ["enum Tag: Row, Swift.Encodable \x7b\x7d",
        "extension Tag: Decodable & Sendable, ExpressibleByStringLiteral \x7b\x7d"].mapM parse =
          .ok parsed ∧
      let extensions := extensionsOf parsed.flatten
      ∃ decl, .type decl ∈ parsed.flatten ∧ decl.name = "Tag" ∧
        TypeContext.Recognizes ⟨decl, extensionsNamed extensions decl.name⟩
          {"Row", "Encodable", "ExpressibleByStringLiteral"} ∧
        ¬ TypeContext.Recognizes ⟨decl, extensionsNamed extensions decl.name⟩
          {"Row", "Encodable", "ExpressibleByStringLiteral", "Decodable", "Sendable"} := by
  let tag : TypeSource :=
    ⟨[], false, .enum, .inr rfl, "Tag", [⟨["Row"], by decide, by decide⟩,
      ⟨["Swift.Encodable"], by decide, by decide⟩], [], .empty, ReadsBody.nil.closes⟩
  let more : ExtensionSource :=
    ⟨[], false, "Tag", [⟨["Decodable", "Sendable"], by decide, by decide⟩,
      ⟨["ExpressibleByStringLiteral"], by decide, by decide⟩], [], .empty, ReadsBody.nil.closes⟩
  have htag : Lexes "enum Tag: Row, Swift.Encodable \x7b\x7d".toList
      ([DeclSource.type tag].flatMap DeclSource.faces) := by
    unfold Lexes
    decide +kernel
  have hmore : Lexes
      "extension Tag: Decodable & Sendable, ExpressibleByStringLiteral \x7b\x7d".toList
        ([DeclSource.extension more].flatMap DeclSource.faces) := by
    unfold Lexes
    decide +kernel
  obtain ⟨parsed, hparse, hsources⟩ := recognizes_of_lexes (.cons htag (.cons hmore .nil))
  obtain ⟨decl, hdecl, houtline, hlisted, hconformed, -⟩ :=
    hsources tag (List.mem_append_left _ (List.mem_singleton_self _))
  have hname : decl.name = "Tag" := congrArg TypeHeader.name (DeclOutline.type.inj houtline).1
  let entries := tag.entries [[.type tag], [.extension more]]
  have hseen : listed entries = {"Row", "Encodable", "ExpressibleByStringLiteral"} := by
    decide +kernel
  have hall : conformed entries =
      {"Row", "Encodable", "ExpressibleByStringLiteral", "Decodable", "Sendable"} := by
    decide +kernel
  refine ⟨parsed, hparse, decl, hdecl, hname, hseen ▸ hlisted, fun hrecognizes => ?_⟩
  have hsame := (hconformed.mp (hall ▸ hrecognizes)).1
  revert hsame
  decide +kernel

/-- A protocol that is composed with another is not seen, where it is if it is listed. -/
theorem declarations_composition_note :
    let options : Options := ⟨"", "futureProof", .strict⟩
    let run (text : String) := (parse text).map fun decls => (declarations options [decls]).result
    let note (direction : Direction) : TypeDef :=
      .struct ⟨direction, none, .ofList [("text", FieldDef.ofType "string")]⟩
    run "struct Note: Encodable & Sendable \x7b let text: String \x7d" =
        .ok (.ok [("Note", note .both)]) ∧
      run "struct Note: Encodable, Sendable \x7b let text: String \x7d" =
        .ok (.ok [("Note", note .encode)]) := by
  decide +kernel

end Extraction

end WireSchema
