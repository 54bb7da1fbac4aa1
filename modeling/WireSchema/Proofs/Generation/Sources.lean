import WireSchema.Proofs.Generation.RawEnum

/-!
# Generated sources

A generated file starts with a comment and an import and then declares one type. It
is read as that declaration.
-/

namespace WireSchema.Generation

open Swift
open Text (isIdentifier)

/-! ## Aliases -/

def deprecationFaces (target : TypeExpr) : List Face :=
  [.symbol "*", .symbol ",", .word "deprecated", .symbol ",", .word "message", .symbol ":",
    .quoted ("Use " ++ typeText target ++ " instead")]

def deprecationOf (d : AliasDef) (target : TypeExpr) : Option (List Face) :=
  if d.deprecated then some (deprecationFaces target) else none

theorem spellsLines_deprecation (target : TypeExpr) :
    SpellsLines ["@available(*, deprecated, message: " ++
      stringLiteral ("Use " ++ typeText target ++ " instead") ++ ")"]
        (attributeFaces (deprecationFaces target)) := by
  have hopen : Spells breaksSymbol "@available(*, deprecated, message: "
      [.symbol "@", .word "available", .symbol "(", .symbol "*", .symbol ",", .word "deprecated",
        .symbol ",", .word "message", .symbol ":"] := spells_constant rfl rfl
  have hclose : Spells breaksSymbol ")" [.symbol ")"] := spells_constant rfl rfl
  have hmessage := spells_stringLiteral ("Use " ++ typeText target ++ " instead")
  have hline := ((hopen.append hmessage (head?_stringLiteral _)).append hclose rfl).line rfl
  exact hline

theorem spellsLines_aliasLines {namer : Namer} {name : String} {d : AliasDef} {target : TypeExpr}
    (hname : isIdentifier (namer.typeName name) = true)
    (hresolve : namer.resolve d.target = .ok target) (htarget : IsWritable target) :
    ∃ lines, aliasLines namer name d = .ok lines ∧ lines ≠ [] ∧
      SpellsLines lines
        (aliasFaces (docTexts d.doc) (deprecationOf d target) (namer.typeName name) target) := by
  have hdocs : SpellsLines (docLines "" d.doc) _ := spellsLines_docLines rfl d.doc
  have halias : Spells breaksSymbol "public typealias " [.word "public", .word "typealias"] :=
    spells_constant rfl rfl
  have hequals : Spells breaksSymbol " = " [.symbol "="] := spells_constant rfl rfl
  have hnamed := (halias.append (spells_name hname) (head?_name hname)).append hequals rfl
  have hdecl := (hnamed.append (spells_typeText htarget) (head?_typeText htarget)).line rfl
  refine ⟨_, by rw [aliasLines, hresolve]; rfl, by simp, ?_⟩
  rw [aliasFaces, deprecationOf]
  cases d.deprecated with
  | false =>
    have hlines := hdocs.append hdecl
    simpa using hlines
  | true =>
    have hlines := hdocs.append ((spellsLines_deprecation target).append hdecl)
    simpa using hlines

theorem balanced_deprecationFaces (target : TypeExpr) :
    Balanced "(" ")" (deprecationFaces target) :=
  fun _ => rfl

/-- A generated alias is one declaration. -/
theorem readsWhole_aliasFaces (name : String) (d : AliasDef) {target : TypeExpr}
    (htarget : IsWritable target) :
    ReadsWhole (aliasFaces (docTexts d.doc) (deprecationOf d target) name target)
      [.typealias (aliasDecl (docTexts d.doc) (deprecationOf d target) name target)] := by
  refine readsWhole_alias (docTexts d.doc) name (fun arguments harguments => ?_) htarget
  unfold deprecationOf at harguments
  split at harguments
  · cases harguments
    exact balanced_deprecationFaces target
  · cases harguments

/-! ## Files -/

def frontLines : List String :=
  [header, "", "import Foundation", ""]

theorem spellsLines_frontLines :
    SpellsLines frontLines [.word "import", .word "Foundation"] := by
  have hheader : SpellsLines [header] [] :=
    .comment (show header.toList = ['/', '/'] ++ " Generated by wirekit. Do not edit.".toList from rfl)
      rfl (by decide)
  have hempty : SpellsLines [""] [] := .constant rfl
  have himport : SpellsLines ["import Foundation"] [.word "import", .word "Foundation"] :=
    .constant rfl
  exact ((hheader.append hempty).append himport).append hempty

theorem toList_content {lines : List String} (hne : lines ≠ []) :
    (header ++ "\n\nimport Foundation\n\n" ++ joinLines lines).toList =
      lineChars (frontLines ++ lines) := by
  have hfront : (header ++ "\n\nimport Foundation\n\n").toList = lineChars frontLines := by decide
  rw [String.toList_append, toList_joinLines hne, hfront, lineChars, lineChars, lineChars,
    List.flatMap_append]

theorem renderType_of_lines {namer : Namer} {name : String} {definition : TypeDef}
    {lines : List String} (h : definitionLines namer name definition = .ok lines) :
    renderType namer name definition =
      .ok ⟨namer.typeName name ++ ".swift",
        header ++ "\n\nimport Foundation\n\n" ++ joinLines lines⟩ := by
  rw [renderType, h]
  rfl

/-- A file whose lines are spelled is parsed as their tokens are. -/
theorem exists_parse_content {lines : List String} {faces : List Face} (hne : lines ≠ [])
    (hspells : SpellsLines lines faces)
    (hstart : faces.head?.all (fun face => endsType (face.token .start)) = true) :
    ∃ stream : TokenStream, stream.tokens.map Token.face = faces ∧
      parse (header ++ "\n\nimport Foundation\n\n" ++ joinLines lines) = parseTokens stream := by
  obtain ⟨stream, htokenize, hfaces⟩ :=
    tokenize_of_spellsLines (toList_content hne) (spellsLines_frontLines.append hspells)
  obtain ⟨front, tokens, hstream, hfront, htokens⟩ := map_face_eq_append.mp hfaces
  have hends : tokens.head?.all endsType = true := by
    cases tokens with
    | nil => rfl
    | cons token later => subst htokens; exact hstart
  refine ⟨⟨tokens, stream.stop⟩, htokens, ?_⟩
  rw [Swift.parse, htokenize]
  show parseTokens stream = _
  rw [parseTokens, parseTokens, hstream, readDecls_import hfront hends]

/-- A file is read as the tokens of its lines are. -/
theorem parse_content_of_readDecls {lines : List String} {faces : List Face}
    {P : List Decl → Prop} (hne : lines ≠ []) (hspells : SpellsLines lines faces)
    (hreads : ∀ tokens : List Token, tokens.map Token.face = faces →
      ∃ decls, P decls ∧ readDecls tokens = .ok decls)
    (hstart : faces.head?.all (fun face => endsType (face.token .start)) = true) :
    ∃ decls, P decls ∧
      parse (header ++ "\n\nimport Foundation\n\n" ++ joinLines lines) = .ok decls := by
  obtain ⟨stream, hfaces, hparse⟩ := exists_parse_content hne hspells hstart
  obtain ⟨decls, hdecls, hread⟩ := hreads stream.tokens hfaces
  refine ⟨decls, hdecls, ?_⟩
  rw [hparse, parseTokens, hread]
  rfl

/-- A file whose lines are spelled is read as what they declare. -/
theorem parse_content {lines : List String} {faces : List Face} {outlines : List DeclOutline}
    (hne : lines ≠ []) (hspells : SpellsLines lines faces) (hreads : ReadsWhole faces outlines)
    (hstart : faces.head?.all (fun face => endsType (face.token .start)) = true) :
    ∃ decls, decls.map Decl.outline = outlines ∧
      parse (header ++ "\n\nimport Foundation\n\n" ++ joinLines lines) = .ok decls :=
  parse_content_of_readDecls hne hspells hreads hstart

theorem endsType_head?_typeDeclFaces (docs : List String) (kind : DeclKind) (name : String)
    (inherited : List TypeExpr) (body : List Face) :
    (typeDeclFaces docs kind name inherited body).head?.all
      (fun face => endsType (face.token .start)) = true := by
  rw [typeDeclFaces]
  exact endsType_head?_headingFaces docs true (by cases kind <;> rfl)

theorem endsType_head?_aliasFaces (docs : List String) (deprecation : Option (List Face))
    (name : String) (target : TypeExpr) :
    (aliasFaces docs deprecation name target).head?.all
      (fun face => endsType (face.token .start)) = true := by
  refine endsType_head?_docs docs ?_
  cases deprecation <;> rfl

/-- The file for a string enum is read as the declaration that is outlined for it. -/
theorem parse_stringEnum {namer : Namer} {name : String} {d : StringEnumDef}
    (hname : isIdentifier (namer.typeName name) = true)
    (hvalues : ∀ entry ∈ d.values.entries, isIdentifier entry.1 = true)
    (hfallback : ∀ fallback ∈ d.fallbackCase, isIdentifier fallback = true) :
    ∃ decls, decls.map Decl.outline = [.type (typeHeader (docTexts d.doc) .enum
        (namer.typeName name) (.primitive .string :: conformances d.direction))
        (stringEnumOutline d)] ∧
      parse (header ++ "\n\nimport Foundation\n\n" ++ joinLines (stringEnumLines namer name d)) =
        .ok decls :=
  parse_content (by simp [stringEnumLines]) (spellsLines_stringEnumLines hname hvalues hfallback)
    (readsSource_stringEnumFaces _ hfallback).whole (endsType_head?_typeDeclFaces _ _ _ _ _)

end WireSchema.Generation
