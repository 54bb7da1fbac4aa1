import WireSchema.Proofs.Extraction.Alike
import WireSchema.Proofs.Swift.DeclaredText
import WireSchema.Proofs.Swift.LexemeEnds

/-!
# The type of a field

The type of a property is read twice. The parser takes its tokens and keeps them as a text,
which the extraction reads as a type. The two agree on every type but for one thing: the parser
ends a type before two question marks that are one token.
-/

namespace WireSchema

namespace Swift

open Outcome (bind_eq_ok_iff)
open Text (isIdentifier)

/-! ## A source with one field -/

def fieldSource (name type : String) : String :=
  "struct S \x7b let " ++ name ++ ": " ++ type ++ " \x7d"

def fieldFaces (name : String) (type : List Face) : List Face :=
  .word "struct" :: .word "S" :: .symbol "\x7b" :: .word "let" :: .word name :: .symbol ":" :: type

theorem lexes_fieldSource {name type : String} {faces : List Face}
    (hname : isIdentifier name = true) (htype : Lexes (type.toList ++ closing) faces) :
    Lexes (fieldSource name type).toList (fieldFaces name faces) := by
  have hstruct : Spells breaksSymbol "struct S \x7b let "
      [.word "struct", .word "S", .symbol "\x7b", .word "let"] :=
    spells_constant (by decide) (by decide)
  have hcolon : Spells (fun _ => true) ": " [.symbol ":"] := by
    intro rest later _ hlater
    exact lexes_symbol (lexemeAt?_plainSymbol (by decide) _) (lexes_blank (by decide) hlater)
  have hfront := (hstruct.append (spells_name hname) (head?_name hname)).append hcolon rfl
  have hend : (type.toList ++ closing).head?.all (fun _ => true) = true := by simp
  have hsource := hfront hend htype
  have hclosing : " \x7d".toList = closing := by decide
  unfold fieldSource
  rw [String.toList_append, String.toList_append, List.append_assoc, hclosing]
  exact hsource

/-! ## The tokens of the field -/

/-- In a body a symbol is passed over. -/
theorem readBody_symbol {text : String} (htext : text ∉ ["\x7d", "@", "class"]) (at_ : Position)
    (rest : List Token) : readBody ((Face.symbol text).token at_ :: rest) = readBody rest := by
  simp only [List.mem_cons, List.not_mem_nil, or_false, not_or] at htext
  obtain ⟨hclose, hat, hclass⟩ := htext
  have hheading : readHeading ((Face.symbol text).token at_ :: rest) =
      .ok (.empty, (Face.symbol text).token at_ :: rest) := by
    rw [readHeading_eq, readHeadingPart?]
    simp [Face.symbol, Face.token, Token.isWord, Token.isIdentifier, hat, hclass]
    rfl
  have hitem : nextBodyItem ((Face.symbol text).token at_ :: rest) = .ok (.members [], rest) := by
    refine bind_eq_ok_iff.mpr ⟨_, hheading, ?_⟩
    simp [readBodyItem, Face.symbol, Face.token, Token.isWord, Token.isIdentifier, hclose]
    rfl
  rw [readBody_eq, hitem]
  show (readBody rest >>= fun later => Except.ok ([] ++ later.1, later.2)) = readBody rest
  cases readBody rest <;> rfl

theorem readBody_marks {marks : List Mark} {tokens : List Token}
    (htokens : tokens.map Token.face = markFaces marks) (rest : List Token) :
    readBody (tokens ++ rest) = readBody rest := by
  induction marks generalizing tokens with
  | nil =>
    cases List.map_eq_nil_iff.mp htokens
    rfl
  | cons mark marks ih =>
    obtain ⟨at_, later, rfl, hlater⟩ := map_face_eq_cons.mp htokens
    rw [List.cons_append, readBody_symbol (by cases mark <;> decide), ih hlater]

def constantDecl (name type : String) : PropertyDecl :=
  { name, position := .start, docs := [], type := some type, isStatic := false
    isComputed := false, isLet := true, hasInitializer := false }

/-- What comes after the part of a type that is kept is a double mark, or the end of the body. -/
theorem head?_passedMarks (tree : TypeTree) {tokens rest : List Token}
    (htokens : tokens.map Token.face = markFaces tree.passedMarks)
    (hrest : rest.head?.all (fun token => token.face == .symbol "\x7d") = true) :
    (tokens ++ rest).head?.all (fun token =>
      token.face == .symbol "??" || token.face == .symbol "\x7d") = true := by
  cases hmarks : tree.passedMarks with
  | nil =>
    rw [hmarks] at htokens
    cases List.map_eq_nil_iff.mp htokens
    cases rest with
    | nil => rfl
    | cons token later =>
      simp only [List.head?_cons, Option.all_some] at hrest
      simp [hrest]
  | cons mark marks =>
    have hdouble : mark = .double := by
      have hhead := List.head?_dropWhile_not (· != Mark.double) tree.marks
      rw [← TypeTree.passedMarks, hmarks] at hhead
      simpa using hhead
    rw [hmarks, hdouble] at htokens
    obtain ⟨at_, later, rfl, -⟩ := map_face_eq_cons.mp htokens
    rfl

/-- Before such a token a type ends, and so does a property. -/
theorem ends_of_doubleOrClose {tokens : List Token}
    (h : tokens.head?.all (fun token =>
      token.face == .symbol "??" || token.face == .symbol "\x7d") = true) :
    tokens.head?.all endsType = true ∧ tokens.head?.any startsType = false ∧
      wordNext tokens "\x7b" = false ∧ passWord? "=" tokens = none ∧
        passWord? "," tokens = none := by
  cases tokens with
  | nil => exact ⟨rfl, rfl, rfl, rfl, rfl⟩
  | cons token later =>
    obtain ⟨kind, text, at_⟩ := token
    simp only [List.head?_cons, Option.all_some, Bool.or_eq_true, beq_iff_eq, Token.face,
      Face.symbol, Prod.mk.injEq] at h
    rcases h with ⟨rfl, rfl⟩ | ⟨rfl, rfl⟩
    · exact ⟨rfl, rfl, rfl, rfl, rfl⟩
    · exact ⟨rfl, rfl, rfl, rfl, rfl⟩

/-- The constant is read with the part of its type that is kept, and the marks behind that are
passed over. -/
theorem readBody_field {name : String} (hname : isIdentifier name = true) (tree : TypeTree)
    {tokens rest : List Token}
    (htokens : tokens.map Token.face = .word "let" :: .word name :: .symbol ":" :: tree.faces)
    (hrest : rest.head?.all (fun token => token.face == .symbol "\x7d") = true) :
    ∃ nameAt, readBody (tokens ++ rest) = do
      let (later, after) ← readBody rest
      return (.property { constantDecl name (String.ofList tree.kept.chars) with
        position := nameAt } :: later, after) := by
  have hheaded : tokens.map Token.face = headingFaces [] false ++
      .word "let" :: .word name :: .symbol ":" :: tree.faces := htokens
  obtain ⟨letAt, afterLet, hafter, hitem⟩ := nextBodyItem_headingFaces hheaded (by decide) rest
  obtain ⟨nameAt, afterName, rfl, hcolon⟩ := map_face_eq_cons.mp hafter
  obtain ⟨colonAt, typeTokens, rfl, htype⟩ := map_face_eq_cons.mp hcolon
  rw [← tree.faces_kept_append] at htype
  obtain ⟨kept, passed, rfl, hkept, hpassed⟩ := map_face_eq_append.mp htype
  obtain ⟨hends, hstart, hblock, hequals, hcomma⟩ :=
    ends_of_doubleOrClose (head?_passedMarks tree hpassed hrest)
  have hproperty := readProperties_of_readTypeText [] true hname nameAt colonAt
    (readTypeText_kept tree hkept hends (.inr hstart)) hequals (skipGroup_of_not_wordNext hblock) hcomma
  have hcomputes : computesValue (passed ++ rest) = false := by
    rw [computesValue, hblock, Bool.false_and]
  rw [hcomputes] at hproperty
  refine ⟨nameAt, ?_⟩
  have hmembers : nextBodyItem (tokens ++ rest) =
      .ok (.members [.property { constantDecl name (String.ofList tree.kept.chars) with
        position := nameAt }], passed ++ rest) := by
    rw [hitem]
    simp only [List.cons_append, List.append_assoc]
    exact bind_eq_ok_iff.mpr ⟨_, hproperty, rfl⟩
  rw [readBody_eq, hmembers]
  show (readBody (passed ++ rest) >>= _) = _
  rw [readBody_marks hpassed]
  rfl

/-- The header of the struct is read, and its body comes next. -/
theorem nextDecls?_struct {after : List Face} {tokens : List Token}
    (htokens : tokens.map Token.face = .word "struct" :: .word "S" :: .symbol "\x7b" :: after) :
    ∃ nameAt body, body.map Token.face = after ∧
      nextDecls? tokens = do
        let (members, rest) ← readBody body
        return some ([.type ⟨⟨.struct, "S", nameAt, [], [], false, []⟩, members⟩], rest) := by
  have hheaded : tokens.map Token.face = headingFaces [] false ++
      .word "struct" :: .word "S" :: (clauseFaces [] ++ .symbol "\x7b" :: after) := htokens
  obtain ⟨at_, afterStruct, hafter, hnext⟩ := nextDecls?_headingFaces [] false hheaded (by decide) []
  have hnone : ∀ item ∈ ([] : List String), ReadsEntry [.word item] item := nofun
  obtain ⟨nameAt, body, hbody, hheader⟩ :=
    readTypeHeader_clause ⟨[], [], false⟩ .struct hnone hafter []
  refine ⟨nameAt, body, hbody, ?_⟩
  simp only [List.append_nil] at hnext hheader
  have hitem : readSourceItem ⟨[], [], false⟩ ((Face.word "struct").token at_) afterStruct = _ :=
    readSourceItem_type (by decide) at_ hheader
  rw [hnext, hitem]
  cases readBody body <;> rfl

def isCode (face : Face) : Bool :=
  face.1 != .doc

@[simp] theorem isCode_word (name : String) : isCode (.word name) = true := rfl

@[simp] theorem isCode_symbol (text : String) : isCode (.symbol text) = true := rfl

theorem all_isCode_dottedFaces (parts : List (List Char)) :
    (dottedFaces parts).all isCode = true := by
  fun_induction dottedFaces parts with
  | case1 => rfl
  | case2 part => rfl
  | case3 part more _ ih => simpa using ih

theorem all_isCode_markFaces (marks : List Mark) : (markFaces marks).all isCode = true := by
  simp [markFaces]

theorem all_isCode_genericFaces (isQualified : Bool) (name : String) :
    (genericFaces isQualified name).all isCode = true := by
  cases isQualified <;> simp [genericFaces]

/-- No comment is part of a type. -/
theorem TypeTree.all_isCode_faces (tree : TypeTree) : tree.faces.all isCode = true := by
  induction tree with
  | name n isDotted marks =>
    rw [faces, List.all_append, all_isCode_dottedFaces, all_isCode_markFaces]
    rfl
  | enclosed enclosure inner marks ih =>
    have hends : enclosure.front.all isCode = true ∧ isCode enclosure.back = true := by
      cases enclosure with
      | brackets | parentheses => exact ⟨rfl, rfl⟩
      | generic wrapper isQualified => exact ⟨all_isCode_genericFaces isQualified _, rfl⟩
    rw [faces, List.all_append, List.all_append, List.all_cons, hends.1, ih, hends.2,
      all_isCode_markFaces]
    rfl
  | map enclosure key value marks ihkey ihvalue =>
    have hends : enclosure.front.all isCode = true ∧ isCode enclosure.separator = true ∧
        isCode enclosure.back = true := by
      cases enclosure with
      | brackets => exact ⟨rfl, rfl, rfl⟩
      | dictionary isQualified => exact ⟨all_isCode_genericFaces isQualified _, rfl, rfl⟩
    rw [faces, List.all_append, List.all_append, List.all_cons, List.all_append, List.all_cons,
      hends.1, ihkey, hends.2.1, ihvalue, hends.2.2, all_isCode_markFaces]
    rfl

/-- The source is read as a struct with the constant, unless its last brace is part of a comment
in the type. -/
theorem parse_fieldSource {name type : String} (hname : isIdentifier name = true) {tree : TypeTree}
    (htree : Lexes type.toList tree.faces) :
    if endsInLineComment type.toList then
      ∃ at_, parse (fieldSource name type) = .error ⟨.unexpected "", at_⟩
    else ∃ decls, parse (fieldSource name type) = .ok decls ∧
      decls.map Decl.outline = [.type ⟨.struct, "S", .start, [], [], false, []⟩
        (.ofProperty (constantDecl name (String.ofList tree.kept.chars)))] := by
  have hcode : ∀ face ∈ tree.faces, face.1 ≠ .doc := by
    intro face hface
    simpa [isCode] using List.all_eq_true.mp tree.all_isCode_faces face hface
  have hlexes := lexes_fieldSource hname (htree.append_closing fun _ => hcode)
  obtain ⟨stream, htokenize, hfaces⟩ := tokenize_of_lexes hlexes
  have hparse : parse (fieldSource name type) = parseTokens stream := by
    rw [parse, htokenize]
    rfl
  obtain ⟨structAt, body, hbody, hnext⟩ := nextDecls?_struct hfaces
  have hsplit : body.map Token.face =
      (.word "let" :: .word name :: .symbol ":" :: tree.faces) ++
        if endsInLineComment type.toList then [] else [.symbol "\x7d"] := hbody
  obtain ⟨field, closers, rfl, hfield, hclosers⟩ := map_face_eq_append.mp hsplit
  split
  · next hline =>
    rw [if_pos hline] at hclosers
    cases List.map_eq_nil_iff.mp hclosers
    have hend : ([] : List Token).head?.all (fun token => token.face == .symbol "\x7d") = true :=
      rfl
    obtain ⟨nameAt, hread⟩ := readBody_field hname tree hfield hend
    have hnil : readBody [] = .error ⟨.unexpected "", []⟩ := by
      rw [readBody_eq, nextBodyItem, readHeading_eq]
      rfl
    rw [hread, hnil] at hnext
    have hdecls : readDecls stream.tokens = .error ⟨.unexpected "", []⟩ := by
      rw [readDecls_eq, hnext]
      rfl
    exact ⟨stream.stop, by rw [hparse, parseTokens, hdecls]; rfl⟩
  · next hline =>
    rw [if_neg hline] at hclosers
    obtain ⟨closeAt, later, rfl, hnil⟩ := map_face_eq_cons.mp hclosers
    cases List.map_eq_nil_iff.mp hnil
    have hclose : [(Face.symbol "\x7d").token closeAt].head?.all
        (fun token => token.face == .symbol "\x7d") = true := rfl
    obtain ⟨nameAt, hread⟩ := readBody_field hname tree hfield hclose
    rw [hread, readBody_close] at hnext
    have hdecls : readDecls stream.tokens = .ok [.type ⟨⟨.struct, "S", structAt, [], [], false, []⟩,
        [.property { constantDecl name (String.ofList tree.kept.chars) with
          position := nameAt }]⟩] := by
      rw [readDecls_eq, hnext]
      refine bind_eq_ok_iff.mpr ⟨_, rfl, ?_⟩
      exact bind_eq_ok_iff.mpr ⟨_, readDecls_nil, rfl⟩
    exact ⟨_, by rw [hparse, parseTokens, hdecls]; rfl, rfl⟩

end Swift

namespace Extraction

open Swift
open Text (isIdentifier)

/-! ## The field -/

def fieldDecl (name type : String) : TypeDecl :=
  { kind := .struct, name := "S", position := .start, docs := [], attributes := []
    isGeneric := false, inherited := [], members := [.property (constantDecl name type)] }

def fieldStruct (name type : String) : TypeDef :=
  .struct { direction := .both, doc := none, fields := .ofList [(name, FieldDef.ofType type)] }

/-- The constant becomes a field of the type that its text is read as. -/
theorem declarations_field (options : Options) {decls : List Decl} {name type : String}
    {t : TypeExpr} (hdecls : decls.map Decl.outline =
      [.type ⟨.struct, "S", .start, [], [], false, []⟩ (.ofProperty (constantDecl name type))])
    (htype : readType type = .ok t) :
    declarations options [decls] = .ok [("S", fieldStruct name t.text)] := by
  have hplaced : [decls].flatten.map Decl.outline =
      [[Decl.type (fieldDecl name type)]].flatten.map Decl.outline := by
    rw [List.flatten_singleton, hdecls]
    rfl
  have hproperty : lowerProperty "S" none (constantDecl name type) =
      pure (some (name, FieldDef.ofType t.text)) :=
    lowerProperty_stored "S" (by simp [isStored, constantDecl]) rfl rfl htype
  have hstruct : lowerStruct ⟨fieldDecl name type, []⟩ = pure (fieldStruct name t.text) := by
    show (Logged.collect (lowerProperty "S" none) [constantDecl name type] >>= _) = _
    rw [Logged.collect, hproperty]
    rfl
  have hlower : lowerDecl options.fallbackCase [] (.type (fieldDecl name type)) =
      some ("S", pure (fieldStruct name t.text)) := by
    show some ("S", lowerStruct ⟨fieldDecl name type, []⟩) = _
    rw [hstruct]
  rw [declarations_eq_of_outlines options hplaced]
  show Logged.collect (extractDecl options []) [_] = _
  rw [Logged.collect, extractDecl_of_lowerDecl hlower]
  rfl

/-- Is the field of the source extracted with this text as its type? -/
def ExtractsField (options : Options) (name source type : String) : Prop :=
  ExtractsAlone options (fieldSource name source) ("S", fieldStruct name type)

theorem fieldStruct_inj {name type type' : String}
    (h : fieldStruct name type = fieldStruct name type') : type = type' := by
  have hfields := congrArg StructDef.fields (TypeDef.struct.inj h)
  exact congrArg FieldDef.type (Prod.mk.inj (NameMap.ofList_singleton_inj hfields)).2

theorem text_optional_ne (t : TypeExpr) : (TypeExpr.optional t).text ≠ t.text := by
  intro hsame
  have hlength := congrArg (fun text => text.toList.length) hsame
  simp [TypeExpr.text] at hlength

/-- The text of a type tells whether there are marks behind it that count. -/
theorem closeMarks_eq_of_text {marks marks' : List Mark} {base : TypeExpr}
    (h : (closeMarks marks base).text = (closeMarks marks' base).text) :
    closeMarks marks base = closeMarks marks' base := by
  cases hopt : base.isOptional with
  | true => exact closeMarks_inj.mpr (.inl hopt)
  | false =>
    have hoptional : base.asOptional = .optional base := by simp [TypeExpr.asOptional, hopt]
    unfold closeMarks at h ⊢
    rw [hoptional] at h ⊢
    cases marks with
    | nil =>
      cases marks' with
      | nil => rfl
      | cons => exact absurd h.symm (text_optional_ne base)
    | cons =>
      cases marks' with
      | nil => exact absurd h (text_optional_ne base)
      | cons => rfl

/-- The text of the kept part tells whether the kept part means the whole type. -/
theorem text_kept_eq_iff {tree : TypeTree} :
    tree.kept.meaning.text = tree.meaning.text ↔
      tree.base.isOptional = true ∨ tree.marks.head? ≠ some .double := by
  rw [← TypeTree.meaning_kept_eq_iff]
  refine ⟨fun htext => ?_, congrArg TypeExpr.text⟩
  have hbase : tree.kept.base = tree.base := tree.base_withMarks _
  rw [TypeTree.meaning, TypeTree.meaning, hbase] at htext ⊢
  exact closeMarks_eq_of_text htext

/-- For every type of a source, the struct with a constant of this type is extracted with the
type, up to the first of the marks behind it that is a double one. So nothing is lost exactly if
the type is optional even without these marks, or the first of them is no double one. A type with
a comment up to the end of the line behind it leaves the struct open. -/
theorem extractsField_of_readType {source name : String} {t : TypeExpr}
    (hread : readType source = .ok t) (hname : isIdentifier name = true) (options : Options) :
    (∃ tree : TypeTree, Lexes source.toList tree.faces) ∧
      ∀ tree : TypeTree, Lexes source.toList tree.faces →
        tree.meaning = t ∧
        (endsInLineComment source.toList = true →
          ∃ at_, parse (fieldSource name source) = .error ⟨.unexpected "", at_⟩) ∧
        (endsInLineComment source.toList = false →
          ExtractsField options name source tree.kept.meaning.text) ∧
        (ExtractsField options name source t.text ↔
          endsInLineComment source.toList = false ∧
            (tree.base.isOptional = true ∨ tree.marks.head? ≠ some .double)) := by
  obtain ⟨first, hfirst, -⟩ := readType_eq_ok_iff_exists_tree.mp hread
  refine ⟨⟨first, hfirst⟩, fun tree htree => ?_⟩
  have hmeaning : tree.meaning = t :=
    Except.ok.inj ((readType_eq_ok_iff_exists_tree.mpr ⟨tree, htree, rfl⟩).symm.trans hread)
  subst hmeaning
  have hparse := parse_fieldSource hname htree
  have hopen : endsInLineComment source.toList = true →
      ∃ at_, parse (fieldSource name source) = .error ⟨.unexpected "", at_⟩ := by
    intro hline
    rwa [if_pos hline] at hparse
  have hkept : endsInLineComment source.toList = false →
      ExtractsField options name source tree.kept.meaning.text := by
    intro hline
    rw [if_neg (by simp [hline])] at hparse
    obtain ⟨decls, hok, houtline⟩ := hparse
    exact ⟨decls, hok, declarations_field options houtline tree.kept.readType_chars⟩
  refine ⟨rfl, hopen, hkept, ?_⟩
  constructor
  · intro hfield
    cases hline : endsInLineComment source.toList with
    | true =>
      obtain ⟨at_, herror⟩ := hopen hline
      obtain ⟨decls, hok, -⟩ := hfield
      cases herror.symm.trans hok
    | false =>
      have htext := fieldStruct_inj (Prod.mk.inj ((hkept hline).unique hfield)).2
      exact ⟨rfl, text_kept_eq_iff.mp htext⟩
  · rintro ⟨hline, hwhole⟩
    rw [← text_kept_eq_iff.mpr hwhole]
    exact hkept hline

theorem extractsField_of_readType_catalog :
    let source := "Swift.Dictionary<String, [Shop . Item??]> ?! /* all */"
    let t : TypeExpr :=
      .optional (.map (.primitive .string) (.list (.optional (.custom "Shop.Item"))))
    readType source = .ok t ∧ isIdentifier "catalog" = true ∧
      ∀ options, ExtractsField options "catalog" source t.text := by
  intro source t
  have hread : readType source = .ok t := by decide +kernel
  have hname : isIdentifier "catalog" = true := by decide
  let tree : TypeTree := .map (.dictionary true) (.name "String" (by decide) [])
    (.enclosed .brackets (.name "Shop.Item" (by decide) [.double]) []) [.question, .exclamation]
  have htree : Lexes source.toList tree.faces := by
    unfold Lexes
    decide +kernel
  refine ⟨hread, hname, fun options => ?_⟩
  have hfield := ((extractsField_of_readType hread hname options).2 tree htree).2.2.2
  exact hfield.mpr ⟨by decide +kernel, .inr (by decide)⟩

/-- Two question marks together make a type optional where it is read, but in a declaration they
are lost. -/
theorem extractsField_questions :
    let t : TypeExpr := .optional (.primitive .int)
    let options : Options := ⟨"", "futureProof", .strict⟩
    readType "Int??" = .ok t ∧ isIdentifier "x" = true ∧
      ¬ ExtractsField options "x" "Int??" t.text := by
  intro t options
  have hfield : (parse (fieldSource "x" "Int??")).map
      (fun decls => (declarations options [decls]).result) =
        .ok (.ok [("S", fieldStruct "x" "int")]) := by decide +kernel
  refine ⟨by decide +kernel, by decide, fun hextracts => ?_⟩
  have htext : t.text ≠ "int" := by decide +kernel
  exact htext (fieldStruct_inj (Prod.mk.inj (hextracts.eq_of_result hfield)).2)

end Extraction

end WireSchema
