import WireSchema.Proofs.Swift.Members

/-!
# Sources of generated code

`ReadsSource faces outlines` says that tokens of the given faces are read as
declarations with the given outlines, whatever declarations come after them;
`ReadsWhole faces outlines` says so for tokens after which nothing comes.
-/

namespace WireSchema.Swift

open Outcome (bind_eq_ok_iff)
open Text (isIdentifier)

/-- What a source declares, without the places where it does. -/
inductive DeclOutline where
  | type (header : TypeHeader) (body : Outline)
  | extension (header : ExtensionHeader) (body : Outline)
  | typealias (decl : AliasDecl)

def Decl.outline : Decl → DeclOutline
  | .type decl => .type { decl.toTypeHeader with position := .start } (Swift.outline decl.members)
  | .extension decl =>
    .extension { decl.toExtensionHeader with position := .start } (Swift.outline decl.members)
  | .typealias decl => .typealias { decl with position := .start }

namespace DeclOutline

def inherited : DeclOutline → List String
  | .type header _ => header.inherited
  | .extension header _ => header.inherited
  | .typealias _ => []

def isExtension : DeclOutline → Bool
  | .extension _ _ => true
  | _ => false

def isExtensionOf (name : String) : DeclOutline → Bool
  | .extension header _ => header.name == name
  | _ => false

def functions : DeclOutline → List FunctionOutline
  | .type _ body => body.functions
  | .extension _ body => body.functions
  | .typealias _ => []

end DeclOutline

/-- Tokens of the faces are read as declarations with the outlines, before any that could not go on
with a type. -/
def ReadsSource (faces : List Face) (outlines : List DeclOutline) : Prop :=
  ∀ ⦃tokens rest : List Token⦄ ⦃later : List Decl⦄, tokens.map Token.face = faces →
    rest.head?.all endsType = true → readDecls rest = .ok later →
      ∃ decls, decls.map Decl.outline = outlines ∧
        readDecls (tokens ++ rest) = .ok (decls ++ later)

theorem readDecls_nil : readDecls [] = .ok [] := by
  have hheading : readHeading [] = .ok (.empty, []) := by
    rw [readHeading_eq]
    rfl
  have hnext : nextDecls? [] = .ok none := bind_eq_ok_iff.mpr ⟨_, hheading, rfl⟩
  rw [readDecls_eq]
  exact bind_eq_ok_iff.mpr ⟨_, hnext, rfl⟩

namespace ReadsSource

theorem nil : ReadsSource [] [] := by
  intro tokens rest later htokens _ hlater
  cases List.map_eq_nil_iff.mp htokens
  exact ⟨[], rfl, hlater⟩

theorem append {fs gs : List Face} {os os' : List DeclOutline} (h : ReadsSource fs os)
    (h' : ReadsSource gs os') (hgs : gs.head?.all (fun face => endsType (face.token .start)) = true) :
    ReadsSource (fs ++ gs) (os ++ os') := by
  intro tokens rest later htokens hrest hlater
  obtain ⟨a, b, rfl, ha, hb⟩ := map_face_eq_append.mp htokens
  obtain ⟨decls', houtlines', hread'⟩ := h' hb hrest hlater
  have hstart : (b ++ rest).head?.all endsType = true := by
    cases b with
    | nil => exact hrest
    | cons token b => subst hb; exact hgs
  obtain ⟨decls, houtlines, hread⟩ := h ha hstart hread'
  refine ⟨decls ++ decls', by rw [List.map_append, houtlines, houtlines'], ?_⟩
  rw [List.append_assoc, hread, List.append_assoc]

/-- One declaration. -/
theorem of_next {faces : List Face} {o : List DeclOutline}
    (h : ∀ ⦃tokens rest : List Token⦄, tokens.map Token.face = faces →
      rest.head?.all endsType = true → ∃ decls, decls.map Decl.outline = o ∧
        nextDecls? (tokens ++ rest) = .ok (some (decls, rest))) : ReadsSource faces o := by
  intro tokens rest later htokens hrest hlater
  obtain ⟨decls, houtlines, hnext⟩ := h htokens hrest
  refine ⟨decls, houtlines, ?_⟩
  rw [readDecls_eq]
  refine bind_eq_ok_iff.mpr ⟨_, hnext, ?_⟩
  exact bind_eq_ok_iff.mpr ⟨_, hlater, rfl⟩

end ReadsSource

def ReadsWhole (faces : List Face) (outlines : List DeclOutline) : Prop :=
  ∀ ⦃tokens : List Token⦄, tokens.map Token.face = faces →
    ∃ decls, decls.map Decl.outline = outlines ∧ readDecls tokens = .ok decls

theorem ReadsSource.whole {faces : List Face} {outlines : List DeclOutline}
    (h : ReadsSource faces outlines) : ReadsWhole faces outlines := by
  intro tokens htokens
  obtain ⟨decls, houtlines, hread⟩ := h htokens rfl readDecls_nil
  rw [List.append_nil, List.append_nil] at hread
  exact ⟨decls, houtlines, hread⟩

/-- One declaration. -/
theorem ReadsWhole.of_next {faces : List Face} {o : List DeclOutline}
    (h : ∀ ⦃tokens : List Token⦄, tokens.map Token.face = faces →
      ∃ decls, decls.map Decl.outline = o ∧ nextDecls? tokens = .ok (some (decls, []))) :
    ReadsWhole faces o := by
  intro tokens htokens
  obtain ⟨decls, houtlines, hnext⟩ := h htokens
  refine ⟨decls, houtlines, ?_⟩
  rw [readDecls_eq]
  refine bind_eq_ok_iff.mpr ⟨_, hnext, ?_⟩
  refine bind_eq_ok_iff.mpr ⟨_, readDecls_nil, ?_⟩
  rw [List.append_nil]
  rfl

/-- A text whose lexemes are read as declarations is parsed as these. -/
theorem parse_of_readsWhole {text : String} {faces : List Face} {outlines : List DeclOutline}
    (htext : Lexes text.toList faces) (hreads : ReadsWhole faces outlines) :
    ∃ decls, parse text = .ok decls ∧ decls.map Decl.outline = outlines := by
  obtain ⟨stream, htokenize, hfaces⟩ := tokenize_of_lexes htext
  obtain ⟨decls, houtlines, hread⟩ := hreads hfaces
  refine ⟨decls, ?_, houtlines⟩
  rw [parse, htokenize]
  show parseTokens stream = _
  rw [parseTokens, hread]
  rfl

/-! ## Declarations -/

/-- Declarations start with a comment, an attribute or a modifier. -/
theorem endsType_head?_docs (docs : List String) {faces : List Face}
    (h : faces.head?.all (fun face => endsType (face.token .start)) = true) :
    (docs.map Face.doc ++ faces).head?.all (fun face => endsType (face.token .start)) = true := by
  cases docs with
  | nil => exact h
  | cons doc docs => rfl

theorem endsType_head?_headingFaces (docs : List String) (isPublic : Bool) {faces : List Face}
    (h : faces.head?.all (fun face => endsType (face.token .start)) = true) :
    (headingFaces docs isPublic ++ faces).head?.all
      (fun face => endsType (face.token .start)) = true := by
  rw [headingFaces, List.append_assoc]
  refine endsType_head?_docs docs ?_
  cases isPublic with
  | true => rfl
  | false => exact h

/-- A declaration is read after its heading. -/
theorem nextDecls?_headingFaces (docs : List String) (isPublic : Bool) {keyword : String}
    {more : List Face} {tokens : List Token}
    (htokens : tokens.map Token.face = headingFaces docs isPublic ++ .word keyword :: more)
    (hkeyword : keyword ∉ "class" :: "@" :: "(" :: modifiers) (rest : List Token) :
    ∃ at_ after, after.map Token.face = more ∧
      nextDecls? (tokens ++ rest) =
        some <$> readSourceItem ⟨docs, [], false⟩ ((Face.word keyword).token at_) (after ++ rest) := by
  obtain ⟨at_, after, hafter, hheading⟩ := readHeading_headingFaces htokens hkeyword rest
  refine ⟨at_, after, hafter, ?_⟩
  rw [nextDecls?, hheading]
  rfl

/-- An import is passed over. -/
theorem readDecls_import {name : String} {tokens rest : List Token}
    (htokens : tokens.map Token.face = [.word "import", .word name])
    (hrest : rest.head?.all endsType = true) : readDecls (tokens ++ rest) = readDecls rest := by
  obtain ⟨at_, after, hafter, hnext⟩ :=
    nextDecls?_headingFaces [] false htokens (by decide) rest
  obtain ⟨nameAt, tail, rfl, htail⟩ := map_face_eq_cons.mp hafter
  cases List.map_eq_nil_iff.mp htail
  have hdot : wordNext rest "." = false := by
    cases rest with
    | nil => rfl
    | cons token later => exact (endsType_eq hrest).2.2.2.2.1
  have hskip : skipImport ((Face.word name).token nameAt :: rest) = .ok rest := by
    refine bind_eq_ok_iff.mpr ⟨_, readIdentifier_word name nameAt rest, ?_⟩
    dsimp only
    rw [splitDottedTail_of_not_wordNext hdot]
    rfl
  have hitem : readSourceItem ⟨[], [], false⟩ ((Face.word "import").token at_)
      ((Face.word name).token nameAt :: rest) = .ok ([], rest) :=
    bind_eq_ok_iff.mpr ⟨_, hskip, rfl⟩
  rw [List.singleton_append, hitem] at hnext
  rw [readDecls_eq, hnext]
  show (readDecls rest >>= fun decls => Except.ok ([] ++ decls)) = readDecls rest
  cases readDecls rest <;> rfl

/-- Tokens of the faces are read as members with the outline, up to the brace that closes their
body. -/
def ClosesBody (faces : List Face) (o : Outline) : Prop :=
  ∀ ⦃tokens : List Token⦄, tokens.map Token.face = faces → ∀ (at_ : Position) (rest : List Token),
    ∃ members, outline members = o ∧
      readBody (tokens ++ (Face.symbol "\x7d").token at_ :: rest) = .ok (members, rest)

theorem ReadsBody.closes {faces : List Face} {o : Outline} (h : ReadsBody faces o) :
    ClosesBody faces o :=
  fun _ htokens at_ rest => h.readBody_eq_ok htokens at_ rest

theorem DeclKind.keyword_notMem {kind : DeclKind} (hkind : kind ≠ .classType) :
    kind.keyword ∉ "class" :: "@" :: "(" :: modifiers := by
  cases kind with
  | classType => exact absurd rfl hkind
  | struct | actor | enum | protocol => decide

/-- After its header a type is read as far as its body is. -/
theorem readSourceItem_type {kind : DeclKind} (hkind : kind ≠ .classType) {docs : List String}
    {header : TypeHeader} {tokens body : List Token} (at_ : Position)
    (hheader : readTypeHeader ⟨docs, [], false⟩ kind tokens = .ok (header, body)) :
    readSourceItem ⟨docs, [], false⟩ ((Face.word kind.keyword).token at_) tokens = do
      let (members, rest) ← readBody body
      return ([.type ⟨header, members⟩], rest) := by
  cases kind with
  | classType => exact absurd rfl hkind
  | struct | actor | enum | protocol =>
    show (readTypeHeader _ _ tokens >>= _) = _
    rw [hheader]
    rfl

section

variable {ι : Type} {items : List ι} {faces : ι → List Face} {text : ι → String}
  {body : List Face} {o : Outline}

/-- A type is read as one declaration if the types that it inherits from and its body are read. -/
theorem readsSource_typeDecl (docs : List String) (isPublic : Bool) {kind : DeclKind}
    (name : String) (hkind : kind ≠ .classType)
    (hread : ∀ item ∈ items, ReadsEntry (faces item) (text item))
    (hbody : ClosesBody body o) :
    ReadsSource (headingFaces docs isPublic ++ declFaces kind.keyword name (items.map faces) body)
      [.type ⟨kind, name, .start, docs, [], false, items.map text⟩ o] := by
  refine .of_next fun tokens rest htokens _ => ?_
  obtain ⟨at_, after, hafter, hnext⟩ :=
    nextDecls?_headingFaces docs isPublic htokens (DeclKind.keyword_notMem hkind) rest
  obtain ⟨nameAt, block, hblock, hheader⟩ :=
    readTypeHeader_clause ⟨docs, [], false⟩ kind hread hafter rest
  obtain ⟨inner, closeAt, rfl, hinner⟩ := map_face_eq_concat hblock
  rw [List.append_assoc, List.singleton_append] at hheader
  obtain ⟨members, houtline, hmembers⟩ := hbody hinner closeAt rest
  refine ⟨[.type ⟨⟨kind, name, nameAt, docs, [], false, items.map text⟩, members⟩], ?_, ?_⟩
  · rw [← houtline]
    rfl
  · rw [hnext, readSourceItem_type hkind at_ hheader, hmembers]
    rfl

/-- An extension is read as one declaration. -/
theorem readsSource_extensionDecl (docs : List String) (isPublic : Bool) (name : String)
    (hread : ∀ item ∈ items, ReadsEntry (faces item) (text item))
    (hbody : ClosesBody body o) :
    ReadsSource (headingFaces docs isPublic ++ declFaces "extension" name (items.map faces) body)
      [.extension ⟨name, .start, items.map text⟩ o] := by
  refine .of_next fun tokens rest htokens _ => ?_
  have hkeyword : "extension" ∉ "class" :: "@" :: "(" :: modifiers := by decide
  obtain ⟨at_, after, hafter, hnext⟩ := nextDecls?_headingFaces docs isPublic htokens hkeyword rest
  obtain ⟨nameAt, block, hblock, hheader⟩ := readExtensionHeader_clause hread hafter rest
  obtain ⟨inner, closeAt, rfl, hinner⟩ := map_face_eq_concat hblock
  rw [List.append_assoc, List.singleton_append] at hheader
  obtain ⟨members, houtline, hmembers⟩ := hbody hinner closeAt rest
  have hitem : readSourceItem ⟨docs, [], false⟩ ((Face.word "extension").token at_)
      (after ++ rest) =
        .ok ([.extension ⟨⟨name, nameAt, items.map text⟩, members⟩], rest) := by
    refine bind_eq_ok_iff.mpr ⟨_, hheader, ?_⟩
    exact bind_eq_ok_iff.mpr ⟨_, hmembers, rfl⟩
  refine ⟨[.extension ⟨⟨name, nameAt, items.map text⟩, members⟩], ?_, ?_⟩
  · rw [← houtline]
    rfl
  · rw [hnext, hitem]
    rfl

end

def typeDeclFaces (docs : List String) (kind : DeclKind) (name : String)
    (inherited : List TypeExpr) (body : List Face) : List Face :=
  headingFaces docs true ++ .word kind.keyword :: .word name :: bodyFaces inherited body

def typeHeader (docs : List String) (kind : DeclKind) (name : String)
    (inherited : List TypeExpr) : TypeHeader :=
  ⟨kind, name, .start, docs, [], false, inherited.map typeText⟩

/-- A type is read as one declaration. -/
theorem readsSource_type (docs : List String) {kind : DeclKind} (name : String)
    {inherited : List TypeExpr} {body : List Face} {o : Outline} (hkind : kind ≠ .classType)
    (hne : inherited ≠ []) (hinherited : ∀ t ∈ inherited, StandsAlone t)
    (hbody : ReadsBody body o) :
    ReadsSource (typeDeclFaces docs kind name inherited body)
      [.type (typeHeader docs kind name inherited) o] := by
  rw [typeDeclFaces, bodyFaces_eq hne]
  exact readsSource_typeDecl docs true name hkind (fun t ht => (hinherited t ht).readsEntry) hbody.closes

/-- The faces of an extension by which a type conforms to a protocol. -/
def extensionFaces (name : String) (inherited : List TypeExpr) (body : List Face) : List Face :=
  headingFaces [] false ++ .word "extension" :: .word name :: bodyFaces inherited body

/-- An extension is read as one declaration. -/
theorem readsSource_extension {name : String} {inherited : List TypeExpr} {body : List Face}
    {o : Outline} (hne : inherited ≠ []) (hinherited : ∀ t ∈ inherited, StandsAlone t)
    (hbody : ReadsBody body o) :
    ReadsSource (extensionFaces name inherited body)
      [.extension ⟨name, .start, inherited.map typeText⟩ o] := by
  rw [extensionFaces, bodyFaces_eq hne]
  exact readsSource_extensionDecl [] false name (fun t ht => (hinherited t ht).readsEntry) hbody.closes

/-! ## Aliases -/

def attributeFaces (arguments : List Face) : List Face :=
  .symbol "@" :: .word "available" :: .symbol "(" :: (arguments ++ [.symbol ")"])

/-- The faces of a public alias; `deprecation` is what its attribute says, if it has one. -/
def aliasFaces (docs : List String) (deprecation : Option (List Face)) (name : String)
    (target : TypeExpr) : List Face :=
  docs.map Face.doc ++ ((deprecation.map attributeFaces).getD [] ++
    .word "public" :: .word "typealias" :: .word name :: .symbol "=" :: typeFaces target)

def aliasDecl (docs : List String) (deprecation : Option (List Face)) (name : String)
    (target : TypeExpr) : AliasDecl :=
  { name, position := .start, docs
    attributes := deprecation.toList.map fun arguments => ⟨"available", arguments.map Prod.snd⟩
    isGeneric := false, target := typeText target }

theorem readHeading_attributeFaces {arguments : List Face}
    (harguments : Balanced "(" ")" arguments) {tokens : List Token}
    (htokens : tokens.map Token.face = attributeFaces arguments) {rest rest' : List Token}
    {heading : Heading} (hrest : readHeading rest = .ok (heading, rest')) :
    readHeading (tokens ++ rest) =
      .ok ({ heading with attributes :=
        ⟨"available", arguments.map Prod.snd⟩ :: heading.attributes }, rest') := by
  obtain ⟨at_, tail, rfl, htail⟩ := map_face_eq_cons.mp htokens
  obtain ⟨nameAt, group, rfl, hgroup⟩ := map_face_eq_cons.mp htail
  obtain ⟨openAt, inner, closeAt, rfl, rfl⟩ := map_face_bracketed hgroup
  have hread : readGroup "(" ")" ((Face.symbol "(").token openAt ::
      (inner ++ (Face.symbol ")").token closeAt :: rest)) = .ok (⟨_, inner, _⟩, rest) :=
    readGroup_balanced rfl rfl rfl harguments rest
  have htexts : (inner.map Token.face).map Prod.snd = inner.map Token.text := by
    rw [List.map_map]
    rfl
  have hargs : readAttributeArguments ((Face.symbol "(").token openAt ::
      (inner ++ (Face.symbol ")").token closeAt :: rest)) =
        .ok ((inner.map Token.face).map Prod.snd, rest) := by
    rw [readAttributeArguments, if_pos (by rfl), htexts]
    exact bind_eq_ok_iff.mpr ⟨_, hread, rfl⟩
  have hattribute : readAttribute? ((Face.word "available").token nameAt ::
      (Face.symbol "(").token openAt :: (inner ++ (Face.symbol ")").token closeAt :: rest)) =
        .ok (some (⟨"available", (inner.map Token.face).map Prod.snd⟩, rest)) := by
    rw [readAttribute?, if_pos (by rfl)]
    exact bind_eq_ok_iff.mpr ⟨_, hargs, rfl⟩
  have hpart : readHeadingPart? ((Face.symbol "@").token at_ ::
      (Face.word "available").token nameAt :: (Face.symbol "(").token openAt ::
        (inner ++ (Face.symbol ")").token closeAt :: rest)) =
          .ok (some (.marker ⟨"available", (inner.map Token.face).map Prod.snd⟩, rest)) := by
    rw [readHeadingPart?, if_neg (by rintro ⟨⟩), if_pos (by rfl)]
    exact bind_eq_ok_iff.mpr ⟨_, hattribute, rfl⟩
  simp only [List.cons_append, List.append_assoc, List.nil_append]
  rw [readHeading_eq]
  refine bind_eq_ok_iff.mpr ⟨_, hpart, ?_⟩
  exact bind_eq_ok_iff.mpr ⟨_, hrest, rfl⟩

/-- What a heading says of deprecation is kept as its only attribute. -/
theorem readHeading_deprecation {deprecation : Option (List Face)}
    (hdeprecation : ∀ arguments ∈ deprecation, Balanced "(" ")" arguments) {tokens : List Token}
    (htokens : tokens.map Token.face = (deprecation.map attributeFaces).getD [])
    {rest rest' : List Token} (hrest : readHeading rest = .ok (.empty, rest')) :
    readHeading (tokens ++ rest) =
      .ok (⟨[], deprecation.toList.map fun arguments => ⟨"available", arguments.map Prod.snd⟩, false⟩,
        rest') := by
  cases deprecation with
  | none =>
    cases List.map_eq_nil_iff.mp htokens
    exact hrest
  | some arguments => exact readHeading_attributeFaces (hdeprecation _ rfl) htokens hrest

/-- An alias is read as one declaration if nothing comes after it. -/
theorem readsWhole_alias (docs : List String) {deprecation : Option (List Face)} (name : String)
    {target : TypeExpr} (hdeprecation : ∀ arguments ∈ deprecation, Balanced "(" ")" arguments)
    (htarget : IsWritable target) :
    ReadsWhole (aliasFaces docs deprecation name target)
      [.typealias (aliasDecl docs deprecation name target)] := by
  refine .of_next fun tokens htokens => ?_
  obtain ⟨comments, tail, rfl, hcomments, htail⟩ := map_face_eq_append.mp htokens
  obtain ⟨markers, tail, rfl, hmarkers, hdecl⟩ := map_face_eq_append.mp htail
  obtain ⟨publicAt, tail, rfl, hkeyword⟩ := map_face_eq_cons.mp hdecl
  obtain ⟨keywordAt, tail, rfl, hname⟩ := map_face_eq_cons.mp hkeyword
  obtain ⟨nameAt, tail, rfl, hequals⟩ := map_face_eq_cons.mp hname
  obtain ⟨equalsAt, typeTokens, rfl, htype⟩ := map_face_eq_cons.mp hequals
  have hword : readHeading ((Face.word "public").token publicAt ::
      (Face.word "typealias").token keywordAt :: (Face.word name).token nameAt ::
        (Face.symbol "=").token equalsAt :: typeTokens) = .ok (.empty, _) :=
    readHeading_public publicAt rfl (readHeading_word keywordAt _ (by decide) (by decide))
  have hheading := readHeading_docs hcomments (readHeading_deprecation hdeprecation hmarkers hword)
  rw [List.append_nil] at hheading
  have htarget' : readTypeText (typeTokens ++ []) = .ok (typeText target, []) :=
    readTypeText_typeFaces htarget htype rfl (.inr rfl)
  rw [List.append_nil] at htarget'
  have halias : readTypealias ⟨docs, (aliasDecl docs deprecation name target).attributes, false⟩
      ((Face.word name).token nameAt :: (Face.symbol "=").token equalsAt :: typeTokens) =
        .ok ({ aliasDecl docs deprecation name target with position := nameAt }, []) := by
    refine bind_eq_ok_iff.mpr ⟨_, readIdentifier_word name nameAt _, ?_⟩
    refine bind_eq_ok_iff.mpr ⟨_, skipGroup_of_not_wordNext rfl, ?_⟩
    refine bind_eq_ok_iff.mpr ⟨((Face.symbol "=").token equalsAt, typeTokens), rfl, ?_⟩
    exact bind_eq_ok_iff.mpr ⟨_, htarget', rfl⟩
  refine ⟨[.typealias { aliasDecl docs deprecation name target with position := nameAt }], rfl, ?_⟩
  refine bind_eq_ok_iff.mpr ⟨_, hheading, ?_⟩
  have hitem : readSourceItem ⟨docs, (aliasDecl docs deprecation name target).attributes, false⟩
      ((Face.word "typealias").token keywordAt) ((Face.word name).token nameAt ::
        (Face.symbol "=").token equalsAt :: typeTokens) =
          .ok ([.typealias { aliasDecl docs deprecation name target with position := nameAt }],
            []) :=
    bind_eq_ok_iff.mpr ⟨_, halias, rfl⟩
  exact congrArg (some <$> ·) hitem

end WireSchema.Swift
