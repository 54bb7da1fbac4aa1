import WireSchema.Proofs.Swift.Inheritance

/-!
# Members of generated code

Properties, functions and nested enums as items of a body. Of a function the parser
passes over everything but its name, its first label and its body.
-/

namespace WireSchema.Swift

open Outcome (bind_eq_ok_iff)
open Text (isIdentifier)

/-! ## Properties -/

def propertyDecl (docs : List String) (isLet isComputed : Bool) (name : String) (t : TypeExpr) :
    PropertyDecl :=
  { name, position := .start, docs, type := some (typeText t), isStatic := false, isComputed
    isLet, hasInitializer := false }

def constantFaces (docs : List String) (name : String) (t : TypeExpr) : List Face :=
  headingFaces docs true ++ .word "let" :: .word name :: .symbol ":" :: typeFaces t

def computedFaces (docs : List String) (name : String) (t : TypeExpr) (body : List Face) :
    List Face :=
  headingFaces docs true ++ .word "var" :: .word name :: .symbol ":" ::
    (typeFaces t ++ .symbol "\x7b" :: (body ++ [.symbol "\x7d"]))

/-- A property is read up to where no value starts, with a type or without one. -/
theorem readProperty_of_readTypeClause (heading : Heading) (isLet : Bool) {name : String}
    {type : Option String} (hname : isIdentifier name = true) (nameAt : Position)
    {afterName block rest : List Token} (hclause : readTypeClause afterName = .ok (type, block))
    (hequals : passWord? "=" block = none) (hblock : skipGroup "\x7b" "\x7d" block = .ok rest) :
    readProperty heading isLet ((Face.word name).token nameAt :: afterName) =
      .ok (some ⟨name, nameAt, heading.docs, type, heading.isStatic, computesValue block, isLet,
        false⟩, rest) := by
  have hparen : (Face.word name).isWord "(" = false :=
    Face.isWord_word_of_isIdentifier hname (by decide)
  have hassignment : skipAssignment block = (false, block) := by
    rw [skipAssignment, hequals]
  have hnamed : readNamedProperty heading isLet ((Face.word name).token nameAt :: afterName) =
      .ok (⟨name, nameAt, heading.docs, type, heading.isStatic, computesValue block, isLet, false⟩,
        rest) := by
    refine bind_eq_ok_iff.mpr ⟨_, readIdentifier_word name nameAt _, ?_⟩
    refine bind_eq_ok_iff.mpr ⟨_, hclause, ?_⟩
    dsimp only
    rw [hassignment]
    exact bind_eq_ok_iff.mpr ⟨_, hblock, rfl⟩
  rw [readProperty, wordNext, comesNext, List.head?_cons, Option.any_some, Face.isWord_token,
    hparen, if_neg (by simp)]
  exact bind_eq_ok_iff.mpr ⟨_, hnamed, rfl⟩

theorem readTypeClause_colon {type : String} {typeTokens block : List Token} (colonAt : Position)
    (htype : readTypeText typeTokens = .ok (type, block)) :
    readTypeClause ((Face.symbol ":").token colonAt :: typeTokens) = .ok (some type, block) :=
  bind_eq_ok_iff.mpr ⟨_, htype, rfl⟩

/-- A property whose type has been read up to where no value starts. -/
theorem readProperties_of_readTypeText (docs : List String) (isLet : Bool) {name type : String}
    (hname : isIdentifier name = true) (nameAt colonAt : Position)
    {typeTokens block rest : List Token} (htype : readTypeText typeTokens = .ok (type, block))
    (hequals : passWord? "=" block = none) (hblock : skipGroup "\x7b" "\x7d" block = .ok rest)
    (hcomma : passWord? "," rest = none) :
    readProperties ⟨docs, [], false⟩ isLet ((Face.word name).token nameAt ::
        (Face.symbol ":").token colonAt :: typeTokens) =
      .ok ([⟨name, nameAt, docs, some type, false, computesValue block, isLet, false⟩], rest) := by
  have hproperty := readProperty_of_readTypeClause ⟨docs, [], false⟩ isLet hname nameAt
    (readTypeClause_colon colonAt htype) hequals hblock
  have hlist : readList (readProperty ⟨docs, [], false⟩ isLet)
      (readProperty_advances ⟨docs, [], false⟩ isLet) ((Face.word name).token nameAt ::
        (Face.symbol ":").token colonAt :: typeTokens) =
          .ok ([some ⟨name, nameAt, docs, some type, false, computesValue block, isLet, false⟩],
            rest) := by
    rw [readList_eq]
    refine bind_eq_ok_iff.mpr ⟨_, hproperty, ?_⟩
    dsimp only
    rw [hcomma]
    rfl
  exact bind_eq_ok_iff.mpr ⟨_, hlist, rfl⟩

/-- A property whose type ends where no value starts. -/
theorem readProperties_of_skipGroup (docs : List String) (isLet : Bool) {name : String}
    {t : TypeExpr} (hname : isIdentifier name = true) (ht : IsWritable t) (nameAt colonAt : Position)
    {typeTokens block rest : List Token} (htype : typeTokens.map Token.face = typeFaces t)
    (hends : block.head?.all endsType = true) (hstart : StartsPlainly t block)
    (hequals : passWord? "=" block = none) (hblock : skipGroup "\x7b" "\x7d" block = .ok rest)
    (hcomma : passWord? "," rest = none) :
    readProperties ⟨docs, [], false⟩ isLet ((Face.word name).token nameAt ::
        (Face.symbol ":").token colonAt :: (typeTokens ++ block)) =
      .ok ([{ propertyDecl docs isLet (computesValue block) name t with position := nameAt }],
        rest) :=
  readProperties_of_readTypeText docs isLet hname nameAt colonAt
    (readTypeText_typeFaces ht htype hends hstart) hequals hblock hcomma

theorem skipGroup_balanced {opener closer : String} {first last : Token} {inner : List Token}
    (hfirst : first.isWord opener = true) (hlast : last.isWord closer = true)
    (hlast' : last.isWord opener = false)
    (hinner : Balanced opener closer (inner.map Token.face)) (rest : List Token) :
    skipGroup opener closer (first :: (inner ++ last :: rest)) = .ok rest := by
  rw [skipGroup, wordNext, comesNext, List.head?_cons, Option.any_some, if_pos hfirst,
    readGroup_balanced hfirst hlast hlast' hinner]
  rfl

theorem StartsItem.computesValue {tokens : List Token} (h : StartsItem tokens) :
    computesValue tokens = false := by
  rw [Swift.computesValue, h.wordNext (by decide), Bool.false_and]

/-- A constant is read as an item of a body. -/
theorem readsBody_constant (docs : List String) {name : String} {t : TypeExpr}
    (hname : isIdentifier name = true) (ht : StandsAlone t) :
    ReadsBody (constantFaces docs name t) (.ofProperty (propertyDecl docs true false name t)) := by
  refine .of_item fun tokens rest htokens hrest => ?_
  obtain ⟨letAt, after, hafter, hitem⟩ := nextBodyItem_headingFaces htokens (by decide) rest
  obtain ⟨nameAt, tail, rfl, htail⟩ := map_face_eq_cons.mp hafter
  obtain ⟨colonAt, typeTokens, rfl, htype⟩ := map_face_eq_cons.mp htail
  have hproperty := readProperties_of_skipGroup docs true hname ht.writable nameAt colonAt htype
    hrest.all_endsType (.inl ht.noPrefix) (hrest.passWord? (by decide))
    (skipGroup_of_not_wordNext (hrest.wordNext (by decide))) (hrest.passWord? (by decide))
  refine ⟨[.property { propertyDecl docs true false name t with position := nameAt }], rfl, ?_⟩
  rw [hitem]
  refine bind_eq_ok_iff.mpr ⟨_, hproperty, ?_⟩
  rw [hrest.computesValue]
  rfl

/-- A computed variable is read as an item of a body. -/
theorem readsBody_computed (docs : List String) {name : String} {t : TypeExpr} {body : List Face}
    (hname : isIdentifier name = true) (ht : IsWritable t) (hbody : Balanced "\x7b" "\x7d" body)
    (hobservers : body.head?.any (fun face => ["willSet", "didSet"].contains face.2) = false) :
    ReadsBody (computedFaces docs name t body)
      (.ofProperty (propertyDecl docs false true name t)) := by
  refine .of_item fun tokens rest htokens hrest => ?_
  obtain ⟨varAt, after, hafter, hitem⟩ := nextBodyItem_headingFaces htokens (by decide) rest
  obtain ⟨nameAt, tail, rfl, htail⟩ := map_face_eq_cons.mp hafter
  obtain ⟨colonAt, tail, rfl, htypeBlock⟩ := map_face_eq_cons.mp htail
  obtain ⟨typeTokens, block, rfl, htype, hblock⟩ := map_face_eq_append.mp htypeBlock
  obtain ⟨openAt, inner, closeAt, rfl, hinner⟩ := map_face_bracketed hblock
  rw [← hinner] at hbody
  have hskip : skipGroup "\x7b" "\x7d" ((Face.symbol "\x7b").token openAt ::
      (inner ++ (Face.symbol "\x7d").token closeAt :: rest)) = .ok rest :=
    skipGroup_balanced rfl rfl rfl hbody rest
  have hcomputes : computesValue ((Face.symbol "\x7b").token openAt ::
      (inner ++ (Face.symbol "\x7d").token closeAt :: rest)) = true := by
    cases inner with
    | nil => rfl
    | cons first inner =>
      rw [← hinner] at hobservers
      have hfirst : ["willSet", "didSet"].contains first.text = false := hobservers
      show (true && !(["willSet", "didSet"].contains first.text)) = true
      rw [hfirst]
      rfl
  have hproperty := readProperties_of_skipGroup docs false hname ht nameAt colonAt htype rfl
    (.inr rfl) rfl hskip (hrest.passWord? (by decide))
  refine ⟨[.property { propertyDecl docs false true name t with position := nameAt }], rfl, ?_⟩
  rw [hitem]
  simp only [List.cons_append, List.append_assoc, List.nil_append]
  refine bind_eq_ok_iff.mpr ⟨_, hproperty, ?_⟩
  rw [hcomputes]
  rfl

/-! ## Functions -/

def firstLabelOf : List Face → Option String
  | label :: next :: _ =>
    if label.1 == .identifier && (next.isWord ":" || next.1 == .identifier) then some label.2
    else none
  | _ => none

def effectFaces (isThrowing : Bool) : List Face :=
  if isThrowing then [.word "throws"] else []

def signatureFaces (parameters : List Face) (isThrowing : Bool) (body : List Face) : List Face :=
  .symbol "(" :: (parameters ++ .symbol ")" ::
    (effectFaces isThrowing ++ .symbol "\x7b" :: (body ++ [.symbol "\x7d"])))

theorem firstLabel?_parameters {parameters : List Face} {tokens : List Token} (openAt : Position)
    (htokens : tokens.map Token.face = parameters) (closeAt : Position) (rest : List Token) :
    firstLabel? ((Face.symbol "(").token openAt ::
      (tokens ++ (Face.symbol ")").token closeAt :: rest)) = firstLabelOf parameters := by
  subst htokens
  match tokens with
  | [] => rfl
  | [label] =>
    show (if true && label.isIdentifier && false then some label.text else none) = none
    simp
  | label :: next :: tokens => rfl

theorem readFunctionBody_effectFaces {isThrowing : Bool} {tokens inner : List Token}
    (htokens : tokens.map Token.face = effectFaces isThrowing)
    (hinner : Balanced "\x7b" "\x7d" (inner.map Token.face)) (openAt closeAt : Position)
    (rest : List Token) :
    readFunctionBody false (tokens ++ (Face.symbol "\x7b").token openAt ::
      (inner ++ (Face.symbol "\x7d").token closeAt :: rest)) = .ok (inner, rest) := by
  have hgroup : readGroup "\x7b" "\x7d" ((Face.symbol "\x7b").token openAt ::
      (inner ++ (Face.symbol "\x7d").token closeAt :: rest)) = .ok (⟨_, inner, _⟩, rest) :=
    readGroup_balanced rfl rfl rfl hinner rest
  have hbody : readFunctionBody false ((Face.symbol "\x7b").token openAt ::
      (inner ++ (Face.symbol "\x7d").token closeAt :: rest)) = .ok (inner, rest) := by
    rw [readFunctionBody_cons, if_pos (by rfl)]
    exact bind_eq_ok_iff.mpr ⟨_, hgroup, rfl⟩
  cases isThrowing with
  | false =>
    cases List.map_eq_nil_iff.mp htokens
    exact hbody
  | true =>
    obtain ⟨at_, tail, rfl, htail⟩ := map_face_eq_cons.mp htokens
    cases List.map_eq_nil_iff.mp htail
    rw [List.singleton_append, readFunctionBody_cons, if_neg (by rintro ⟨⟩), if_neg (by rintro ⟨⟩)]
    exact hbody

/-- A function is read after its name, `keyword` being the token that it is placed at. -/
theorem readFunction_signatureFaces {keyword : Token} {name : String} {after : List Token}
    {parameters body : List Face} {isThrowing : Bool}
    (hparameters : Balanced "(" ")" parameters) (hbody : Balanced "\x7b" "\x7d" body)
    {tokens : List Token}
    (htokens : tokens.map Token.face = signatureFaces parameters isThrowing body)
    (rest : List Token) (nameToken : Token) (hname : nameToken.text = name)
    (hsplit : splitFunctionName keyword after = (some nameToken, tokens ++ rest)) :
    ∃ decl, decl.outline = ⟨name, firstLabelOf parameters, body⟩ ∧
      readFunction false keyword after = .ok (decl, rest) := by
  obtain ⟨openAt, tail, rfl, htail⟩ := map_face_eq_cons.mp htokens
  obtain ⟨params, tail, rfl, hparams, hclosed⟩ := map_face_eq_append.mp htail
  obtain ⟨closeAt, tail, rfl, heffectBody⟩ := map_face_eq_cons.mp hclosed
  obtain ⟨effects, block, rfl, heffects, hblock⟩ := map_face_eq_append.mp heffectBody
  obtain ⟨braceAt, inner, endAt, rfl, hinner⟩ := map_face_bracketed hblock
  rw [← hinner] at hbody
  have hbody' := readFunctionBody_effectFaces heffects hbody braceAt endAt rest
  have hlabel := firstLabel?_parameters openAt hparams closeAt (effects ++
    (Face.symbol "\x7b").token braceAt :: (inner ++ (Face.symbol "\x7d").token endAt :: rest))
  rw [← hparams] at hparameters
  have hskip : skipGroup "(" ")" ((Face.symbol "(").token openAt ::
      (params ++ (Face.symbol ")").token closeAt :: (effects ++
        (Face.symbol "\x7b").token braceAt :: (inner ++ (Face.symbol "\x7d").token endAt :: rest)))) =
          .ok _ := skipGroup_balanced rfl rfl rfl hparameters _
  refine ⟨⟨name, keyword.position, false, firstLabelOf parameters, inner⟩, by
    rw [← hinner]; rfl, ?_⟩
  simp only [List.cons_append, List.append_assoc, List.nil_append] at hsplit
  have hmark : ∀ later, dropInitMark nameToken.text ((Face.symbol "(").token openAt :: later) =
      (Face.symbol "(").token openAt :: later := by
    intro later
    have hnext : (wordNext ((Face.symbol "(").token openAt :: later) "?" ||
        wordNext ((Face.symbol "(").token openAt :: later) "!") = false := rfl
    rw [dropInitMark, hnext, Bool.and_false, if_neg (by simp)]
  unfold readFunction
  rw [hsplit]
  dsimp only [Option.map_some, Option.getD_some]
  rw [hmark]
  refine bind_eq_ok_iff.mpr ⟨_, skipGroup_of_not_wordNext rfl, ?_⟩
  refine bind_eq_ok_iff.mpr ⟨_, hskip, ?_⟩
  refine bind_eq_ok_iff.mpr ⟨_, hbody', ?_⟩
  rw [hlabel, hname]
  rfl

def initFaces (docs : List String) (parameters : List Face) (isThrowing : Bool)
    (body : List Face) : List Face :=
  headingFaces docs true ++ .word "init" :: signatureFaces parameters isThrowing body

def funcFaces (docs : List String) (name : String) (parameters : List Face) (isThrowing : Bool)
    (body : List Face) : List Face :=
  headingFaces docs true ++
    .word "func" :: .word name :: signatureFaces parameters isThrowing body

/-- An initializer is read as an item of a body, public or not. -/
theorem readsBody_headedInit (docs : List String) (isPublic : Bool) {parameters body : List Face}
    (isThrowing : Bool) (hparameters : Balanced "(" ")" parameters)
    (hbody : Balanced "\x7b" "\x7d" body) :
    ReadsBody (headingFaces docs isPublic ++ .word "init" ::
        signatureFaces parameters isThrowing body)
      (.ofFunction ⟨"init", firstLabelOf parameters, body⟩) := by
  refine .of_item fun tokens rest htokens _ => ?_
  obtain ⟨at_, after, hafter, hitem⟩ := nextBodyItem_headingFaces htokens (by decide) rest
  have hsplit : splitFunctionName ((Face.word "init").token at_) (after ++ rest) =
      (some ((Face.word "init").token at_), after ++ rest) := rfl
  obtain ⟨decl, houtline, hread⟩ := readFunction_signatureFaces hparameters hbody hafter rest
    ((Face.word "init").token at_) rfl hsplit
  refine ⟨[.function decl], congrArg Outline.ofFunction houtline, ?_⟩
  rw [hitem]
  exact bind_eq_ok_iff.mpr ⟨_, hread, rfl⟩

theorem readsBody_init (docs : List String) {parameters body : List Face} (isThrowing : Bool)
    (hparameters : Balanced "(" ")" parameters) (hbody : Balanced "\x7b" "\x7d" body) :
    ReadsBody (initFaces docs parameters isThrowing body)
      (.ofFunction ⟨"init", firstLabelOf parameters, body⟩) :=
  readsBody_headedInit docs true isThrowing hparameters hbody

/-- A function is read as an item of a body. -/
theorem readsBody_func (docs : List String) (name : String) {parameters body : List Face}
    (isThrowing : Bool) (hparameters : Balanced "(" ")" parameters)
    (hbody : Balanced "\x7b" "\x7d" body) :
    ReadsBody (funcFaces docs name parameters isThrowing body)
      (.ofFunction ⟨name, firstLabelOf parameters, body⟩) := by
  refine .of_item fun tokens rest htokens _ => ?_
  obtain ⟨at_, after, hafter, hitem⟩ := nextBodyItem_headingFaces htokens (by decide) rest
  obtain ⟨nameAt, after, rfl, hsignature⟩ := map_face_eq_cons.mp hafter
  have hsplit : splitFunctionName ((Face.word "func").token at_)
      ((Face.word name).token nameAt :: after ++ rest) =
        (some ((Face.word name).token nameAt), after ++ rest) := rfl
  obtain ⟨decl, houtline, hread⟩ := readFunction_signatureFaces hparameters hbody hsignature rest
    ((Face.word name).token nameAt) rfl hsplit
  refine ⟨[.function decl], congrArg Outline.ofFunction houtline, ?_⟩
  rw [hitem]
  exact bind_eq_ok_iff.mpr ⟨_, hread, rfl⟩

/-! ## Nested enums -/

def bodyFaces (inherited : List TypeExpr) (body : List Face) : List Face :=
  .symbol ":" :: (commaFaces (inherited.map typeFaces) ++
    .symbol "\x7b" :: (body ++ [.symbol "\x7d"]))

def nestedEnumFaces (name : String) (inherited : List TypeExpr) (body : List Face) : List Face :=
  headingFaces [] false ++ .word "enum" :: .word name :: bodyFaces inherited body

theorem bodyFaces_eq {inherited : List TypeExpr} (hne : inherited ≠ []) (body : List Face) :
    bodyFaces inherited body =
      clauseFaces (inherited.map typeFaces) ++ .symbol "\x7b" :: (body ++ [.symbol "\x7d"]) := by
  obtain ⟨t, later, rfl⟩ := List.exists_cons_of_ne_nil hne
  rfl

/-- A type that stands alone is read as one of the types of a clause. -/
theorem StandsAlone.readsEntry {t : TypeExpr} (h : StandsAlone t) :
    ReadsEntry (typeFaces t) (typeText t) :=
  fun _ _ htokens hrest => readTypeText_typeFaces h.writable htokens
    (all_endsType_of_endsEntry hrest).1 (.inl h.noPrefix)

/-- A header is read up to its body. -/
theorem readTypeHeader_bodyFaces (docs : List String) (kind : DeclKind) {name : String}
    {inherited : List TypeExpr} {body : List Face} (hne : inherited ≠ [])
    (hinherited : ∀ t ∈ inherited, StandsAlone t)
    {tokens : List Token}
    (htokens : tokens.map Token.face = .word name :: bodyFaces inherited body) (rest : List Token) :
    ∃ nameAt inner closeAt, inner.map Token.face = body ∧
      readTypeHeader ⟨docs, [], false⟩ kind (tokens ++ rest) =
        .ok (⟨kind, name, nameAt, docs, [], false, inherited.map typeText⟩,
          inner ++ (Face.symbol "\x7d").token closeAt :: rest) := by
  rw [bodyFaces_eq hne] at htokens
  obtain ⟨nameAt, block, hblock, hheader⟩ :=
    readTypeHeader_clause ⟨docs, [], false⟩ kind (fun t ht => (hinherited t ht).readsEntry)
      htokens rest
  obtain ⟨inner, closeAt, rfl, hinner⟩ := map_face_eq_concat hblock
  refine ⟨nameAt, inner, closeAt, hinner, ?_⟩
  simpa using hheader

/-- A nested enum is read as an item of a body. -/
theorem readsBody_nestedEnum (name : String) {inherited : List TypeExpr} {body : List Face}
    {o : Outline} (hne : inherited ≠ []) (hinherited : ∀ t ∈ inherited, StandsAlone t)
    (hbody : ReadsBody body o) :
    ReadsBody (nestedEnumFaces name inherited body) (.ofType name o.cases) := by
  intro tokens rest after later htokens hrest hlater
  obtain ⟨enumAt, afterKeyword, hafter, hitem⟩ :=
    nextBodyItem_headingFaces htokens (by decide) rest
  obtain ⟨nameAt, inner, closeAt, hinner, hheader⟩ :=
    readTypeHeader_bodyFaces [] .enum hne hinherited hafter rest
  obtain ⟨members, houtline, hmembers⟩ := hbody.readBody_eq_ok hinner closeAt rest
  have htype : nextBodyItem (tokens ++ rest) =
      .ok (.type ⟨.enum, name, nameAt, [], [], false, inherited.map typeText⟩,
        inner ++ (Face.symbol "\x7d").token closeAt :: rest) := by
    rw [hitem]
    exact bind_eq_ok_iff.mpr ⟨_, hheader, rfl⟩
  refine ⟨[.type ⟨.enum, name, nameAt, [], [], false, inherited.map typeText⟩ members], ?_, ?_⟩
  · rw [← houtline]
    rfl
  · rw [readBody_eq]
    refine bind_eq_ok_iff.mpr ⟨_, htype, ?_⟩
    refine bind_eq_ok_iff.mpr ⟨_, hmembers, ?_⟩
    exact bind_eq_ok_iff.mpr ⟨_, hlater, rfl⟩

end WireSchema.Swift
