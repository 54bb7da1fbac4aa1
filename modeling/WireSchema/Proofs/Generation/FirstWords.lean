import WireSchema.Proofs.Generation.Sources

/-!
# Fields whose types are first words of types

A word like `some` may stand in front of a type, so where a name comes next the parser takes
that for the type. A field of which the word is the whole type therefore takes the first word
of the next item as well. What is left of that item is read all the same: a constant or an
initializer needs no `public`, and without `enum` the header of the coding keys is passed
over, so that the brace after their cases closes the struct and the initializer is taken for
a free function. Either way the struct is all that the file declares.
-/

namespace WireSchema.Swift

open Outcome (bind_eq_ok_iff)
open Text (isIdentifier)

/-! ## To the end of a file -/

/-- The rest of a body, and of the source after it, is read and declares nothing more. -/
def ReadsToEnd (faces : List Face) : Prop :=
  ∀ ⦃tokens : List Token⦄, tokens.map Token.face = faces →
    ∃ members rest, readBody tokens = .ok (members, rest) ∧ readDecls rest = .ok []

namespace ReadsToEnd

theorem close {faces : List Face} (h : ReadsWhole faces []) :
    ReadsToEnd (.symbol "\x7d" :: faces) := by
  intro tokens htokens
  obtain ⟨at_, rest, rfl, hrest⟩ := map_face_eq_cons.mp htokens
  obtain ⟨decls, houtlines, hread⟩ := h hrest
  cases List.map_eq_nil_iff.mp houtlines
  exact ⟨[], rest, readBody_close at_ rest, hread⟩

theorem items {fs gs : List Face} {o : Outline} (h : ReadsBody fs o) (h' : ReadsToEnd gs)
    (hgs : gs.head?.any startsItem = true) : ReadsToEnd (fs ++ gs) := by
  intro tokens htokens
  obtain ⟨a, b, rfl, ha, hb⟩ := map_face_eq_append.mp htokens
  obtain ⟨later, rest, hbody, hrest⟩ := h' hb
  have hstart : StartsItem b := by
    rw [StartsItem, hb]
    exact hgs
  obtain ⟨members, -, hread⟩ := h ha hstart hbody
  exact ⟨members ++ later, rest, hread, hrest⟩

/-- A complete item in front of the rest of a body. -/
theorem item {tokens rest : List Token} {members : List Member} {faces : List Face}
    (h : nextBodyItem tokens = .ok (.members members, rest)) (h' : ReadsToEnd faces)
    (hrest : rest.map Token.face = faces) :
    ∃ members rest, readBody tokens = .ok (members, rest) ∧ readDecls rest = .ok [] := by
  obtain ⟨later, after, hbody, hafter⟩ := h' hrest
  refine ⟨members ++ later, after, ?_, hafter⟩
  rw [readBody_eq]
  refine bind_eq_ok_iff.mpr ⟨_, h, ?_⟩
  exact bind_eq_ok_iff.mpr ⟨_, hbody, rfl⟩

/-- What the header of the coding keys is made of after its keyword is passed over. -/
theorem pass {face : Face} {faces : List Face}
    (hface : face ∈ [.word "CodingKeys", .symbol ":", .word "String", .symbol ",",
      .word "CodingKey", .symbol "\x7b"]) (h : ReadsToEnd faces) :
    ReadsToEnd (face :: faces) := by
  intro tokens htokens
  obtain ⟨at_, rest, rfl, hrest⟩ := map_face_eq_cons.mp htokens
  have hheading : readHeading (face.token at_ :: rest) = .ok (.empty, face.token at_ :: rest) := by
    rw [readHeading_eq]
    simp only [List.mem_cons, List.not_mem_nil, or_false] at hface
    rcases hface with rfl | rfl | rfl | rfl | rfl | rfl
    all_goals rfl
  have hitem : nextBodyItem (face.token at_ :: rest) = .ok (.members [], rest) := by
    refine bind_eq_ok_iff.mpr ⟨_, hheading, ?_⟩
    simp only [List.mem_cons, List.not_mem_nil, or_false] at hface
    rcases hface with rfl | rfl | rfl | rfl | rfl | rfl
    all_goals rfl
  exact item hitem h hrest

end ReadsToEnd

/-! ## Outside of bodies -/

/-- An initializer outside of a body declares nothing. -/
theorem readsSource_init (docs : List String) {parameters body : List Face} (isThrowing : Bool)
    (hparameters : Balanced "(" ")" parameters) (hbody : Balanced "\x7b" "\x7d" body) :
    ReadsSource (initFaces docs parameters isThrowing body) [] := by
  refine .of_next fun tokens rest htokens _ => ?_
  obtain ⟨at_, after, hafter, hnext⟩ := nextDecls?_headingFaces docs true htokens (by decide) rest
  have hsplit : splitFunctionName ((Face.word "init").token at_) (after ++ rest) =
      (some ((Face.word "init").token at_), after ++ rest) := rfl
  obtain ⟨decl, -, hread⟩ := readFunction_signatureFaces hparameters hbody hafter rest
    ((Face.word "init").token at_) rfl hsplit
  have hitem : readSourceItem ⟨docs, [], false⟩ ((Face.word "init").token at_) (after ++ rest) =
      .ok ([], rest) :=
    bind_eq_ok_iff.mpr ⟨_, hread, rfl⟩
  refine ⟨[], rfl, ?_⟩
  rw [hnext, hitem]
  rfl

theorem readsSource_close : ReadsSource [.symbol "\x7d"] [] := by
  refine .of_next fun tokens rest htokens _ => ?_
  obtain ⟨at_, tail, rfl, htail⟩ := map_face_eq_cons.mp htokens
  cases List.map_eq_nil_iff.mp htail
  have hheading : readHeading ((Face.symbol "\x7d").token at_ :: rest) =
      .ok (.empty, (Face.symbol "\x7d").token at_ :: rest) := by
    rw [readHeading_eq]
    rfl
  exact ⟨[], rfl, bind_eq_ok_iff.mpr ⟨_, hheading, rfl⟩⟩

/-! ## Words in front of types -/

section

variable {first second : Token} {tokens run rest : List Token}

theorem readTypeOperand_prefix (hfirst : first.isIdentifier = true)
    (hleading : first.text ∈ typePrefixes) (hsecond : second.isIdentifier = true)
    (h : readTypeOperand (second :: tokens) = .ok (run, rest)) :
    readTypeOperand (first :: second :: tokens) = .ok (first :: run, rest) := by
  have hat : first.isWord "@" = false := by
    refine Bool.eq_false_iff.mpr fun hat => ?_
    simp only [Token.isWord, Bool.and_eq_true, beq_iff_eq] at hat
    rw [hat.2] at hleading
    exact absurd hleading (by decide)
  have hsplit : splitQualifiers (first :: second :: tokens) =
      (first :: (splitQualifiers (second :: tokens)).1, (splitQualifiers (second :: tokens)).2) := by
    rw [splitQualifiers, hat, Bool.false_and, if_neg (by simp), if_pos]
    simp [hfirst, hleading, hsecond]
  obtain ⟨⟨core, afterCore⟩, hcore, h⟩ := bind_eq_ok_iff.mp h
  cases h
  rw [readTypeOperand, hsplit]
  exact bind_eq_ok_iff.mpr ⟨_, hcore, rfl⟩

/-- A word in front of a type is read with it. -/
theorem readTypeRun_prefix (hfirst : first.isIdentifier = true)
    (hleading : first.text ∈ typePrefixes) (hsecond : second.isIdentifier = true)
    (h : readTypeRun (second :: tokens) = .ok (run, rest)) :
    readTypeRun (first :: second :: tokens) = .ok (first :: run, rest) := by
  rw [readTypeRun_eq] at h ⊢
  obtain ⟨⟨operand, afterOperand⟩, hoperand, h⟩ := bind_eq_ok_iff.mp h
  refine bind_eq_ok_iff.mpr ⟨_, readTypeOperand_prefix hfirst hleading hsecond hoperand, ?_⟩
  dsimp only at h ⊢
  split at h
  · next operator after hoperator =>
    obtain ⟨⟨more, rest'⟩, hmore, h⟩ := bind_eq_ok_iff.mp h
    cases h
    exact bind_eq_ok_iff.mpr ⟨_, hmore, rfl⟩
  · cases h
    rfl

end

/-! ## Items that may lack their first word -/

/-- The rest of a file, from an item on, is read also without the first word of the item. -/
structure ReadsTwice (faces : List Face) : Prop where
  starts : faces.head?.any startsItem = true
  whole : ReadsToEnd faces
  shorter : ∀ word more, faces = .word word :: more →
    word ∈ ["public", "enum"] ∧ ReadsToEnd more ∧
      ∃ next ∈ ["let", "init", "CodingKeys"], more.head? = some (.word next)

/-- The token that a type ends before if it has taken the first word of an item. -/
theorem endsType_of_shorter {tokens : List Token} {faces : List Face} {next : String}
    (htokens : tokens.map Token.face = faces) (hnext : next ∈ ["let", "init", "CodingKeys"])
    (hfaces : faces.head? = some (.word next)) :
    tokens.head?.all endsType = true ∧ passWord? "=" tokens = none ∧
      passWord? "," tokens = none ∧ wordNext tokens "\x7b" = false := by
  subst htokens
  cases tokens with
  | nil => cases hfaces
  | cons token later =>
    have htoken : [token].map Token.face = [.word next] :=
      congrArg (· :: []) (Option.some.inj hfaces)
    obtain ⟨at_, rest, hcons, -⟩ := map_face_eq_cons.mp htoken
    cases hcons
    simp only [List.mem_cons, List.not_mem_nil, or_false] at hnext
    rcases hnext with rfl | rfl | rfl
    all_goals exact ⟨rfl, rfl, rfl, rfl⟩

theorem readTypeText_prefix {word second : String} (hword : word ∈ typePrefixes)
    (hsecond : second ∈ ["public", "enum"]) (wordAt secondAt : Position) {rest : List Token}
    (hrest : rest.head?.all endsType = true) :
    ∃ text, readTypeText ((Face.word word).token wordAt :: (Face.word second).token secondAt ::
      rest) = .ok (text, rest) := by
  have hfaces : [Face.word second] = typeFaces (.custom second) ∧
      IsDotted second.toList ∧ second ∉ typePrefixes := by
    simp only [List.mem_cons, List.not_mem_nil, or_false] at hsecond
    rcases hsecond with rfl | rfl
    all_goals decide
  obtain ⟨hface, hdotted, hplain⟩ := hfaces
  have hstart : StartsPlainly (.custom second) rest := by
    refine .inl fun name hname => ?_
    cases hname
    exact hplain
  have hrun : readTypeRun ([(Face.word second).token secondAt] ++ rest) = .ok (_, rest) :=
    readTypeRun_typeFaces (t := .custom second) hdotted hface hrest hstart
  exact ⟨_, bind_eq_ok_iff.mpr ⟨_, readTypeRun_prefix rfl hword rfl hrun, rfl⟩⟩

/-- Either a type ends before an item, or it is a word in front of the first one of that. -/
theorem startsPlainly_or_prefix (t : TypeExpr) {rest : List Token} (hrest : StartsItem rest) :
    StartsPlainly t rest ∨ ∃ word ∈ typePrefixes, t = .custom word ∧
      ∃ second at_ later, rest = (Face.word second).token at_ :: later := by
  obtain ⟨⟨kind, text, at_⟩, later, rfl, hfirst⟩ := hrest.exists_cons
  by_cases hkind : kind = .identifier
  · subst hkind
    by_cases hword : ∃ word ∈ typePrefixes, t = .custom word
    · obtain ⟨word, hmem, rfl⟩ := hword
      exact .inr ⟨word, hmem, rfl, text, at_, later, rfl⟩
    · exact .inl (.inl fun name hname hmem => hword ⟨name, hmem, hname⟩)
  · have hname : (Token.mk kind text at_).isIdentifier = false := beq_false_of_ne hkind
    have hbracket := isWord_of_startsItem hfirst (show "[" ∉ _ by decide)
    have hparen := isWord_of_startsItem hfirst (show "(" ∉ _ by decide)
    refine .inl (.inr ?_)
    rw [List.head?_cons, Option.any_some, startsType, hname, hbracket, hparen]
    rfl

/-- A constant of any type is read before items that may lack their first word. -/
theorem readsToEnd_constant (docs : List String) (isPublic : Bool) {name : String} {t : TypeExpr}
    (hname : isIdentifier name = true) (ht : IsWritable t) {faces : List Face}
    (h : ReadsTwice faces) :
    ReadsToEnd (headingFaces docs isPublic ++
      .word "let" :: .word name :: .symbol ":" :: (typeFaces t ++ faces)) := by
  intro tokens htokens
  obtain ⟨letAt, after, hafter, hitem⟩ := nextBodyItem_headingFaces htokens (by decide) []
  rw [List.append_nil, List.append_nil] at hitem
  obtain ⟨nameAt, tail, rfl, htail⟩ := map_face_eq_cons.mp hafter
  obtain ⟨colonAt, typed, rfl, htyped⟩ := map_face_eq_cons.mp htail
  obtain ⟨typeTokens, rest, rfl, htype, hrest⟩ := map_face_eq_append.mp htyped
  have hstart : StartsItem rest := by
    rw [StartsItem, hrest]
    exact h.starts
  rcases startsPlainly_or_prefix t hstart with hplain | ⟨word, hword, rfl, second, at_, later, rfl⟩
  · have hproperty := readProperties_of_skipGroup docs true hname ht nameAt colonAt htype
      hstart.all_endsType hplain (hstart.passWord? (by decide))
      (skipGroup_of_not_wordNext (hstart.wordNext (by decide))) (hstart.passWord? (by decide))
    exact ReadsToEnd.item (hitem.trans (bind_eq_ok_iff.mpr ⟨_, hproperty, rfl⟩)) h.whole hrest
  · obtain ⟨hsecond, hmore, next, hnext, hhead⟩ := h.shorter second (later.map Token.face) hrest.symm
    obtain ⟨hends, hequals, hcomma, hbrace⟩ := endsType_of_shorter rfl hnext hhead
    have hfaces : typeFaces (.custom word) = [.word word] := by
      simp only [typePrefixes, List.mem_cons, List.not_mem_nil, or_false] at hword
      rcases hword with rfl | rfl | rfl | rfl | rfl | rfl
      all_goals decide
    rw [hfaces] at htype
    obtain ⟨wordAt, more, rfl, hnil⟩ := map_face_eq_cons.mp htype
    cases List.map_eq_nil_iff.mp hnil
    obtain ⟨text, htext⟩ := readTypeText_prefix hword hsecond wordAt at_ hends
    have hproperty := readProperties_of_readTypeText docs true hname nameAt colonAt htext hequals
      (skipGroup_of_not_wordNext hbrace) hcomma
    exact ReadsToEnd.item (hitem.trans (bind_eq_ok_iff.mpr ⟨_, hproperty, rfl⟩)) hmore rfl

theorem readsTwice_constant (docs : List String) {name : String} {t : TypeExpr}
    (hname : isIdentifier name = true) (ht : IsWritable t) {faces : List Face}
    (h : ReadsTwice faces) : ReadsTwice (constantFaces docs name t ++ faces) := by
  have hfaces : constantFaces docs name t ++ faces =
      headingFaces docs true ++ .word "let" :: .word name :: .symbol ":" :: (typeFaces t ++ faces) := by
    rw [constantFaces, List.append_assoc]
    rfl
  rw [hfaces]
  refine ⟨head?_headingFaces_startsItem (.inl rfl) _, readsToEnd_constant docs true hname ht h, ?_⟩
  intro word more heq
  cases docs with
  | cons doc docs => cases heq
  | nil =>
    obtain ⟨hword, rfl⟩ := List.cons.inj heq
    cases hword
    exact ⟨by decide, readsToEnd_constant [] false hname ht h, "let", by decide, rfl⟩

/-! ## Types that may end early -/

/-- A type whose body and the end of the file after it are read is all that is declared. -/
theorem readDecls_typeDeclFaces (docs : List String) {kind : DeclKind} (name : String)
    {inherited : List TypeExpr} {body : List Face} (hkind : kind ≠ .classType)
    (hne : inherited ≠ []) (hinherited : ∀ t ∈ inherited, StandsAlone t)
    (hbody : ReadsToEnd (body ++ [.symbol "\x7d"])) {tokens : List Token}
    (htokens : tokens.map Token.face = typeDeclFaces docs kind name inherited body) :
    ∃ decls, (∃ o, decls.map Decl.outline = [.type (typeHeader docs kind name inherited) o]) ∧
      readDecls tokens = .ok decls := by
  obtain ⟨at_, after, hafter, hnext⟩ :=
    nextDecls?_headingFaces docs true htokens (DeclKind.keyword_notMem hkind) []
  obtain ⟨nameAt, inner, closeAt, hinner, hheader⟩ :=
    readTypeHeader_bodyFaces docs kind hne hinherited hafter []
  have hfaces : (inner ++ [(Face.symbol "\x7d").token closeAt]).map Token.face =
      body ++ [.symbol "\x7d"] := by
    rw [List.map_append, hinner]
    rfl
  obtain ⟨members, rest, hmembers, hrest⟩ := hbody hfaces
  rw [readSourceItem_type hkind at_ hheader, hmembers, List.append_nil] at hnext
  refine ⟨[.type ⟨⟨kind, name, nameAt, docs, [], false, inherited.map typeText⟩, members⟩],
    ⟨outline members, rfl⟩, ?_⟩
  rw [readDecls_eq]
  refine bind_eq_ok_iff.mpr ⟨_, hnext, ?_⟩
  exact bind_eq_ok_iff.mpr ⟨_, hrest, rfl⟩

end WireSchema.Swift

namespace WireSchema.Generation

open Swift

/-! ## Structs -/

theorem readsWhole_initializerFaces {fields : List FieldForm}
    (h : ∀ field ∈ fields, field.IsWritable) :
    ReadsWhole (initializerFaces fields ++ [.symbol "\x7d"]) [] := by
  obtain ⟨hparameters, hbody⟩ := balanced_initializer h
  exact ((readsSource_init [] false hparameters hbody).append readsSource_close rfl).whole

theorem readsTwice_initializerFaces {fields : List FieldForm}
    (h : ∀ field ∈ fields, field.IsWritable) :
    ReadsTwice (initializerFaces fields ++ [.symbol "\x7d"]) := by
  obtain ⟨hparameters, hbody⟩ := balanced_initializer h
  have hend : ReadsToEnd [.symbol "\x7d"] := .close ReadsSource.nil.whole
  refine ⟨rfl, .items (readsBody_initializerFaces h) hend rfl, ?_⟩
  intro word more heq
  obtain ⟨hword, rfl⟩ := List.cons.inj heq
  cases hword
  refine ⟨by decide, ?_, "init", by decide, rfl⟩
  exact .items (readsBody_headedInit [] false false hparameters hbody) hend rfl

/-- Without its keyword the header of the coding keys is passed over, and the brace after their
cases closes the struct. -/
theorem readsTwice_codingKeyFaces (keys : List (String × String)) {fields : List FieldForm}
    (h : ∀ field ∈ fields, field.IsWritable) :
    ReadsTwice (codingKeyFaces keys ++ (initializerFaces fields ++ [.symbol "\x7d"])) := by
  have hlater := readsTwice_initializerFaces h
  refine ⟨rfl, .items (readsBody_codingKeyFaces keys) hlater.whole hlater.starts, ?_⟩
  have htypes : commaFaces (codingKeyTypes.map typeFaces) =
      [.word "String", .symbol ",", .word "CodingKey"] := by decide
  have hfaces : codingKeyFaces keys ++ (initializerFaces fields ++ [.symbol "\x7d"]) =
      .word "enum" :: .word "CodingKeys" :: .symbol ":" :: .word "String" :: .symbol "," ::
        .word "CodingKey" :: .symbol "\x7b" ::
          ((keys.flatMap fun key => caseFaces [] key.1 [] (rawText key.1 key.2)) ++
            .symbol "\x7d" :: (initializerFaces fields ++ [.symbol "\x7d"])) := by
    rw [codingKeyFaces, nestedEnumFaces, bodyFaces, htypes]
    simp [headingFaces]
  rw [hfaces]
  intro word more heq
  obtain ⟨hword, rfl⟩ := List.cons.inj heq
  cases hword
  refine ⟨by decide, ?_, "CodingKeys", by decide, rfl⟩
  have hcases := ReadsToEnd.items (readsBody_stringCases keys)
    (.close (readsWhole_initializerFaces h)) rfl
  exact .pass (by decide) (.pass (by decide) (.pass (by decide) (.pass (by decide)
    (.pass (by decide) (.pass (by decide) hcases)))))

theorem readsTwice_structBodyFaces {fields : List FieldForm}
    (h : ∀ field ∈ fields, field.IsWritable) :
    ReadsTwice (structBodyFaces fields ++ [.symbol "\x7d"]) := by
  have hlast : ReadsTwice (structKeyFaces fields ++
      (initializerFaces fields ++ [.symbol "\x7d"])) := by
    unfold structKeyFaces
    split
    · exact readsTwice_codingKeyFaces (structKeys fields) h
    · exact readsTwice_initializerFaces h
  have hfields : ∀ {constants : List FieldForm}, (∀ field ∈ constants, field.IsWritable) →
      ReadsTwice (constants.flatMap FieldForm.constantFaces ++ (structKeyFaces fields ++
        (initializerFaces fields ++ [.symbol "\x7d"]))) := by
    intro constants hconstants
    induction constants with
    | nil => exact hlast
    | cons field later ih =>
      have hlater := ih fun other hother => hconstants other (List.mem_cons_of_mem _ hother)
      have hfield := hconstants field List.mem_cons_self
      rw [List.flatMap_cons, List.append_assoc]
      exact readsTwice_constant _ hfield.name hfield.type hlater
  rw [structBodyFaces, List.append_assoc, List.append_assoc]
  exact hfields h

/-- Whatever the types of its fields, a generated struct is all that its file declares. -/
theorem readDecls_structFaces (name : String) (d : StructDef) {fields : List FieldForm}
    (h : ∀ field ∈ fields, field.IsWritable) {tokens : List Token}
    (htokens : tokens.map Token.face = structFaces name d fields) :
    ∃ decls, (∃ o, decls.map Decl.outline =
        [.type (typeHeader (docTexts d.doc) .struct name (conformances d.direction)) o]) ∧
      readDecls tokens = .ok decls :=
  readDecls_typeDeclFaces (docTexts d.doc) name (by decide) (by simp [conformances])
    standsAlone_of_mem_conformances (readsTwice_structBodyFaces h).whole htokens

end WireSchema.Generation
