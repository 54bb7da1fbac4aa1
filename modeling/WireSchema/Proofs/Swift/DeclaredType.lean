import WireSchema.Proofs.Swift.TypeGrammar

/-!
# Types of declarations

A declaration keeps its type as text. Of the marks behind a type the parser takes in those
before the first double one; it goes on behind them, and what it has taken in is the kept
part of the type. The text that it makes of that has the meaning of the kept part: two
single marks in a row come back as one double mark, which says the same.
-/

namespace WireSchema.Swift

open Outcome (bind_eq_ok_iff)
open Text (isIdentStart isIdentRest isIdentChars isIdentifier isBlank)

/-! ## The kept part of a type -/

namespace TypeTree

def withMarks : TypeTree → List Mark → TypeTree
  | name n isDotted _, marks => name n isDotted marks
  | enclosed enclosure inner _, marks => enclosed enclosure inner marks
  | map enclosure key value _, marks => map enclosure key value marks

@[simp] theorem marks_withMarks (tree : TypeTree) (marks : List Mark) :
    (tree.withMarks marks).marks = marks := by
  cases tree <;> rfl

@[simp] theorem base_withMarks (tree : TypeTree) (marks : List Mark) :
    (tree.withMarks marks).base = tree.base := by
  cases tree <;> rfl

theorem withMarks_marks (tree : TypeTree) : tree.withMarks tree.marks = tree := by
  cases tree <;> rfl

theorem faces_withMarks (tree : TypeTree) (marks : List Mark) :
    (tree.withMarks marks).faces = (tree.withMarks []).faces ++ markFaces marks := by
  cases tree <;> simp [withMarks, faces, markFaces]

/-- The type up to the first double mark behind it. -/
def kept (tree : TypeTree) : TypeTree :=
  tree.withMarks (tree.marks.takeWhile (· != .double))

def passedMarks (tree : TypeTree) : List Mark :=
  tree.marks.dropWhile (· != .double)

theorem faces_kept_append (tree : TypeTree) :
    tree.kept.faces ++ markFaces tree.passedMarks = tree.faces := by
  have hmarks : tree.marks.takeWhile (· != .double) ++ tree.passedMarks = tree.marks :=
    List.takeWhile_append_dropWhile
  calc
    tree.kept.faces ++ markFaces tree.passedMarks =
        (tree.withMarks []).faces ++
          markFaces (tree.marks.takeWhile (· != .double) ++ tree.passedMarks) := by
      rw [kept, faces_withMarks, List.append_assoc]
      simp [markFaces]
    _ = tree.faces := by rw [hmarks, ← faces_withMarks, withMarks_marks]

end TypeTree

theorem closeMarks_inj {marks marks' : List Mark} {base : TypeExpr} :
    closeMarks marks base = closeMarks marks' base ↔
      (base.isOptional = true ∨ marks.isEmpty = marks'.isEmpty) := by
  have hne : base.isOptional = false → base.asOptional ≠ base := by
    intro hopt heq
    have hasOptional := TypeExpr.isOptional_asOptional base
    rw [heq, hopt] at hasOptional
    cases hasOptional
  have heq : base.isOptional = true → base.asOptional = base := by
    intro hopt
    rw [TypeExpr.asOptional, if_pos hopt]
  cases hopt : base.isOptional with
  | true => simp [closeMarks, heq hopt]
  | false =>
    cases marks with
    | nil =>
      cases marks' with
      | nil => simp
      | cons => simpa [closeMarks] using (hne hopt).symm
    | cons =>
      cases marks' with
      | nil => simpa [closeMarks] using hne hopt
      | cons => simp [closeMarks]

/-- Only a double mark in front of all others is lost, and only behind what is not optional
without it. -/
theorem TypeTree.meaning_kept_eq_iff {tree : TypeTree} :
    tree.kept.meaning = tree.meaning ↔
      tree.base.isOptional = true ∨ tree.marks.head? ≠ some .double := by
  have hempty : (tree.marks.takeWhile (· != .double)).isEmpty = tree.marks.isEmpty ↔
      tree.marks.head? ≠ some .double := by
    cases tree.marks with
    | nil => simp
    | cons mark marks => cases mark <;> simp
  rw [meaning, meaning, kept, marks_withMarks, base_withMarks, closeMarks_inj, hempty]

/-! ## Brackets -/

theorem balanced_markFaces (marks : List Mark) {opener closer : String}
    (hpair : (opener, closer) ∈ bracketPairs) : Balanced opener closer (markFaces marks) := by
  induction marks with
  | nil => exact .nil
  | cons mark marks ih =>
    have hmark : Balanced opener closer [.symbol mark.text] := by
      cases mark <;> exact balanced_symbol (by decide) hpair
    exact hmark.append ih

/-- The faces of a generic type. -/
theorem balanced_genericFaces (isQualified : Bool) {name opener closer : String}
    (hname : isIdentifier name = true) (hpair : (opener, closer) ∈ bracketPairs)
    {faces : List Face} (h : Balanced opener closer faces) :
    Balanced opener closer (genericFaces isQualified name ++ (faces ++ [.symbol ">"])) := by
  have hgroup : Balanced opener closer (.symbol "<" :: (faces ++ [.symbol ">"])) :=
    balanced_brackets hpair (by decide) h
  have hnamed := (balanced_word hname hpair).append hgroup
  cases isQualified with
  | false => exact hnamed
  | true =>
    have hmodule : Balanced opener closer [.word "Swift"] := balanced_word (by decide) hpair
    have hdot : Balanced opener closer [.symbol "."] := balanced_symbol (by decide) hpair
    exact hmodule.append (hdot.append hnamed)

theorem Enclosure.balanced (enclosure : Enclosure) {opener closer : String}
    (hpair : (opener, closer) ∈ bracketPairs) {faces : List Face}
    (h : Balanced opener closer faces) :
    Balanced opener closer (enclosure.front ++ (faces ++ [enclosure.back])) := by
  cases enclosure with
  | brackets => exact balanced_brackets hpair (by decide) h
  | parentheses => exact balanced_brackets hpair (by decide) h
  | generic wrapper isQualified =>
    exact balanced_genericFaces isQualified wrapper.isIdentifier_name hpair h

theorem MapEnclosure.balanced (enclosure : MapEnclosure) {opener closer : String}
    (hpair : (opener, closer) ∈ bracketPairs) {faces : List Face}
    (h : Balanced opener closer faces) :
    Balanced opener closer (enclosure.front ++ (faces ++ [enclosure.back])) := by
  cases enclosure with
  | brackets => exact balanced_brackets hpair (by decide) h
  | dictionary isQualified => exact balanced_genericFaces isQualified (by decide) hpair h

theorem MapEnclosure.balanced_separator (enclosure : MapEnclosure) {opener closer : String}
    (hpair : (opener, closer) ∈ bracketPairs) : Balanced opener closer [enclosure.separator] := by
  cases enclosure <;> exact balanced_symbol (by decide) hpair

/-- The brackets of a type are balanced. -/
theorem TypeTree.balanced_faces (tree : TypeTree) {opener closer : String}
    (hpair : (opener, closer) ∈ bracketPairs) : Balanced opener closer tree.faces := by
  induction tree with
  | name name isDotted marks =>
    exact (balanced_dottedFaces isDotted hpair).append (balanced_markFaces marks hpair)
  | enclosed enclosure inner marks ih =>
    have hwhole := (enclosure.balanced hpair ih).append (balanced_markFaces marks hpair)
    simpa [faces] using hwhole
  | map enclosure key value marks ihkey ihvalue =>
    have hinside := ihkey.append ((enclosure.balanced_separator hpair).append ihvalue)
    have hwhole := (enclosure.balanced hpair hinside).append (balanced_markFaces marks hpair)
    simpa [faces] using hwhole

/-! ## How far a declaration reads a type -/

theorem readTypeCore_parenthesized {tokens rest : List Token} {faces : List Face}
    (htokens : tokens.map Token.face = .symbol "(" :: (faces ++ [.symbol ")"]))
    (hfaces : Balanced "(" ")" faces) : readTypeCore (tokens ++ rest) = .ok (tokens, rest) := by
  obtain ⟨firstAt, inner, lastAt, rfl, hinner⟩ := map_face_bracketed htokens
  rw [← hinner] at hfaces
  have hgroup : readGroup "(" ")" ((Face.symbol "(").token firstAt ::
      (inner ++ (Face.symbol ")").token lastAt :: rest)) = .ok (⟨_, inner, _⟩, rest) :=
    readGroup_balanced rfl rfl rfl hfaces rest
  rw [List.cons_append, List.append_assoc, List.singleton_append, readTypeCore,
    if_neg (by rintro ⟨⟩), if_pos (by rfl)]
  exact bind_eq_ok_iff.mpr ⟨_, hgroup, rfl⟩

theorem splitMember?_of_endsTypeName {tokens : List Token}
    (h : tokens.head?.all endsTypeName = true) : splitMember? tokens = none := by
  unfold splitMember?
  split
  · next dot part rest =>
    have hends : endsTypeName dot = true := h
    rw [(endsTypeName_eq hends).1, Bool.false_and, if_neg (by simp)]
  · rfl

/-- The arguments of a generic type are read up to the bracket that closes them. -/
theorem readTypePath_arguments {tokens rest : List Token} {faces : List Face}
    (htokens : tokens.map Token.face = .symbol "<" :: (faces ++ [.symbol ">"]))
    (hfaces : Balanced "<" ">" faces) (hrest : rest.head?.all endsTypeName = true) :
    readTypePath (tokens ++ rest) = .ok (tokens, rest) := by
  obtain ⟨firstAt, inner, lastAt, rfl, hinner⟩ := map_face_bracketed htokens
  rw [← hinner] at hfaces
  have hgroup : readGroup "<" ">" ((Face.symbol "<").token firstAt ::
      (inner ++ (Face.symbol ">").token lastAt :: rest)) = .ok (⟨_, inner, _⟩, rest) :=
    readGroup_balanced rfl rfl rfl hfaces rest
  have harguments : readTypeArguments ((Face.symbol "<").token firstAt ::
      (inner ++ (Face.symbol ">").token lastAt :: rest)) =
        .ok ((Face.symbol "<").token firstAt :: (inner ++ [(Face.symbol ">").token lastAt]),
          rest) := by
    rw [readTypeArguments, if_pos (by rfl)]
    exact bind_eq_ok_iff.mpr ⟨_, hgroup, rfl⟩
  rw [List.cons_append, List.append_assoc, List.singleton_append, readTypePath_eq]
  refine bind_eq_ok_iff.mpr ⟨_, harguments, ?_⟩
  dsimp only
  rw [splitMember?_of_endsTypeName hrest]
  rfl

theorem readTypeCore_generic {isQualified : Bool} {name : String}
    (hname : isIdentifier name = true) {tokens rest : List Token} {faces : List Face}
    (htokens : tokens.map Token.face = genericFaces isQualified name ++ (faces ++ [.symbol ">"]))
    (hfaces : Balanced "<" ">" faces) (hrest : rest.head?.all endsTypeName = true) :
    readTypeCore (tokens ++ rest) = .ok (tokens, rest) := by
  cases isQualified with
  | false =>
    obtain ⟨at_, group, rfl, hgroup⟩ := map_face_eq_cons.mp htokens
    exact readTypeCore_word hname (readTypePath_arguments hgroup hfaces hrest)
  | true =>
    obtain ⟨at_, tail, rfl, hdot⟩ := map_face_eq_cons.mp htokens
    obtain ⟨dotAt, tail, rfl, hword⟩ := map_face_eq_cons.mp hdot
    obtain ⟨nameAt, group, rfl, hgroup⟩ := map_face_eq_cons.mp hword
    have hpath : readTypePath ((Face.symbol ".").token dotAt :: (Face.word name).token nameAt ::
        (group ++ rest)) =
          .ok ((Face.symbol ".").token dotAt :: (Face.word name).token nameAt :: group, rest) := by
      rw [readTypePath_eq]
      refine bind_eq_ok_iff.mpr ⟨([], _), rfl, ?_⟩
      exact bind_eq_ok_iff.mpr ⟨_, readTypePath_arguments hgroup hfaces hrest, rfl⟩
    exact readTypeCore_word (by decide) hpath

/-- The core of a type is all of it but the marks behind it. -/
theorem readTypeCore_tree (tree : TypeTree) {tokens rest : List Token}
    (htokens : tokens.map Token.face = (tree.withMarks []).faces)
    (hrest : rest.head?.all endsTypeName = true) :
    readTypeCore (tokens ++ rest) = .ok (tokens, rest) := by
  cases tree with
  | name name isDotted marks =>
    obtain ⟨part, parts, hparts⟩ := List.exists_cons_of_ne_nil (List.splitOn_ne_nil '.' name.toList)
    have hpart := isDotted part (by rw [hparts]; exact List.mem_cons_self)
    obtain ⟨later, hlater⟩ := dottedFaces_cons part parts
    have hfaces : tokens.map Token.face = dottedFaces (part :: parts) := by
      simpa [TypeTree.withMarks, TypeTree.faces, markFaces, hparts] using htokens
    obtain ⟨at_, tail, rfl, htail⟩ := map_face_eq_cons.mp (hfaces.trans hlater)
    exact readTypeCore_word (isIdentifier_ofList hpart) (readTypePath_dotted hfaces hrest)
  | enclosed enclosure inner marks =>
    cases enclosure with
    | brackets => exact readTypeCore_bracketed htokens (inner.balanced_faces (by decide))
    | parentheses => exact readTypeCore_parenthesized htokens (inner.balanced_faces (by decide))
    | generic wrapper isQualified =>
      exact readTypeCore_generic wrapper.isIdentifier_name htokens
        (inner.balanced_faces (by decide)) hrest
  | map enclosure key value marks =>
    have hinside {opener closer : String} (hpair : (opener, closer) ∈ bracketPairs) :
        Balanced opener closer (key.faces ++ ([enclosure.separator] ++ value.faces)) :=
      (key.balanced_faces hpair).append
        ((enclosure.balanced_separator hpair).append (value.balanced_faces hpair))
    have hfaces : tokens.map Token.face = enclosure.front ++
        ((key.faces ++ ([enclosure.separator] ++ value.faces)) ++ [enclosure.back]) := by
      simpa [TypeTree.withMarks, TypeTree.faces, markFaces] using htokens
    cases enclosure with
    | brackets => exact readTypeCore_bracketed hfaces (hinside (by decide))
    | dictionary isQualified =>
      exact readTypeCore_generic (by decide) hfaces (hinside (by decide)) hrest

def Face.startsNoType (face : Face) : Bool :=
  !startsType (face.token .start)

theorem startsType_token (face : Face) (at_ : Position) :
    startsType (face.token at_) = !face.startsNoType := by
  rw [Face.startsNoType, Bool.not_not]
  rfl

/-- Is the face neither the start of a type nor the colon behind a label? -/
def Face.followsName (face : Face) : Bool :=
  face.startsNoType && !face.isWord ":"

theorem Face.followsName_eq {face : Face} (h : face.followsName = true) (at_ : Position) :
    startsType (face.token at_) = false ∧ (face.token at_).isWord ":" = false := by
  simp only [followsName, Bool.and_eq_true, Bool.not_eq_true'] at h
  exact ⟨by rw [startsType_token, h.1, Bool.not_true], h.2⟩

theorem head?_markFaces (marks : List Mark) :
    (markFaces marks).head?.all Face.followsName = true := by
  cases marks with
  | nil => rfl
  | cons mark marks => cases mark <;> rfl

/-- A type starts with a bracket, or with a name behind which neither a type nor a colon
stands. -/
theorem TypeTree.exists_faces_eq_cons (tree : TypeTree) :
    ∃ face more, tree.faces = face :: more ∧ (face = .symbol "[" ∨ face = .symbol "(" ∨
      ∃ name, isIdentifier name = true ∧ face = .word name ∧
        more.head?.all Face.followsName = true) := by
  have hgeneric : ∀ {isQualified : Bool} {name : String}, isIdentifier name = true →
      ∀ more : List Face, ∃ face later, genericFaces isQualified name ++ more = face :: later ∧
        (face = .symbol "[" ∨ face = .symbol "(" ∨ ∃ name, isIdentifier name = true ∧
          face = .word name ∧ later.head?.all Face.followsName = true) := by
    intro isQualified name hname more
    cases isQualified with
    | false => exact ⟨_, _, rfl, .inr (.inr ⟨name, hname, rfl, rfl⟩)⟩
    | true => exact ⟨_, _, rfl, .inr (.inr ⟨"Swift", by decide, rfl, rfl⟩)⟩
  cases tree with
  | name name isDotted marks =>
    obtain ⟨part, parts, hparts⟩ := List.exists_cons_of_ne_nil (List.splitOn_ne_nil '.' name.toList)
    have hpart := isIdentifier_ofList (isDotted part (by rw [hparts]; exact List.mem_cons_self))
    rw [faces, hparts]
    cases parts with
    | nil => exact ⟨_, _, rfl, .inr (.inr ⟨_, hpart, rfl, head?_markFaces marks⟩)⟩
    | cons next parts => exact ⟨_, _, rfl, .inr (.inr ⟨_, hpart, rfl, rfl⟩)⟩
  | enclosed enclosure inner marks =>
    cases enclosure with
    | brackets => exact ⟨_, _, rfl, .inl rfl⟩
    | parentheses => exact ⟨_, _, rfl, .inr (.inl rfl)⟩
    | generic wrapper isQualified => exact hgeneric wrapper.isIdentifier_name _
  | map enclosure key value marks =>
    cases enclosure with
    | brackets => exact ⟨_, _, rfl, .inl rfl⟩
    | dictionary isQualified => exact hgeneric (by decide) _

/-- Is the type more than a word that may stand in front of types, or does no type come next? -/
def TypeTree.StartsPlainly (tree : TypeTree) (rest : List Token) : Prop :=
  (∀ word ∈ typePrefixes, tree.faces ≠ [.word word]) ∨ rest.head?.any startsType = false

/-- No word in front of a type is taken for one that stands before it. -/
theorem splitQualifiers_tree (tree : TypeTree) {tokens rest : List Token}
    (htokens : tokens.map Token.face = tree.faces) (hstart : tree.StartsPlainly rest) :
    splitQualifiers (tokens ++ rest) = ([], tokens ++ rest) := by
  obtain ⟨face, more, hfaces, hface⟩ := tree.exists_faces_eq_cons
  obtain ⟨at_, later, rfl, rfl⟩ := map_face_eq_cons.mp (htokens.trans hfaces)
  rw [List.cons_append]
  rcases hface with rfl | rfl | ⟨name, hname, rfl, hmore⟩
  · exact splitQualifiers_bracket at_ (later ++ rest)
  · cases later ++ rest with
    | nil => rfl
    | cons next later => rfl
  · refine splitQualifiers_word at_ hname ?_
    cases later with
    | nil => exact hstart.imp_left fun hplain hmem => hplain name hmem hfaces
    | cons next later =>
      have hnext : next.face.followsName = true := hmore
      exact .inr (Face.followsName_eq hnext next.position).1

/-- What is neither a mark nor an effect is not taken in with a type. -/
theorem splitTypeMarks_nil {tokens : List Token}
    (h : tokens.head?.any (fun token => isTypeMark token || isEffect token) = false) :
    splitTypeMarks tokens = ([], tokens) := by
  cases tokens with
  | nil => rfl
  | cons token rest =>
    have hneither : isTypeMark token = false ∧ isEffect token = false := by simpa using h
    simp [splitTypeMarks, hneither]

theorem splitTypeMarks_marks {marks : List Mark} (hmarks : ∀ mark ∈ marks, mark ≠ .double)
    {tokens rest : List Token} (htokens : tokens.map Token.face = markFaces marks)
    (hrest : rest.head?.any (fun token => isTypeMark token || isEffect token) = false) :
    splitTypeMarks (tokens ++ rest) = (tokens, rest) := by
  have hall : ∀ token ∈ tokens, isTypeMark token = true := by
    intro token htoken
    have hface : token.face ∈ markFaces marks := htokens ▸ List.mem_map_of_mem htoken
    obtain ⟨mark, hmark, hsame⟩ := List.mem_map.mp hface
    have htype : isTypeMark ((Face.symbol mark.text).token token.position) = true := by
      cases mark with
      | question => rfl
      | exclamation => rfl
      | double => exact absurd rfl (hmarks _ hmark)
    rw [hsame] at htype
    exact htype
  have hend := splitTypeMarks_nil hrest
  simp only [splitTypeMarks, Prod.mk.injEq, List.append_eq_nil_iff] at hend
  simp only [splitTypeMarks, List.takeWhile_append_of_pos hall, List.dropWhile_append_of_pos hall,
    hend, List.append_nil]

/-- The kept part of a type is read as one operand. -/
theorem readTypeOperand_kept (tree : TypeTree) {tokens rest : List Token}
    (htokens : tokens.map Token.face = tree.kept.faces)
    (hpath : rest.head?.all endsTypeName = true)
    (hrest : rest.head?.any (fun token => isTypeMark token || isEffect token) = false)
    (hstart : tree.kept.StartsPlainly rest) :
    readTypeOperand (tokens ++ rest) = .ok (tokens, rest) := by
  have hmarks : ∀ mark ∈ tree.marks.takeWhile (· != .double), mark ≠ .double := by
    intro mark hmark
    simpa using List.mem_takeWhile_imp hmark
  rw [readTypeOperand, splitQualifiers_tree tree.kept htokens hstart]
  rw [TypeTree.kept, TypeTree.faces_withMarks] at htokens
  obtain ⟨core, markTokens, rfl, hcore, hmarkTokens⟩ := map_face_eq_append.mp htokens
  have hends : (markTokens ++ rest).head?.all endsTypeName = true := by
    cases hkept : tree.marks.takeWhile (· != .double) with
    | nil =>
      rw [hkept] at hmarkTokens
      cases List.map_eq_nil_iff.mp hmarkTokens
      exact hpath
    | cons mark marks =>
      rw [hkept] at hmarkTokens
      obtain ⟨at_, later, rfl, -⟩ := map_face_eq_cons.mp hmarkTokens
      cases mark <;> rfl
  rw [List.append_assoc]
  refine bind_eq_ok_iff.mpr ⟨_, readTypeCore_tree tree hcore hends, ?_⟩
  dsimp only
  rw [splitTypeMarks_marks hmarks hmarkTokens hrest]
  rfl

/-- A declaration reads the kept part of a type. -/
theorem readTypeRun_kept (tree : TypeTree) {tokens rest : List Token}
    (htokens : tokens.map Token.face = tree.kept.faces) (hrest : rest.head?.all endsType = true)
    (hstart : tree.kept.StartsPlainly rest) :
    readTypeRun (tokens ++ rest) = .ok (tokens, rest) := by
  obtain ⟨hpath, hmarks, hoperator⟩ : rest.head?.all endsTypeName = true ∧
      rest.head?.any (fun token => isTypeMark token || isEffect token) = false ∧
      splitTypeOperator? rest = none := by
    cases rest with
    | nil => exact ⟨rfl, rfl, rfl⟩
    | cons token later =>
      obtain ⟨hmark, heffect, harrow, hand, hdot, hopen⟩ := endsType_eq hrest
      simp [endsTypeName, splitTypeOperator?, hmark, heffect, harrow, hand, hdot, hopen]
  rw [readTypeRun_eq]
  refine bind_eq_ok_iff.mpr ⟨_, readTypeOperand_kept tree htokens hpath hmarks hstart, ?_⟩
  dsimp only
  rw [hoperator]
  rfl

end WireSchema.Swift
