import WireSchema.Proofs.Swift.TypeTree

/-!
# The grammar of types

The tokens of a tree are read as the meaning of the tree. With the other direction this
says which texts are types: those whose tokens are the tokens of a tree. The names in what
such a text means are dotted, and no optional in it stands directly in another.
-/

namespace WireSchema.Swift

open Outcome (bind_eq_ok_iff)
open Text (isIdentChars isIdentifier)

/-! ## From trees to tokens -/

/-- Is the token one that a type with all its marks ends before? -/
def endsTree (token : Token) : Bool :=
  endsTypeName token && !isOptionalMark token && !token.isWord "->"

theorem all_endsTypeName_of_marks {marks : List Mark} {tokens rest : List Token}
    (htokens : tokens.map Token.face = markFaces marks) (hrest : rest.head?.all endsTree = true) :
    (tokens ++ rest).head?.all endsTypeName = true ∧ wordNext (tokens ++ rest) "->" = false := by
  cases marks with
  | nil =>
    cases List.map_eq_nil_iff.mp htokens
    cases rest with
    | nil => exact ⟨rfl, rfl⟩
    | cons token later =>
      have hends : endsTree token = true := hrest
      simp only [endsTree, Bool.and_eq_true, Bool.not_eq_true'] at hends
      exact ⟨hends.1.1, hends.2⟩
  | cons mark marks =>
    obtain ⟨at_, later, rfl, -⟩ := map_face_eq_cons.mp htokens
    cases mark <;> exact ⟨rfl, rfl⟩

theorem readTypeTokens_parentheses {tokens rest : List Token} {t : TypeExpr}
    (openAt closeAt : Position)
    (h : readTypeTokens tokens = .ok (t, (Face.symbol ")").token closeAt :: rest))
    (harrow : wordNext rest "->" = false) :
    readTypeTokens ((Face.symbol "(").token openAt :: tokens) = .ok (closeType t rest) := by
  rw [readTypeTokens_eq]
  dsimp only
  rw [if_neg (by rintro ⟨⟩), if_pos (by rfl)]
  refine bind_eq_ok_iff.mpr ⟨_, h, ?_⟩
  refine bind_eq_ok_iff.mpr ⟨rest, expectWord_token _ _ _ _ rfl, ?_⟩
  rw [harrow]
  rfl

theorem qualifiedName_open (name : String) (at_ : Position) (inside : List Token) :
    qualifiedName name ((Face.symbol "<").token at_ :: inside) =
      (name, (Face.symbol "<").token at_ :: inside) := by
  cases inside with
  | nil => rfl
  | cons next inside => rfl

theorem localName_identifier {name : String} (h : isIdentifier name = true) :
    localName name = name := by
  refine localName_of_unqualified ?_
  rintro ⟨later, hlater⟩
  have hdot : '.' ∈ name.toList := by simp [← hlater]
  exact absurd (isIdentRest_of_mem h '.' hdot) (by decide)

theorem localName_qualified (name : String) : localName ("Swift." ++ name) = name := by
  rw [localName, String.toList_append, Text.stripStart?_append, Option.getD_some,
    String.ofList_toList]

/-- The name of a generic type is read up to its arguments. -/
theorem readTypeTokens_word_open {name meant : String} (hname : isIdentifier name = true)
    (at_ openAt closeAt : Position) {after inside rest : List Token}
    (hqualified : qualifiedName name after =
      (meant, (Face.symbol "<").token openAt :: inside))
    {arguments : List TypeExpr} {t : TypeExpr}
    (harguments : readArguments inside =
      .ok (arguments, (Face.symbol ">").token closeAt :: rest))
    (ht : namedType (localName meant) arguments = .ok t) :
    readTypeTokens ((Face.word name).token at_ :: after) = .ok (closeType t rest) := by
  have hopen : passWord? "<" ((Face.symbol "<").token openAt :: inside) = some inside := rfl
  rw [readTypeTokens_name hname, hqualified]
  dsimp only
  rw [hopen]
  refine bind_eq_ok_iff.mpr ⟨_, harguments, ?_⟩
  refine bind_eq_ok_iff.mpr ⟨rest, expectWord_token _ _ _ _ rfl, ?_⟩
  exact bind_eq_ok_iff.mpr ⟨t, ht, rfl⟩

theorem readTypeTokens_generic {isQualified : Bool} {name : String}
    (hname : isIdentifier name = true) {tokens inside rest : List Token}
    (htokens : tokens.map Token.face = genericFaces isQualified name) (closeAt : Position)
    {arguments : List TypeExpr} {t : TypeExpr}
    (harguments : readArguments inside =
      .ok (arguments, (Face.symbol ">").token closeAt :: rest))
    (ht : namedType name arguments = .ok t) :
    readTypeTokens (tokens ++ inside) = .ok (closeType t rest) := by
  cases isQualified with
  | false =>
    obtain ⟨at_, tail, rfl, hopen⟩ := map_face_eq_cons.mp htokens
    obtain ⟨openAt, tail, rfl, hnil⟩ := map_face_eq_cons.mp hopen
    cases List.map_eq_nil_iff.mp hnil
    refine readTypeTokens_word_open hname at_ openAt closeAt (qualifiedName_open _ _ _)
      harguments ?_
    rw [localName_identifier hname]
    exact ht
  | true =>
    obtain ⟨at_, tail, rfl, hdot⟩ := map_face_eq_cons.mp htokens
    obtain ⟨dotAt, tail, rfl, hword⟩ := map_face_eq_cons.mp hdot
    obtain ⟨nameAt, tail, rfl, hopen⟩ := map_face_eq_cons.mp hword
    obtain ⟨openAt, tail, rfl, hnil⟩ := map_face_eq_cons.mp hopen
    cases List.map_eq_nil_iff.mp hnil
    have hpath : qualifiedName "Swift" ((Face.symbol ".").token dotAt ::
        (Face.word name).token nameAt :: (Face.symbol "<").token openAt :: inside) =
          ("Swift." ++ name, (Face.symbol "<").token openAt :: inside) := by
      rw [qualifiedName, if_pos (by rfl)]
      exact qualifiedName_open _ _ _
    refine readTypeTokens_word_open (by decide) at_ openAt closeAt hpath harguments ?_
    rw [localName_qualified]
    exact ht

theorem readArguments_of_singleton {tokens rest : List Token} {t : TypeExpr}
    (h : readTypeTokens tokens = .ok (t, rest)) (hcomma : passWord? "," rest = none) :
    readArguments tokens = .ok ([t], rest) := by
  rw [readArguments_eq]
  refine bind_eq_ok_iff.mpr ⟨_, h, ?_⟩
  dsimp only
  rw [hcomma]
  rfl

theorem readArguments_of_pair {tokens inside rest : List Token} {key value : TypeExpr}
    (commaAt : Position)
    (hkey : readTypeTokens tokens = .ok (key, (Face.symbol ",").token commaAt :: inside))
    (hvalue : readTypeTokens inside = .ok (value, rest)) (hcomma : passWord? "," rest = none) :
    readArguments tokens = .ok ([key, value], rest) := by
  rw [readArguments_eq]
  refine bind_eq_ok_iff.mpr ⟨_, hkey, ?_⟩
  exact bind_eq_ok_iff.mpr ⟨_, readArguments_of_singleton hvalue hcomma, rfl⟩

theorem Wrapper.namedType_name (wrapper : Wrapper) (t : TypeExpr) :
    namedType wrapper.name [t] = .ok (wrapper.meaning t) := by
  cases wrapper <;> rfl

/-- A type in an enclosure is read if the type is. -/
theorem readTypeTokens_enclosed (enclosure : Enclosure) {front tokens rest : List Token}
    {t : TypeExpr} (closeAt : Position) (hfront : front.map Token.face = enclosure.front)
    (h : readTypeTokens tokens = .ok (t, enclosure.back.token closeAt :: rest))
    (harrow : wordNext rest "->" = false) :
    readTypeTokens (front ++ tokens) = .ok (closeType (enclosure.meaning t) rest) := by
  cases enclosure with
  | brackets =>
    obtain ⟨openAt, tail, rfl, hnil⟩ := map_face_eq_cons.mp hfront
    cases List.map_eq_nil_iff.mp hnil
    exact readTypeTokens_list openAt closeAt h
  | parentheses =>
    obtain ⟨openAt, tail, rfl, hnil⟩ := map_face_eq_cons.mp hfront
    cases List.map_eq_nil_iff.mp hnil
    exact readTypeTokens_parentheses openAt closeAt h harrow
  | generic wrapper isQualified =>
    exact readTypeTokens_generic wrapper.isIdentifier_name hfront closeAt
      (readArguments_of_singleton h rfl) (wrapper.namedType_name t)

theorem readTypeTokens_mapEnclosed (enclosure : MapEnclosure)
    {front tokens values rest : List Token} {key value : TypeExpr} (betweenAt closeAt : Position)
    (hfront : front.map Token.face = enclosure.front)
    (hkey : readTypeTokens tokens = .ok (key, enclosure.separator.token betweenAt :: values))
    (hvalue : readTypeTokens values = .ok (value, enclosure.back.token closeAt :: rest)) :
    readTypeTokens (front ++ tokens) = .ok (closeType (.map key value) rest) := by
  cases enclosure with
  | brackets =>
    obtain ⟨openAt, tail, rfl, hnil⟩ := map_face_eq_cons.mp hfront
    cases List.map_eq_nil_iff.mp hnil
    exact readTypeTokens_map openAt betweenAt closeAt hkey hvalue
  | dictionary isQualified =>
    exact readTypeTokens_generic (by decide) hfront closeAt
      (readArguments_of_pair betweenAt hkey hvalue rfl) rfl

/-- The marks behind the rest of a type are read together, whatever that is. -/
theorem closeType_of_endsTree {marks : List Mark} {tokens rest : List Token} (base : TypeExpr)
    (htokens : tokens.map Token.face = markFaces marks) (hrest : rest.head?.all endsTree = true) :
    closeType base (tokens ++ rest) = (closeMarks marks base, rest) := by
  refine closeType_marks base htokens ?_
  cases rest with
  | nil => rfl
  | cons token later =>
    have hends : endsTree token = true := hrest
    simp only [endsTree, Bool.and_eq_true, Bool.not_eq_true'] at hends
    exact hends.1.2

/-- The tokens of a tree are read as its meaning. -/
theorem readTypeTokens_tree (tree : TypeTree) {tokens rest : List Token}
    (htokens : tokens.map Token.face = tree.faces) (hrest : rest.head?.all endsTree = true) :
    readTypeTokens (tokens ++ rest) = .ok (tree.meaning, rest) := by
  induction tree generalizing tokens rest with
  | name name isDotted marks =>
    obtain ⟨nameTokens, markTokens, rfl, hname, hmarks⟩ := map_face_eq_append.mp htokens
    have hends := (all_endsTypeName_of_marks hmarks hrest).1
    rw [List.append_assoc, readTypeTokens_dotted isDotted hname hends,
      closeType_of_endsTree _ hmarks hrest]
    rfl
  | enclosed enclosure inner marks ih =>
    obtain ⟨front, tail, rfl, hfront, hinside⟩ := map_face_eq_append.mp htokens
    obtain ⟨innerTokens, tail, rfl, hinner, hback⟩ := map_face_eq_append.mp hinside
    obtain ⟨closeAt, markTokens, rfl, hmarks⟩ := map_face_eq_cons.mp hback
    have harrow := (all_endsTypeName_of_marks hmarks hrest).2
    have hends : (enclosure.back.token closeAt :: (markTokens ++ rest)).head?.all endsTree =
        true := by
      cases enclosure <;> rfl
    have hread := readTypeTokens_enclosed enclosure closeAt hfront (ih hinner hends) harrow
    rw [closeType_of_endsTree _ hmarks hrest] at hread
    simp only [List.append_assoc, List.cons_append]
    exact hread
  | map enclosure key value marks ihkey ihvalue =>
    obtain ⟨front, tail, rfl, hfront, hinside⟩ := map_face_eq_append.mp htokens
    obtain ⟨keyTokens, tail, rfl, hkey, hbetween⟩ := map_face_eq_append.mp hinside
    obtain ⟨betweenAt, tail, rfl, hlater⟩ := map_face_eq_cons.mp hbetween
    obtain ⟨valueTokens, tail, rfl, hvalue, hback⟩ := map_face_eq_append.mp hlater
    obtain ⟨closeAt, markTokens, rfl, hmarks⟩ := map_face_eq_cons.mp hback
    have hends : (enclosure.back.token closeAt :: (markTokens ++ rest)).head?.all endsTree =
        true := by
      cases enclosure <;> rfl
    have hvalue' := ihvalue hvalue hends
    have hbetween' : (enclosure.separator.token betweenAt :: (valueTokens ++
        enclosure.back.token closeAt :: (markTokens ++ rest))).head?.all endsTree = true := by
      cases enclosure <;> rfl
    have hread := readTypeTokens_mapEnclosed enclosure betweenAt closeAt hfront
      (ihkey hkey hbetween') hvalue'
    rw [closeType_of_endsTree _ hmarks hrest] at hread
    simp only [List.append_assoc, List.cons_append]
    exact hread

/-! ## Texts -/

theorem lexes_of_tokenize {text : String} {stream : TokenStream}
    (h : tokenize text = .ok stream) :
    Lexes text.toList (stream.tokens.map Token.face) := by
  unfold tokenize at h
  dsimp only at h
  split at h
  · next hstray =>
    cases h
    exact ⟨List.isEmpty_iff.mp hstray, (map_face_placeLexemes _ _).symm⟩
  · cases h

/-- A text is read as a type exactly if its tokens are those of a tree, and the type is what
the tree means. -/
theorem readType_eq_ok_iff_exists_tree {source : String} {t : TypeExpr} :
    readType source = .ok t ↔ ∃ tree : TypeTree, Lexes source.toList tree.faces ∧ tree.meaning = t := by
  constructor
  · intro h
    unfold readType at h
    split at h
    · cases h
    · next stream hstream =>
      split at h
      · cases h
      · next value hvalue =>
        cases h
        obtain ⟨tree, ⟨run, hrun, hfaces⟩, hmeaning⟩ :=
          exists_tree_of_readTypeTokens (tokenize_isLexical hstream) hvalue
        rw [List.append_nil] at hrun
        refine ⟨tree, ?_, hmeaning⟩
        rw [← hfaces, hrun]
        exact lexes_of_tokenize hstream
      · cases h
  · rintro ⟨tree, hlexes, rfl⟩
    obtain ⟨stream, hstream, hfaces⟩ := tokenize_of_lexes hlexes
    have hread : readTypeTokens (stream.tokens ++ []) = .ok (tree.meaning, []) :=
      readTypeTokens_tree tree hfaces rfl
    rw [List.append_nil] at hread
    simp only [readType, hstream, hread]

/-! ## Types read from a source -/

theorem nameMeaning_isWritable {name : String} (h : IsDotted name.toList) :
    IsWritable (nameMeaning name) := by
  unfold nameMeaning
  cases primitiveOf? (localName name) with
  | none => exact localName_isDotted h
  | some p => trivial

theorem closeMarks_isWritable (marks : List Mark) {base : TypeExpr} (h : IsWritable base) :
    IsWritable (closeMarks marks base) := by
  unfold closeMarks
  split
  · exact h
  · exact asOptional_isWritable h

theorem Enclosure.isWritable_meaning (enclosure : Enclosure) {t : TypeExpr} (h : IsWritable t) :
    IsWritable (enclosure.meaning t) := by
  cases enclosure with
  | brackets => exact h
  | parentheses => exact h
  | generic wrapper isQualified =>
    cases wrapper with
    | array => exact h
    | optional => exact asOptional_isWritable h

theorem TypeTree.isWritable_base (tree : TypeTree) : IsWritable tree.base := by
  induction tree with
  | name name isDotted marks => exact nameMeaning_isWritable isDotted
  | enclosed enclosure inner marks ih =>
    exact enclosure.isWritable_meaning (closeMarks_isWritable inner.marks ih)
  | map enclosure key value marks ihkey ihvalue =>
    exact ⟨closeMarks_isWritable key.marks ihkey, closeMarks_isWritable value.marks ihvalue⟩

/-- What is read from a source can be written. -/
theorem readType_isWritable {source : String} {t : TypeExpr} (h : readType source = .ok t) :
    IsWritable t := by
  obtain ⟨tree, -, rfl⟩ := readType_eq_ok_iff_exists_tree.mp h
  exact closeMarks_isWritable tree.marks tree.isWritable_base

/-- The text of a type that is read from a source denotes a type. -/
theorem parse_text_of_readType {source : String} {t : TypeExpr} (h : readType source = .ok t) :
    TypeExpr.parse t.text = .ok t.reread :=
  TypeExpr.parse_text_of_isSpelled (readType_isWritable h).isSpelled

end WireSchema.Swift
