import WireSchema.Proofs.Swift.DeclaredText

/-!
# Types as code is written with them

A writable type is written with brackets and single marks only. Its tree has the faces and
the characters of its text and means what its text means, so whatever holds of every tree
holds of the types that code is written with: the parser reads such a type up to its end,
keeps it as it was written, and reads the text of a plain type as the type.
-/

namespace WireSchema.Swift

/-! ## The tree of a writable type -/

/-- The tree that the text of a writable type spells. -/
def typeTree : (t : TypeExpr) → IsWritable t → TypeTree
  | .primitive p, _ =>
    .name (primitiveText p) (isDotted_of_isIdentChars (isIdentifier_primitiveText p)) []
  | .list t, h => .enclosed .brackets (typeTree t h) []
  | .map key value, h => .map .brackets (typeTree key h.1) (typeTree value h.2) []
  | .optional t, h => (typeTree t h.1).withMarks [.question]
  | .custom name, h => .name name h []

theorem marks_typeTree {t : TypeExpr} (h : IsWritable t) :
    (typeTree t h).marks = if t.isOptional then [.question] else [] := by
  cases t with
  | optional t => exact TypeTree.marks_withMarks _ _
  | primitive | list | map | custom => rfl

/-- All of a writable type is kept. -/
theorem kept_typeTree {t : TypeExpr} (h : IsWritable t) : (typeTree t h).kept = typeTree t h := by
  have hmarks : (typeTree t h).marks.takeWhile (· != .double) = (typeTree t h).marks := by
    rw [marks_typeTree]
    cases t.isOptional <;> rfl
  rw [TypeTree.kept, hmarks, TypeTree.withMarks_marks]

/-- What an optional is made of stands without marks. -/
theorem marks_typeTree_eq_nil {t : TypeExpr} (h : IsWritable t) (hopt : t.isOptional = false) :
    (typeTree t h).marks = [] := by
  rw [marks_typeTree, hopt]
  rfl

theorem withMarks_typeTree {t : TypeExpr} (h : IsWritable t) (hopt : t.isOptional = false) :
    (typeTree t h).withMarks [] = typeTree t h := by
  rw [← marks_typeTree_eq_nil h hopt, TypeTree.withMarks_marks]

theorem faces_typeTree {t : TypeExpr} (h : IsWritable t) : (typeTree t h).faces = typeFaces t := by
  induction t with
  | primitive p =>
    have hparts : (primitiveText p).toList.splitOn '.' = [(primitiveText p).toList] :=
      splitOn_of_isIdentChars (isIdentifier_primitiveText p)
    simp [typeTree, TypeTree.faces, markFaces, hparts, dottedFaces, typeFaces]
  | list t ih =>
    have hinner : (typeTree t h).faces = typeFaces t := ih h
    simp [typeTree, TypeTree.faces, Enclosure.front, Enclosure.back, markFaces, typeFaces, hinner]
  | map key value ihkey ihvalue =>
    simp [typeTree, TypeTree.faces, MapEnclosure.front, MapEnclosure.separator, MapEnclosure.back,
      markFaces, typeFaces, ihkey h.1, ihvalue h.2]
  | optional t ih =>
    rw [typeTree, TypeTree.faces_withMarks, withMarks_typeTree h.1 h.2, ih h.1]
    rfl
  | custom name => simp [typeTree, TypeTree.faces, markFaces, typeFaces]

theorem TypeTree.chars_withMarks (tree : TypeTree) (marks : List Mark) :
    (tree.withMarks marks).chars = (tree.withMarks []).chars ++ textChars (markFaces marks) := by
  cases tree <;> simp [withMarks, chars, textChars, markFaces]

theorem chars_typeTree {t : TypeExpr} (h : IsWritable t) :
    (typeTree t h).chars = (typeText t).toList := by
  induction t with
  | primitive p => simp [typeTree, TypeTree.chars, textChars, markFaces, typeText]
  | list t ih =>
    have hinner : (typeTree t h).chars = (typeText t).toList := ih h
    simp [typeTree, TypeTree.chars, Enclosure.front, Enclosure.back, textChars, markFaces,
      Face.symbol, typeText, hinner]
  | map key value ihkey ihvalue =>
    simp [typeTree, TypeTree.chars, MapEnclosure.front, MapEnclosure.separator, MapEnclosure.back,
      textChars, markFaces, Face.symbol, typeText, ihkey h.1, ihvalue h.2]
  | optional t ih =>
    rw [typeTree, TypeTree.chars_withMarks, withMarks_typeTree h.1 h.2, ih h.1,
      typeText_optional h.2, String.toList_append]
    rfl
  | custom name => simp [typeTree, TypeTree.chars, textChars, markFaces, typeText]

theorem meaning_typeTree {t : TypeExpr} (h : IsWritable t) :
    (typeTree t h).meaning = textMeaning t := by
  induction t with
  | primitive p => cases p <;> rfl
  | list t ih => exact congrArg TypeExpr.list (ih h)
  | map key value ihkey ihvalue => exact congrArg₂ TypeExpr.map (ihkey h.1) (ihvalue h.2)
  | optional t ih =>
    have hbase : (typeTree t h.1).base = textMeaning t := by
      rw [← ih h.1, TypeTree.meaning, marks_typeTree_eq_nil h.1 h.2]
      rfl
    have hopt : (textMeaning t).isOptional = false := by rw [isOptional_textMeaning, h.2]
    rw [typeTree, TypeTree.meaning, TypeTree.marks_withMarks, TypeTree.base_withMarks, hbase]
    exact TypeExpr.asOptional_of_not_isOptional hopt
  | custom name => rfl

/-! ## Reading -/

/-- Only a custom type is written as a word that may stand in front of types. -/
theorem eq_custom_of_typeFaces {t : TypeExpr} {word : String} (hword : word ∈ typePrefixes)
    (h : typeFaces t = [.word word]) : t = .custom word := by
  have hsymbol : ∀ {text : String}, Face.symbol text ≠ .word word := by
    rintro text ⟨⟩
  cases t with
  | primitive p =>
    have hnames : ∀ p, primitiveText p ∉ typePrefixes := by
      rintro ⟨⟩ <;> decide
    have htext : primitiveText p = word := congrArg Prod.snd (List.head_eq_of_cons_eq h)
    exact absurd (htext ▸ hword) (hnames p)
  | list t => exact absurd (List.head_eq_of_cons_eq h) hsymbol
  | map key value => exact absurd (List.head_eq_of_cons_eq h) hsymbol
  | optional t =>
    have hlast := congrArg List.getLast? h
    rw [typeFaces, List.getLast?_append, List.getLast?_singleton, Option.some_or] at hlast
    exact absurd (Option.some.inj hlast) hsymbol
  | custom name =>
    obtain ⟨part, parts, hparts⟩ := List.exists_cons_of_ne_nil (List.splitOn_ne_nil '.' name.toList)
    rw [typeFaces, hparts] at h
    cases parts with
    | nil =>
      have htext : String.ofList part = word := congrArg Prod.snd (List.head_eq_of_cons_eq h)
      have hname : ['.'].intercalate (name.toList.splitOn '.') = name.toList :=
        List.intercalate_splitOn '.'
      rw [hparts, List.intercalate_singleton] at hname
      rw [← htext, hname, String.ofList_toList]
    | cons next parts => cases (List.tail_eq_of_cons_eq h)

theorem startsPlainly_typeTree {t : TypeExpr} (h : IsWritable t) {rest : List Token}
    (hstart : StartsPlainly t rest) : (typeTree t h).kept.StartsPlainly rest := by
  refine hstart.imp_left fun hcustom word hword hfaces => ?_
  rw [kept_typeTree, faces_typeTree] at hfaces
  exact hcustom word (eq_custom_of_typeFaces hword hfaces) hword

theorem map_face_typeTree {t : TypeExpr} (h : IsWritable t) {tokens : List Token}
    (htokens : tokens.map Token.face = typeFaces t) :
    tokens.map Token.face = (typeTree t h).kept.faces := by
  rw [htokens, kept_typeTree, faces_typeTree]

/-- The brackets of a type are balanced. -/
theorem balanced_typeFaces {t : TypeExpr} (h : IsWritable t) {opener closer : String}
    (hpair : (opener, closer) ∈ bracketPairs) : Balanced opener closer (typeFaces t) := by
  rw [← faces_typeTree h]
  exact (typeTree t h).balanced_faces hpair

/-- A type is read up to its end. -/
theorem readTypeRun_typeFaces {t : TypeExpr} (h : IsWritable t) {tokens rest : List Token}
    (htokens : tokens.map Token.face = typeFaces t) (hrest : rest.head?.all endsType = true)
    (hstart : StartsPlainly t rest) : readTypeRun (tokens ++ rest) = .ok (tokens, rest) :=
  readTypeRun_kept (typeTree t h) (map_face_typeTree h htokens) hrest
    (startsPlainly_typeTree h hstart)

/-- The parser writes a type as it was written. -/
theorem typeRunChars_typeFaces {t : TypeExpr} (h : IsWritable t) {tokens rest : List Token}
    (htokens : tokens.map Token.face = typeFaces t)
    (hrest : rest.head?.any Token.isIdentifier = false) :
    typeRunChars (tokens ++ rest) = (typeText t).toList ++ typeRunChars rest := by
  rw [← chars_typeTree h]
  exact typeRunChars_tree _ (htokens.trans (faces_typeTree h).symm) hrest

/-- The parser reads a type up to its end and keeps its text. -/
theorem readTypeText_typeFaces {t : TypeExpr} (h : IsWritable t) {tokens rest : List Token}
    (htokens : tokens.map Token.face = typeFaces t) (hrest : rest.head?.all endsType = true)
    (hstart : StartsPlainly t rest) :
    readTypeText (tokens ++ rest) = .ok (typeText t, rest) := by
  have hread := readTypeText_kept (typeTree t h) (map_face_typeTree h htokens) hrest
    (startsPlainly_typeTree h hstart)
  rwa [kept_typeTree, chars_typeTree, String.ofList_toList] at hread

/-- The text of a writable type is read as what it means. -/
theorem readType_of_isWritable {t : TypeExpr} (h : IsWritable t) :
    readType (typeText t) = .ok (textMeaning t) := by
  have hread := (typeTree t h).readType_chars
  rwa [chars_typeTree, String.ofList_toList, meaning_typeTree] at hread

/-- The text of a plain type is read as the type. -/
theorem readType_typeText {t : TypeExpr} (h : IsPlain t) : readType (typeText t) = .ok t := by
  rw [readType_of_isWritable h.writable, textMeaning_of_isPlain h]

end WireSchema.Swift
