import WireSchema.Proofs.Swift.TypeText

/-!
# What the text of a type means

The text of a type means the type with every name replaced by what it means in Swift: a
basic type, or the name without the module that declares the basic types. The text of a
plain type means the type itself. A dotted name is read as what it means, and brackets are
read as a list or a map of what is read inside them.
-/

namespace WireSchema.Swift

open Outcome (bind_eq_ok_iff)
open Text (isIdentStart isIdentRest isIdentChars isIdentifier)

theorem passWord?_of_not_head {wanted : String} {tokens : List Token}
    (h : tokens.head?.all (fun token => !token.isWord wanted) = true) :
    passWord? wanted tokens = none := by
  cases tokens with
  | nil => rfl
  | cons token rest =>
    have hword : token.isWord wanted = false := by simpa using h
    rw [passWord?, hword]
    rfl

theorem endsTypeName_eq {token : Token} (h : endsTypeName token = true) :
    token.isWord "." = false ∧ token.isWord "<" = false := by
  simpa [endsTypeName] using h

theorem qualifiedName_of_endsTypeName (name : String) {rest : List Token}
    (hrest : rest.head?.all endsTypeName = true) : qualifiedName name rest = (name, rest) := by
  unfold qualifiedName
  split
  · next dot part later =>
    have hends : endsTypeName dot = true := hrest
    rw [(endsTypeName_eq hends).1, Bool.false_and, if_neg (by simp)]
  · rfl

theorem intercalate_eq_flatMap (part : List Char) (parts : List (List Char)) :
    ['.'].intercalate (part :: parts) = part ++ parts.flatMap ('.' :: ·) := by
  induction parts generalizing part with
  | nil => simp
  | cons next parts ih =>
    rw [List.intercalate_cons_cons, ih, List.flatMap_cons, List.append_assoc]
    rfl

theorem qualifiedName_dotted {part : List Char} {parts : List (List Char)} {at_ : Position}
    (acc : String) {tokens rest : List Token}
    (htokens : ((Face.word (String.ofList part)).token at_ :: tokens).map Token.face =
      dottedFaces (part :: parts))
    (hrest : rest.head?.all endsTypeName = true) :
    qualifiedName acc (tokens ++ rest) =
      (String.ofList (acc.toList ++ parts.flatMap ('.' :: ·)), rest) := by
  induction parts generalizing part at_ tokens acc with
  | nil =>
    cases List.map_eq_nil_iff.mp (List.cons.inj htokens).2
    rw [List.nil_append, qualifiedName_of_endsTypeName acc hrest]
    simp
  | cons next parts ih =>
    obtain ⟨dotAt, afterDot, rfl, htail⟩ := map_face_eq_cons.mp (List.cons.inj htokens).2
    obtain ⟨later, hlater⟩ := dottedFaces_cons next parts
    rw [hlater] at htail
    obtain ⟨partAt, tokens, rfl, hmore⟩ := map_face_eq_cons.mp htail
    have htokens' : ((Face.word (String.ofList next)).token partAt :: tokens).map Token.face =
        dottedFaces (next :: parts) := by
      rw [hlater, List.map_cons, hmore, Face.face_token]
    have hnext := ih (acc ++ "." ++ String.ofList next) htokens'
    rw [List.cons_append, List.cons_append, qualifiedName, if_pos (by rfl)]
    rw [Face.text_token, Face.word, hnext]
    simp

theorem localName_eq {name meant : String} (h : localName name = meant) :
    name = meant ∨ name = "Swift." ++ meant := by
  subst h
  unfold localName Text.stripStart?
  split
  · next hprefix =>
    obtain ⟨later, hlater⟩ := List.isPrefixOf_iff_prefix.mp hprefix
    right
    rw [← hlater, List.drop_left, Option.getD_some, ← String.toList_inj]
    simpa using hlater.symm
  · left
    simp

theorem localName_of_unqualified {name : String} (h : ¬ "Swift.".toList <+: name.toList) :
    localName name = name := by
  have hprefix : "Swift.".toList.isPrefixOf name.toList = false := by
    rw [Bool.eq_false_iff]
    exact fun hprefix => h (List.isPrefixOf_iff_prefix.mp hprefix)
  rw [localName, Text.stripStart?, hprefix]
  simp

def nameMeaning (name : String) : TypeExpr :=
  (primitiveOf? (localName name)).elim (.custom (localName name)) .primitive

def textMeaning : TypeExpr → TypeExpr
  | .primitive p => .primitive p
  | .list t => .list (textMeaning t)
  | .map key value => .map (textMeaning key) (textMeaning value)
  | .optional t => .optional (textMeaning t)
  | .custom name => nameMeaning name

theorem isOptional_nameMeaning (name : String) : (nameMeaning name).isOptional = false := by
  unfold nameMeaning
  cases primitiveOf? (localName name) <;> rfl

@[simp] theorem isOptional_textMeaning (t : TypeExpr) :
    (textMeaning t).isOptional = t.isOptional := by
  cases t with
  | custom name => exact isOptional_nameMeaning name
  | primitive | list | map | optional => rfl

theorem nameMeaning_of_isPlainName {name : String} (h : IsPlainName name) :
    nameMeaning name = .custom name := by
  rw [nameMeaning, localName_of_unqualified h.unqualified, h.noPrimitive]
  rfl

theorem textMeaning_of_isPlain {t : TypeExpr} (h : IsPlain t) : textMeaning t = t := by
  induction t with
  | primitive p => rfl
  | list t ih => rw [textMeaning, ih h]
  | map key value ihkey ihvalue => rw [textMeaning, ihkey h.1, ihvalue h.2]
  | optional t ih => rw [textMeaning, ih h.1]
  | custom name => exact nameMeaning_of_isPlainName h

/-- What starts with a name is read as a name with its parts, and with its arguments if there are
any. -/
theorem readTypeTokens_name {name : String} (hname : isIdentifier name = true) (at_ : Position)
    (after : List Token) :
    readTypeTokens ((Face.word name).token at_ :: after) =
      match passWord? "<" (qualifiedName name after).2 with
      | some inside => do
        let (arguments, afterArguments) ← readArguments inside
        let rest ← expectWord ">" afterArguments
        let value ← namedType (localName (qualifiedName name after).1) arguments
        return closeType value rest
      | none => do
        let value ← namedType (localName (qualifiedName name after).1) []
        return closeType value (qualifiedName name after).2 := by
  have hbracket : (Face.word name).isWord "[" = false :=
    Face.isWord_word_of_isIdentifier hname (by decide)
  have hparen : (Face.word name).isWord "(" = false :=
    Face.isWord_word_of_isIdentifier hname (by decide)
  rw [readTypeTokens_eq]
  dsimp only
  rw [Face.isWord_token, Face.isWord_token, hbracket, hparen, if_neg (by simp), if_neg (by simp),
    if_pos (by rfl)]
  rfl

theorem readTypeTokens_word {name meant : String} {t : TypeExpr} {at_ : Position}
    {tokens rest : List Token} (hname : isIdentifier name = true)
    (hqualified : qualifiedName name tokens = (meant, rest))
    (hmeant : namedType (localName meant) [] = .ok t)
    (hrest : rest.head?.all endsTypeName = true) :
    readTypeTokens ((Face.word name).token at_ :: tokens) = .ok (closeType t rest) := by
  have hopen : passWord? "<" rest = none := by
    refine passWord?_of_not_head ?_
    cases rest with
    | nil => rfl
    | cons token later =>
      have hends : endsTypeName token = true := hrest
      simp [(endsTypeName_eq hends).2]
  rw [readTypeTokens_name hname, hqualified]
  dsimp only
  rw [hopen]
  exact bind_eq_ok_iff.mpr ⟨t, hmeant, rfl⟩

theorem expectWord_token (face : Face) (at_ : Position) (wanted : String) (rest : List Token)
    (h : face.isWord wanted = true) : expectWord wanted (face.token at_ :: rest) = .ok rest := by
  rw [expectWord, passWord?, Face.isWord_token, if_pos h]

/-- A type in brackets is read up to the bracket that closes them. -/
theorem readTypeTokens_list {tokens rest : List Token} {t : TypeExpr} (openAt closeAt : Position)
    (h : readTypeTokens tokens = .ok (t, (Face.symbol "]").token closeAt :: rest)) :
    readTypeTokens ((Face.symbol "[").token openAt :: tokens) = .ok (closeType (.list t) rest) := by
  rw [readTypeTokens_eq]
  dsimp only
  rw [if_pos (by rfl)]
  refine bind_eq_ok_iff.mpr ⟨_, h, ?_⟩
  exact bind_eq_ok_iff.mpr ⟨rest, expectWord_token _ _ _ _ rfl, rfl⟩

theorem readTypeTokens_map {tokens values rest : List Token} {key value : TypeExpr}
    (openAt colonAt closeAt : Position)
    (hkey : readTypeTokens tokens = .ok (key, (Face.symbol ":").token colonAt :: values))
    (hvalue : readTypeTokens values = .ok (value, (Face.symbol "]").token closeAt :: rest)) :
    readTypeTokens ((Face.symbol "[").token openAt :: tokens) =
      .ok (closeType (.map key value) rest) := by
  rw [readTypeTokens_eq]
  dsimp only
  rw [if_pos (by rfl)]
  refine bind_eq_ok_iff.mpr ⟨_, hkey, ?_⟩
  refine bind_eq_ok_iff.mpr ⟨_, hvalue, ?_⟩
  exact bind_eq_ok_iff.mpr ⟨rest, expectWord_token _ _ _ _ rfl, rfl⟩

/-- A dotted name is read up to its end. -/
theorem readTypeTokens_dotted {name : String} (h : IsDotted name.toList)
    {tokens rest : List Token}
    (htokens : tokens.map Token.face = dottedFaces (name.toList.splitOn '.'))
    (hrest : rest.head?.all endsTypeName = true) :
    readTypeTokens (tokens ++ rest) = .ok (closeType (nameMeaning name) rest) := by
  obtain ⟨part, parts, hparts⟩ := List.exists_cons_of_ne_nil (List.splitOn_ne_nil '.' name.toList)
  have hpart := isIdentifier_ofList (h part (by rw [hparts]; exact List.mem_cons_self))
  have hwhole : ['.'].intercalate (name.toList.splitOn '.') = name.toList :=
    List.intercalate_splitOn '.'
  rw [hparts, intercalate_eq_flatMap] at hwhole
  obtain ⟨later, hlater⟩ := dottedFaces_cons part parts
  rw [hparts] at htokens
  obtain ⟨at_, tail, rfl, htail⟩ := map_face_eq_cons.mp (htokens.trans hlater)
  have hqualified := qualifiedName_dotted (String.ofList part) htokens hrest
  rw [String.toList_ofList, hwhole, String.ofList_toList] at hqualified
  exact readTypeTokens_word hpart hqualified rfl hrest

end WireSchema.Swift
