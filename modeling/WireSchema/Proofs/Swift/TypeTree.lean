import WireSchema.Proofs.Swift.TypeMeaning
import WireSchema.Proofs.Swift.TypeNames

/-!
# Types by their syntax

A `TypeTree` is a type as a source spells it: `[T]`, `Array<T>` and `Swift.Array<T>` are
different trees with the same meaning. Behind every part of a type any number of marks may
stand; they make it optional once. Whatever is read as a type has the tokens of a tree in
front, and is the meaning of the tree.
-/

namespace WireSchema.Swift

open Outcome (bind_eq_ok_iff)
open Text (isIdentChars isIdentifier)

/-! ## Trees -/

/-- A mark behind a type that makes it optional. -/
inductive Mark where
  | question
  | exclamation
  | double
deriving DecidableEq, Repr

def Mark.text : Mark → String
  | question => "?"
  | exclamation => "!"
  | double => "??"

def markFaces (marks : List Mark) : List Face :=
  marks.map fun mark => .symbol mark.text

def genericFaces (isQualified : Bool) (name : String) : List Face :=
  (if isQualified then [.word "Swift", .symbol "."] else []) ++ [.word name, .symbol "<"]

/-- A generic type with one argument that has a meaning. -/
inductive Wrapper where
  | array
  | optional
deriving DecidableEq, Repr

namespace Wrapper

def name : Wrapper → String
  | array => "Array"
  | optional => "Optional"

def meaning : Wrapper → TypeExpr → TypeExpr
  | array, t => .list t
  | optional, t => t.asOptional

theorem isIdentifier_name (wrapper : Wrapper) : isIdentifier wrapper.name = true := by
  cases wrapper <;> decide

end Wrapper

inductive Enclosure where
  | brackets
  | parentheses
  | generic (wrapper : Wrapper) (isQualified : Bool)
deriving DecidableEq, Repr

namespace Enclosure

def front : Enclosure → List Face
  | brackets => [.symbol "["]
  | parentheses => [.symbol "("]
  | generic wrapper isQualified => genericFaces isQualified wrapper.name

def back : Enclosure → Face
  | brackets => .symbol "]"
  | parentheses => .symbol ")"
  | generic _ _ => .symbol ">"

def meaning : Enclosure → TypeExpr → TypeExpr
  | brackets, t => .list t
  | parentheses, t => t
  | generic wrapper _, t => wrapper.meaning t

end Enclosure

inductive MapEnclosure where
  | brackets
  | dictionary (isQualified : Bool)
deriving DecidableEq, Repr

namespace MapEnclosure

def front : MapEnclosure → List Face
  | brackets => [.symbol "["]
  | dictionary isQualified => genericFaces isQualified "Dictionary"

def separator : MapEnclosure → Face
  | brackets => .symbol ":"
  | dictionary _ => .symbol ","

def back : MapEnclosure → Face
  | brackets => .symbol "]"
  | dictionary _ => .symbol ">"

end MapEnclosure

/-- A type as a source spells it, with the marks behind it. -/
inductive TypeTree where
  | name (name : String) (isDotted : IsDotted name.toList) (marks : List Mark)
  | enclosed (enclosure : Enclosure) (inner : TypeTree) (marks : List Mark)
  | map (enclosure : MapEnclosure) (key value : TypeTree) (marks : List Mark)

namespace TypeTree

def marks : TypeTree → List Mark
  | name _ _ marks => marks
  | enclosed _ _ marks => marks
  | map _ _ _ marks => marks

def faces : TypeTree → List Face
  | name n _ marks => dottedFaces (n.toList.splitOn '.') ++ markFaces marks
  | enclosed e inner marks => e.front ++ (inner.faces ++ e.back :: markFaces marks)
  | map e key value marks =>
    e.front ++ (key.faces ++ e.separator :: (value.faces ++ e.back :: markFaces marks))

end TypeTree

def closeMarks (marks : List Mark) (base : TypeExpr) : TypeExpr :=
  if marks.isEmpty then base else base.asOptional

namespace TypeTree

def base : TypeTree → TypeExpr
  | name n _ _ => nameMeaning n
  | enclosed e inner _ => e.meaning (closeMarks inner.marks inner.base)
  | map _ key value _ =>
    .map (closeMarks key.marks key.base) (closeMarks value.marks value.base)

def meaning (tree : TypeTree) : TypeExpr :=
  closeMarks tree.marks tree.base

end TypeTree

/-! ## Marks -/

theorem isOptionalMark_mark (mark : Mark) (at_ : Position) :
    isOptionalMark ((Face.symbol mark.text).token at_) = true := by
  cases mark <;> rfl

theorem closeType_marks {marks : List Mark} {tokens rest : List Token} (base : TypeExpr)
    (htokens : tokens.map Token.face = markFaces marks)
    (hrest : rest.head?.any isOptionalMark = false) :
    closeType base (tokens ++ rest) = (closeMarks marks base, rest) := by
  have hall : ∀ token ∈ tokens, isOptionalMark token = true := by
    intro token htoken
    have hface : token.face ∈ markFaces marks := htokens ▸ List.mem_map_of_mem htoken
    obtain ⟨mark, -, hmark⟩ := List.mem_map.mp hface
    have hsame : token = (Face.symbol mark.text).token token.position := by rw [hmark]; rfl
    rw [hsame]
    exact isOptionalMark_mark mark _
  have hdrop : (tokens ++ rest).dropWhile isOptionalMark = rest := by
    rw [List.dropWhile_append_of_pos hall]
    cases rest with
    | nil => rfl
    | cons token later => simpa using hrest
  unfold closeType
  rw [hdrop]
  cases marks with
  | nil =>
    cases List.map_eq_nil_iff.mp htokens
    simp [comesNext, hrest, closeMarks]
  | cons mark marks =>
    obtain ⟨at_, later, rfl, -⟩ := map_face_eq_cons.mp htokens
    simp [comesNext, isOptionalMark_mark, closeMarks]

/-! ## Tokens of a source -/

/-- Names are identifiers and numbers start with a digit, so what reads as a symbol is one. -/
structure IsLexical (tokens : List Token) : Prop where
  names : NamesIdentify tokens
  numbers : ∀ token ∈ tokens, token.kind = .number →
    token.text.toList.head?.any Char.isDigit = true

theorem IsLexical.of_suffix {tokens rest : List Token} (h : IsLexical tokens)
    (hsuffix : rest <:+ tokens) : IsLexical rest :=
  ⟨h.names.of_suffix hsuffix, fun token hmem => h.numbers token (hsuffix.subset hmem)⟩

theorem exists_lexeme_of_mem_placeLexemes {lexemes : List Lexeme} {at_ : Position} {token : Token}
    (h : token ∈ (placeLexemes at_ lexemes).1) :
    ∃ lexeme ∈ lexemes, ∃ place, lexeme.token? place = some token := by
  induction lexemes generalizing at_ with
  | nil => cases h
  | cons lexeme later ih =>
    rcases List.mem_append.mp h with hfirst | hlater
    · exact ⟨lexeme, List.mem_cons_self, at_, Option.mem_toList.mp hfirst⟩
    · obtain ⟨found, hfound, hplace⟩ := ih hlater
      exact ⟨found, List.mem_cons_of_mem _ hfound, hplace⟩

theorem head?_isDigit_of_token? {lexeme : Lexeme} {at_ : Position} {token : Token}
    (h : lexeme.token? at_ = some token) (hnumber : token.kind = .number) :
    token.text.toList.head?.any Char.isDigit = true := by
  obtain ⟨⟨kind, chars⟩, hcontent, rfl⟩ := Option.map_eq_some_iff.mp h
  cases hnumber
  obtain ⟨lexemeKind, lexemeChars⟩ := lexeme
  cases lexemeKind with
  | number =>
    by_cases hdigit : lexemeChars.head?.any Char.isDigit = true
    · simp only [Lexeme.content?, hdigit, if_true, Option.some.injEq, Prod.mk.injEq] at hcontent
      simpa [← hcontent.2] using hdigit
    · simp [Lexeme.content?, hdigit] at hcontent
  | docLine | docBlock | comment | string | quotedName | name | symbol | blank =>
    simp [Lexeme.content?] at hcontent

theorem tokenize_isLexical {text : String} {stream : TokenStream}
    (h : tokenize text = .ok stream) : IsLexical stream.tokens := by
  refine ⟨tokenize_namesIdentify h, fun token hmem => ?_⟩
  unfold tokenize at h
  dsimp only at h
  split at h
  · cases h
    obtain ⟨lexeme, -, place, htoken⟩ := exists_lexeme_of_mem_placeLexemes hmem
    exact head?_isDigit_of_token? htoken
  · cases h

theorem IsLexical.face_eq_symbol {tokens : List Token} (h : IsLexical tokens) {token : Token}
    (hmem : token ∈ tokens) {text : String} (hword : token.isWord text = true)
    (hname : isIdentifier text = false) (hdigit : text.toList.head?.any Char.isDigit = false) :
    token.face = .symbol text := by
  have hidentifier := h.names token hmem
  have hnumber := h.numbers token hmem
  obtain ⟨kind, word, at_⟩ := token
  simp only [Token.isWord, Bool.and_eq_true, beq_iff_eq] at hword
  obtain ⟨hkind, rfl⟩ := hword
  cases kind with
  | punctuation => rfl
  | identifier => simp [Token.isIdentifier, hname] at hidentifier
  | number => simp [hdigit] at hnumber
  | string | doc => simp at hkind

/-- The marks that a type is read with. -/
theorem exists_marks {tokens : List Token} (h : IsLexical tokens) :
    ∃ marks run, run ++ tokens.dropWhile isOptionalMark = tokens ∧
      run.map Token.face = markFaces marks ∧
      ∀ base, (closeType base tokens).1 = closeMarks marks base := by
  induction tokens with
  | nil => exact ⟨[], [], rfl, rfl, fun _ => rfl⟩
  | cons token later ih =>
    cases hmark : isOptionalMark token with
    | false =>
      refine ⟨[], [], by simp [hmark], rfl, fun base => ?_⟩
      simp [closeType, comesNext, hmark, closeMarks]
    | true =>
      obtain ⟨marks, run, happend, hfaces, -⟩ := ih (h.of_suffix (List.suffix_cons token later))
      obtain ⟨mark, hface⟩ : ∃ mark : Mark, token.face = .symbol mark.text := by
        simp only [isOptionalMark, Bool.or_eq_true] at hmark
        rcases hmark with (hmark | hmark) | hmark
        · exact ⟨.question, h.face_eq_symbol List.mem_cons_self hmark (by decide) (by decide)⟩
        · exact ⟨.exclamation, h.face_eq_symbol List.mem_cons_self hmark (by decide) (by decide)⟩
        · exact ⟨.double, h.face_eq_symbol List.mem_cons_self hmark (by decide) (by decide)⟩
      refine ⟨mark :: marks, token :: run, ?_, ?_, fun base => ?_⟩
      · simp [hmark, happend]
      · simp [markFaces, hface, hfaces]
      · simp [closeType, comesNext, hmark, closeMarks]

/-! ## From tokens to trees -/

theorem face_eq_word {token : Token} (h : token.isIdentifier = true) :
    token.face = .word token.text := by
  have hkind : token.kind = .identifier := by simpa [Token.isIdentifier] using h
  rw [Token.face, hkind]
  rfl

theorem passWord?_eq_some {wanted : String} {tokens rest : List Token}
    (h : passWord? wanted tokens = some rest) :
    ∃ token, tokens = token :: rest ∧ token.isWord wanted = true := by
  cases tokens with
  | nil => cases h
  | cons token later =>
    rw [passWord?] at h
    split at h
    · next hword =>
      cases h
      exact ⟨token, rfl, hword⟩
    · cases h

theorem expectWord_eq_ok {wanted : String} {tokens rest : List Token}
    (h : expectWord wanted tokens = .ok rest) :
    ∃ token, tokens = token :: rest ∧ token.isWord wanted = true := by
  unfold expectWord at h
  split at h
  · next hword =>
    cases h
    exact passWord?_eq_some hword
  · cases h

theorem dottedFaces_concat {parts : List (List Char)} (hne : parts ≠ []) (part : List Char) :
    dottedFaces (parts ++ [part]) =
      dottedFaces parts ++ [.symbol ".", .word (String.ofList part)] := by
  induction parts with
  | nil => exact absurd rfl hne
  | cons first later ih =>
    cases later with
    | nil => rfl
    | cons next later =>
      have hlater := ih (List.cons_ne_nil next later)
      simp only [List.cons_append, dottedFaces] at hlater ⊢
      rw [hlater]

/-- A name is read with all its parts. -/
theorem qualifiedName_run (name : String) {tokens : List Token} (htokens : IsLexical tokens) :
    ∃ run, run ++ (qualifiedName name tokens).2 = tokens ∧
      dottedFaces ((qualifiedName name tokens).1.toList.splitOn '.') =
        dottedFaces (name.toList.splitOn '.') ++ run.map Token.face := by
  fun_induction qualifiedName name tokens with
  | case1 name dot part rest hpart ih =>
    simp only [Bool.and_eq_true] at hpart
    have hdot : dot.face = .symbol "." :=
      htokens.face_eq_symbol List.mem_cons_self hpart.1 (by decide) (by decide)
    have hidentifier : isIdentChars part.text.toList = true :=
      htokens.names part (by simp) hpart.2
    have hword : part.face = .word part.text := face_eq_word hpart.2
    obtain ⟨run, happend, hfaces⟩ := ih
      (htokens.of_suffix ((List.suffix_cons part rest).trans (List.suffix_cons dot _)))
    refine ⟨dot :: part :: run, by simp [happend], ?_⟩
    have hsplit : (name ++ "." ++ part.text).toList.splitOn '.' =
        name.toList.splitOn '.' ++ [part.text.toList] := by
      have happend : (name ++ "." ++ part.text).toList =
          name.toList ++ '.' :: part.text.toList := by simp
      rw [happend, ← splitOn_of_isIdentChars hidentifier]
      exact List.splitOnP_append_cons name.toList part.text.toList rfl
    rw [hfaces, hsplit, dottedFaces_concat (List.splitOn_ne_nil '.' name.toList)]
    simp [hdot, hword]
  | case2 => exact ⟨[], rfl, by simp⟩
  | case3 => exact ⟨[], rfl, by simp⟩

/-- The generic types that have a meaning. -/
theorem namedType_eq_ok {name : String} {arguments : List TypeExpr} {t : TypeExpr}
    (h : namedType name arguments = .ok t) (hne : arguments ≠ []) :
    (∃ wrapper : Wrapper, ∃ element, name = wrapper.name ∧ arguments = [element] ∧
        t = wrapper.meaning element) ∨
      ∃ key value, name = "Dictionary" ∧ arguments = [key, value] ∧ t = .map key value := by
  unfold namedType at h
  split at h
  · exact absurd rfl hne
  · next element =>
    split at h
    · next hname =>
      cases h
      exact .inl ⟨.array, element, hname, rfl, rfl⟩
    · split at h
      · next hname =>
        cases h
        exact .inl ⟨.optional, element, hname, rfl, rfl⟩
      · cases h
  · next key value =>
    split at h
    · next hname =>
      cases h
      exact .inr ⟨key, value, hname, rfl, rfl⟩
    · cases h
  · cases h

theorem readArguments_eq_ok {tokens rest : List Token} {values : List TypeExpr}
    (h : readArguments tokens = .ok (values, rest)) :
    ∃ t more after, values = t :: more ∧ readTypeTokens tokens = .ok (t, after) ∧
      (more = [] ∧ after = rest ∨
        ∃ inside, passWord? "," after = some inside ∧ readArguments inside = .ok (more, rest)) := by
  rw [readArguments_eq] at h
  obtain ⟨⟨t, after⟩, ht, h⟩ := bind_eq_ok_iff.mp h
  dsimp only at h
  split at h
  · next inside hcomma =>
    obtain ⟨⟨more, left⟩, hmore, h⟩ := bind_eq_ok_iff.mp h
    cases h
    exact ⟨t, more, after, rfl, ht, .inr ⟨inside, hcomma, hmore⟩⟩
  · cases h
    exact ⟨t, [], rest, rfl, ht, .inl ⟨rfl, rfl⟩⟩

theorem readArguments_ne_nil {tokens rest : List Token} {values : List TypeExpr}
    (h : readArguments tokens = .ok (values, rest)) : values ≠ [] := by
  obtain ⟨t, more, -, rfl, -⟩ := readArguments_eq_ok h
  exact List.cons_ne_nil t more

theorem readArguments_singleton {tokens rest : List Token} {t : TypeExpr}
    (h : readArguments tokens = .ok ([t], rest)) : readTypeTokens tokens = .ok (t, rest) := by
  obtain ⟨first, more, after, hvalues, hfirst, hmore⟩ := readArguments_eq_ok h
  cases hvalues
  rcases hmore with ⟨-, rfl⟩ | ⟨inside, -, hinside⟩
  · exact hfirst
  · exact absurd rfl (readArguments_ne_nil hinside)

theorem readArguments_pair {tokens rest : List Token} {key value : TypeExpr}
    (h : readArguments tokens = .ok ([key, value], rest)) :
    ∃ after inside, readTypeTokens tokens = .ok (key, after) ∧
      passWord? "," after = some inside ∧ readTypeTokens inside = .ok (value, rest) := by
  obtain ⟨first, more, after, hvalues, hfirst, hmore⟩ := readArguments_eq_ok h
  cases hvalues
  rcases hmore with ⟨hnil, -⟩ | ⟨inside, hcomma, hinside⟩
  · cases hnil
  · exact ⟨after, inside, hfirst, hcomma, readArguments_singleton hinside⟩

def Spans (tree : TypeTree) (tokens rest : List Token) : Prop :=
  ∃ run, run ++ rest = tokens ∧ run.map Token.face = tree.faces

/-- A name before its arguments is read as the faces of a generic type. -/
theorem exists_genericFaces {token : Token} {after inside : List Token} {name : String}
    (htokens : IsLexical (token :: after)) (hidentifier : token.isIdentifier = true)
    (hopen : passWord? "<" (qualifiedName token.text after).2 = some inside)
    (hname : localName (qualifiedName token.text after).1 = name)
    (hplain : isIdentifier name = true) :
    ∃ isQualified run, run ++ inside = token :: after ∧
      run.map Token.face = genericFaces isQualified name := by
  have hlater := htokens.of_suffix (List.suffix_cons token after)
  have hfirst : token.face = .word token.text := face_eq_word hidentifier
  have htext : isIdentChars token.text.toList = true :=
    htokens.names token List.mem_cons_self hidentifier
  obtain ⟨run, happend, hfaces⟩ := qualifiedName_run token.text hlater
  obtain ⟨opener, hafter, hopener⟩ := passWord?_eq_some hopen
  rw [hafter] at happend
  have hsymbol : opener.face = .symbol "<" :=
    hlater.face_eq_symbol (by simp [← happend]) hopener (by decide) (by decide)
  rw [splitOn_of_isIdentChars htext] at hfaces
  have hhead : dottedFaces ((qualifiedName token.text after).1.toList.splitOn '.') =
      token.face :: run.map Token.face := by
    rw [hfaces, hfirst, dottedFaces, String.ofList_toList]
    rfl
  have hlocal : name.toList.splitOn '.' = [name.toList] := splitOn_of_isIdentChars hplain
  rcases localName_eq hname with hsame | hqualified
  · refine ⟨false, token :: (run ++ [opener]), by simp [happend], ?_⟩
    rw [hsame, hlocal] at hhead
    simp only [List.map_cons, List.map_append, ← List.cons_append, ← hhead, hsymbol]
    simp [genericFaces, dottedFaces]
  · refine ⟨true, token :: (run ++ [opener]), by simp [happend], ?_⟩
    have hsplit : ("Swift." ++ name).toList.splitOn '.' = ["Swift".toList, name.toList] := by
      have happend : ("Swift." ++ name).toList = "Swift".toList ++ '.' :: name.toList := by simp
      rw [happend, ← hlocal]
      exact List.splitOnP_append_cons "Swift".toList name.toList rfl
    rw [hqualified, hsplit] at hhead
    simp only [List.map_cons, List.map_append, ← List.cons_append, ← hhead, hsymbol]
    simp [genericFaces, dottedFaces]

/-- Whatever marks are behind them, the tokens are those of a tree with the base. -/
def SpansBase (base : TypeExpr) (tokens : List Token) : Prop :=
  ∀ marks, ∃ tree : TypeTree, tree.base = base ∧ tree.marks = marks ∧
    tree.faces = tokens.map Token.face ++ markFaces marks

theorem spansBase_enclosed (enclosure : Enclosure) {tree : TypeTree} {front run : List Token}
    {closer : Token} (hfront : front.map Token.face = enclosure.front)
    (hrun : run.map Token.face = tree.faces) (hclose : closer.face = enclosure.back) :
    SpansBase (enclosure.meaning tree.meaning) (front ++ (run ++ [closer])) := by
  intro marks
  refine ⟨.enclosed enclosure tree marks, rfl, rfl, ?_⟩
  simp [TypeTree.faces, hfront, hrun, hclose]

theorem spansBase_map (enclosure : MapEnclosure) {key value : TypeTree}
    {front keyRun valueRun : List Token} {separator closer : Token}
    (hfront : front.map Token.face = enclosure.front) (hkey : keyRun.map Token.face = key.faces)
    (hseparator : separator.face = enclosure.separator)
    (hvalue : valueRun.map Token.face = value.faces) (hclose : closer.face = enclosure.back) :
    SpansBase (.map key.meaning value.meaning)
      (front ++ (keyRun ++ separator :: (valueRun ++ [closer]))) := by
  intro marks
  refine ⟨.map enclosure key value marks, rfl, rfl, ?_⟩
  simp [TypeTree.faces, hfront, hkey, hseparator, hvalue, hclose]

/-- A name without arguments. -/
theorem exists_spansBase_name {token : Token} {after : List Token}
    (htokens : IsLexical (token :: after)) (hidentifier : token.isIdentifier = true) :
    ∃ run, run ++ (qualifiedName token.text after).2 = token :: after ∧
      SpansBase (nameMeaning (qualifiedName token.text after).1) run := by
  have hfirst : isIdentChars token.text.toList = true :=
    htokens.names token List.mem_cons_self hidentifier
  have hlater := htokens.of_suffix (List.suffix_cons token after)
  obtain ⟨run, happend, hfaces⟩ := qualifiedName_run token.text hlater
  have hdotted : IsDotted (qualifiedName token.text after).1.toList :=
    qualifiedName_isDotted (isDotted_of_isIdentChars hfirst) hlater.names
  rw [splitOn_of_isIdentChars hfirst] at hfaces
  refine ⟨token :: run, by simp [happend], fun marks => ⟨.name _ hdotted marks, rfl, rfl, ?_⟩⟩
  have hword : token.face = .word token.text := face_eq_word hidentifier
  simp [TypeTree.faces, hfaces, dottedFaces, hword]

/-- What is read of tokens is the base of a tree if what is read of fewer tokens is the meaning
of one. -/
theorem ReadsBase.exists_tree {tokens rest : List Token} {base : TypeExpr}
    (h : ReadsBase tokens base rest) (htokens : IsLexical tokens)
    (htypes : ∀ {inside left t}, ProperSuffix inside tokens →
      readTypeTokens inside = .ok (t, left) → ∃ tree, Spans tree inside left ∧ tree.meaning = t) :
    ∃ run, run ++ rest = tokens ∧ SpansBase base run := by
  have hsymbol {token : Token} {text : String} (hmem : token ∈ tokens)
      (hword : token.isWord text = true) (hname : isIdentifier text = false)
      (hdigit : text.toList.head?.any Char.isDigit = false) : token.face = .symbol text :=
    htokens.face_eq_symbol hmem hword hname hdigit
  cases h with
  | @list opener after afterElement _ _ hopen helement hclose =>
    obtain ⟨tree, ⟨run, rfl, hrun⟩, rfl⟩ := htypes .tail helement
    obtain ⟨closer, rfl, hcloser⟩ := expectWord_eq_ok hclose
    have hopen' := hsymbol (by simp) hopen (by decide) (by decide)
    have hclose' := hsymbol (by simp) hcloser (by decide) (by decide)
    exact ⟨[opener] ++ (run ++ [closer]), by simp,
      spansBase_enclosed .brackets (congrArg (fun face => [face]) hopen') hrun hclose'⟩
  | @map opener after _ values afterValue _ _ _ hopen hkey hcolon hvalue hclose =>
    have hvalues := (passWord?_properSuffix hcolon).trans (readTypeTokens_properSuffix hkey)
    obtain ⟨value, ⟨valueRun, rfl, hvalueRun⟩, rfl⟩ := htypes hvalues.cons hvalue
    obtain ⟨colon, rfl, hcolon'⟩ := passWord?_eq_some hcolon
    obtain ⟨key, ⟨keyRun, rfl, hkeyRun⟩, rfl⟩ := htypes .tail hkey
    obtain ⟨closer, rfl, hcloser⟩ := expectWord_eq_ok hclose
    have hopen' := hsymbol (by simp) hopen (by decide) (by decide)
    have hcolon' := hsymbol (by simp) hcolon' (by decide) (by decide)
    have hclose' := hsymbol (by simp) hcloser (by decide) (by decide)
    exact ⟨[opener] ++ (keyRun ++ colon :: (valueRun ++ [closer])), by simp,
      spansBase_map .brackets (congrArg (fun face => [face]) hopen') hkeyRun hcolon' hvalueRun
        hclose'⟩
  | @inner opener after _ _ _ hopen hinner hclose harrow =>
    obtain ⟨tree, ⟨run, rfl, hrun⟩, rfl⟩ := htypes .tail hinner
    obtain ⟨closer, rfl, hcloser⟩ := expectWord_eq_ok hclose
    have hopen' := hsymbol (by simp) hopen (by decide) (by decide)
    have hclose' := hsymbol (by simp) hcloser (by decide) (by decide)
    exact ⟨[opener] ++ (run ++ [closer]), by simp,
      spansBase_enclosed .parentheses (congrArg (fun face => [face]) hopen') hrun hclose'⟩
  | @generic token after inside _ _ arguments _ hname hopen harguments hclose ht =>
    have hinside := (passWord?_properSuffix hopen).trans_suffix (qualifiedName_suffix _ after)
    obtain ⟨closer, rfl, hcloser⟩ := expectWord_eq_ok hclose
    rcases namedType_eq_ok ht (readArguments_ne_nil harguments) with
      ⟨wrapper, element, hlocal, rfl, rfl⟩ | ⟨key, value, hlocal, rfl, rfl⟩
    · obtain ⟨tree, ⟨treeRun, rfl, htree⟩, rfl⟩ :=
        htypes hinside.cons (readArguments_singleton harguments)
      obtain ⟨isQualified, run, happend, hrun⟩ :=
        exists_genericFaces htokens hname hopen hlocal wrapper.isIdentifier_name
      have hclose' := hsymbol (by simp [← happend]) hcloser (by decide) (by decide)
      exact ⟨run ++ (treeRun ++ [closer]), by simp [← happend],
        spansBase_enclosed (.generic wrapper isQualified) hrun htree hclose'⟩
    · obtain ⟨after', values, hkey, hcomma, hvalue⟩ := readArguments_pair harguments
      have hvalues := (passWord?_properSuffix hcomma).trans (readTypeTokens_properSuffix hkey)
      obtain ⟨value, ⟨valueRun, rfl, hvalueRun⟩, rfl⟩ :=
        htypes (hvalues.trans hinside).cons hvalue
      obtain ⟨comma, rfl, hcomma'⟩ := passWord?_eq_some hcomma
      obtain ⟨key, ⟨keyRun, rfl, hkeyRun⟩, rfl⟩ := htypes hinside.cons hkey
      obtain ⟨isQualified, run, happend, hrun⟩ :=
        exists_genericFaces htokens hname hopen hlocal (by decide)
      have hcomma' := hsymbol (by simp [← happend]) hcomma' (by decide) (by decide)
      have hclose' := hsymbol (by simp [← happend]) hcloser (by decide) (by decide)
      exact ⟨run ++ (keyRun ++ comma :: (valueRun ++ [closer])), by simp [← happend],
        spansBase_map (.dictionary isQualified) hrun hkeyRun hcomma' hvalueRun hclose'⟩
  | @name token after _ hname ht =>
    cases ht
    exact exists_spansBase_name htokens hname

/-- What is read of tokens is the meaning of a tree whose tokens are in front. -/
theorem exists_tree_of_readTypeTokens {tokens rest : List Token} (htokens : IsLexical tokens)
    {t : TypeExpr} (h : readTypeTokens tokens = .ok (t, rest)) :
    ∃ tree, Spans tree tokens rest ∧ tree.meaning = t := by
  induction hlength : tokens.length using Nat.strongRecOn generalizing tokens rest t with
  | ind n ih =>
    obtain ⟨base, after, hbase, hclosed⟩ := readTypeTokens_eq_ok h
    obtain ⟨run, rfl, htree⟩ := hbase.exists_tree htokens fun hproper hread =>
      ih _ (hlength ▸ hproper.shorter) (htokens.of_suffix hproper.suffix) hread rfl
    obtain ⟨marks, markRun, hafter, hmarks, hclose⟩ :=
      exists_marks (htokens.of_suffix (List.suffix_append run after))
    obtain ⟨tree, rfl, rfl, hfaces⟩ := htree marks
    obtain ⟨ht, hrest⟩ := Prod.mk.inj hclosed
    refine ⟨tree, ⟨run ++ markRun, ?_, ?_⟩, ?_⟩
    · rw [List.append_assoc, ← hrest]
      exact congrArg (run ++ ·) hafter
    · rw [List.map_append, hmarks, hfaces]
    · rw [TypeTree.meaning, ← hclose]
      exact ht

end WireSchema.Swift
