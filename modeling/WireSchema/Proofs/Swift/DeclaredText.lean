import WireSchema.Proofs.Swift.DeclaredType

/-!
# Texts of declared types

What text a declaration keeps of a type, and what that text means. The text has the
tokens of a tree of the same meaning. It need not be the same tree, since single marks
that stood apart are one double mark when they stand together.
-/

namespace WireSchema.Swift

open Outcome (bind_eq_ok_iff)
open Text (isIdentStart isIdentRest isIdentChars isIdentifier isBlank)

/-! ## The text -/

def textChars (faces : List Face) : List Char :=
  faces.flatMap fun face => face.2.toList

/-- The text that the parser makes of a type. -/
def TypeTree.chars : TypeTree → List Char
  | name n _ marks => n.toList ++ textChars (markFaces marks)
  | enclosed enclosure inner marks =>
    textChars enclosure.front ++ (inner.chars ++ textChars (enclosure.back :: markFaces marks))
  | map enclosure key value marks =>
    textChars enclosure.front ++ (key.chars ++ (textChars [enclosure.separator] ++ ' ' ::
      (value.chars ++ textChars (enclosure.back :: markFaces marks))))

theorem typeRunChars_genericFaces {isQualified : Bool} {name : String}
    (hname : isIdentifier name = true) {tokens : List Token}
    (htokens : tokens.map Token.face = genericFaces isQualified name) (rest : List Token) :
    typeRunChars (tokens ++ rest) =
      textChars (genericFaces isQualified name) ++ typeRunChars rest := by
  cases isQualified with
  | false =>
    obtain ⟨at_, tail, rfl, hopen⟩ := map_face_eq_cons.mp htokens
    obtain ⟨openAt, tail, rfl, hnil⟩ := map_face_eq_cons.mp hopen
    cases List.map_eq_nil_iff.mp hnil
    rw [List.cons_append, List.singleton_append, typeRunChars_word hname at_ rfl,
      typeRunChars_symbol (by decide)]
    simp [textChars, genericFaces, Face.word, Face.symbol]
  | true =>
    obtain ⟨at_, tail, rfl, hdot⟩ := map_face_eq_cons.mp htokens
    obtain ⟨dotAt, tail, rfl, hword⟩ := map_face_eq_cons.mp hdot
    obtain ⟨nameAt, tail, rfl, hopen⟩ := map_face_eq_cons.mp hword
    obtain ⟨openAt, tail, rfl, hnil⟩ := map_face_eq_cons.mp hopen
    cases List.map_eq_nil_iff.mp hnil
    simp only [List.cons_append, List.nil_append]
    rw [typeRunChars_word (by decide) at_ rfl, typeRunChars_symbol (by decide),
      typeRunChars_word hname nameAt rfl, typeRunChars_symbol (by decide)]
    simp [textChars, genericFaces, Face.word, Face.symbol]

/-- Symbols that stand without spaces. -/
theorem typeRunChars_symbols {faces : List Face}
    (hfaces : ∀ face ∈ faces, ∃ symbol ∈ tightSymbols, face = .symbol symbol)
    {tokens : List Token} (htokens : tokens.map Token.face = faces) (rest : List Token) :
    typeRunChars (tokens ++ rest) = textChars faces ++ typeRunChars rest := by
  induction faces generalizing tokens with
  | nil =>
    cases List.map_eq_nil_iff.mp htokens
    rfl
  | cons face faces ih =>
    obtain ⟨at_, later, rfl, hlater⟩ := map_face_eq_cons.mp htokens
    obtain ⟨symbol, hsymbol, rfl⟩ := hfaces face List.mem_cons_self
    have hmore := ih (fun face hface => hfaces face (List.mem_cons_of_mem _ hface)) hlater
    rw [List.cons_append, typeRunChars_symbol hsymbol, hmore]
    simp [textChars, Face.symbol]

theorem mem_markFaces {marks : List Mark} :
    ∀ face ∈ markFaces marks, ∃ symbol ∈ tightSymbols, face = .symbol symbol := by
  intro face hface
  obtain ⟨mark, -, rfl⟩ := List.mem_map.mp hface
  refine ⟨mark.text, ?_, rfl⟩
  cases mark <;> decide

/-- What a type opens with: a bracket, or the name of a generic type. -/
def IsFront (front : List Face) : Prop :=
  front = [.symbol "["] ∨ front = [.symbol "("] ∨
    ∃ isQualified name, isIdentifier name = true ∧ front = genericFaces isQualified name

def IsBack (back : Face) : Prop :=
  ∃ symbol ∈ ["]", ")", ">"], back = .symbol symbol

theorem Enclosure.isFront (enclosure : Enclosure) : IsFront enclosure.front := by
  cases enclosure with
  | brackets => exact .inl rfl
  | parentheses => exact .inr (.inl rfl)
  | generic wrapper isQualified =>
    exact .inr (.inr ⟨isQualified, wrapper.name, wrapper.isIdentifier_name, rfl⟩)

theorem MapEnclosure.isFront (enclosure : MapEnclosure) : IsFront enclosure.front := by
  cases enclosure with
  | brackets => exact .inl rfl
  | dictionary isQualified => exact .inr (.inr ⟨isQualified, "Dictionary", by decide, rfl⟩)

theorem Enclosure.isBack (enclosure : Enclosure) : IsBack enclosure.back := by
  cases enclosure with
  | brackets => exact ⟨"]", by decide, rfl⟩
  | parentheses => exact ⟨")", by decide, rfl⟩
  | generic => exact ⟨">", by decide, rfl⟩

theorem MapEnclosure.isBack (enclosure : MapEnclosure) : IsBack enclosure.back := by
  cases enclosure with
  | brackets => exact ⟨"]", by decide, rfl⟩
  | dictionary => exact ⟨">", by decide, rfl⟩

theorem MapEnclosure.exists_separator (enclosure : MapEnclosure) :
    ∃ symbol ∈ [":", ","], enclosure.separator = .symbol symbol := by
  cases enclosure with
  | brackets => exact ⟨":", by decide, rfl⟩
  | dictionary => exact ⟨",", by decide, rfl⟩

/-- What closes a type, with the marks behind it. -/
theorem IsBack.mem_markFaces {back : Face} (h : IsBack back) {marks : List Mark} :
    ∀ face ∈ back :: markFaces marks, ∃ symbol ∈ tightSymbols, face = .symbol symbol := by
  intro face hface
  rcases List.mem_cons.mp hface with rfl | hmark
  · obtain ⟨symbol, hsymbol, rfl⟩ := h
    have htight : ∀ symbol ∈ ["]", ")", ">"], symbol ∈ tightSymbols := by decide
    exact ⟨symbol, htight symbol hsymbol, rfl⟩
  · exact Swift.mem_markFaces face hmark

theorem IsFront.typeRunChars {front : List Face} (h : IsFront front) {tokens : List Token}
    (htokens : tokens.map Token.face = front) (rest : List Token) :
    typeRunChars (tokens ++ rest) = textChars front ++ typeRunChars rest := by
  rcases h with rfl | rfl | ⟨isQualified, name, hname, rfl⟩
  · exact typeRunChars_symbols (by simpa using ⟨"[", by decide, rfl⟩) htokens rest
  · exact typeRunChars_symbols (by simpa using ⟨"(", by decide, rfl⟩) htokens rest
  · exact typeRunChars_genericFaces hname htokens rest

theorem isIdentifier_of_markFaces {marks : List Mark} {tokens rest : List Token}
    (htokens : tokens.map Token.face = markFaces marks)
    (hrest : rest.head?.any Token.isIdentifier = false) :
    (tokens ++ rest).head?.any Token.isIdentifier = false := by
  cases marks with
  | nil =>
    cases List.map_eq_nil_iff.mp htokens
    exact hrest
  | cons mark marks =>
    obtain ⟨at_, later, rfl, -⟩ := map_face_eq_cons.mp htokens
    rfl

/-- The parser writes a type with regular spacing. -/
theorem typeRunChars_tree (tree : TypeTree) {tokens rest : List Token}
    (htokens : tokens.map Token.face = tree.faces)
    (hrest : rest.head?.any Token.isIdentifier = false) :
    typeRunChars (tokens ++ rest) = tree.chars ++ typeRunChars rest := by
  induction tree generalizing tokens rest with
  | name name isDotted marks =>
    obtain ⟨nameTokens, markTokens, rfl, hname, hmarks⟩ := map_face_eq_append.mp htokens
    have hmark := typeRunChars_symbols mem_markFaces hmarks rest
    rw [List.append_assoc,
      typeRunChars_dotted isDotted hname (isIdentifier_of_markFaces hmarks hrest), hmark,
      List.intercalate_splitOn, TypeTree.chars, List.append_assoc]
  | enclosed enclosure inner marks ih =>
    obtain ⟨front, tail, rfl, hfront, hinside⟩ := map_face_eq_append.mp htokens
    obtain ⟨innerTokens, backTokens, rfl, hinner, hback⟩ := map_face_eq_append.mp hinside
    have hclose := typeRunChars_symbols enclosure.isBack.mem_markFaces hback rest
    have hnext : (backTokens ++ rest).head?.any Token.isIdentifier = false := by
      obtain ⟨symbol, -, hsymbol⟩ := enclosure.isBack
      obtain ⟨at_, later, rfl, -⟩ := map_face_eq_cons.mp hback
      rw [hsymbol]
      rfl
    rw [List.append_assoc, List.append_assoc, enclosure.isFront.typeRunChars hfront,
      ih hinner hnext, hclose, TypeTree.chars]
    simp only [List.append_assoc]
  | map enclosure key value marks ihkey ihvalue =>
    obtain ⟨front, tail, rfl, hfront, hinside⟩ := map_face_eq_append.mp htokens
    obtain ⟨keyTokens, tail, rfl, hkey, hbetween⟩ := map_face_eq_append.mp hinside
    obtain ⟨betweenAt, tail, rfl, hlater⟩ := map_face_eq_cons.mp hbetween
    obtain ⟨valueTokens, backTokens, rfl, hvalue, hback⟩ := map_face_eq_append.mp hlater
    have hclose := typeRunChars_symbols enclosure.isBack.mem_markFaces hback rest
    have hnext : (backTokens ++ rest).head?.any Token.isIdentifier = false := by
      obtain ⟨symbol, -, hsymbol⟩ := enclosure.isBack
      obtain ⟨at_, later, rfl, -⟩ := map_face_eq_cons.mp hback
      rw [hsymbol]
      rfl
    have hne : valueTokens ++ (backTokens ++ rest) ≠ [] := by
      obtain ⟨at_, later, rfl, -⟩ := map_face_eq_cons.mp hback
      simp
    have hseparator : typeRunChars (enclosure.separator.token betweenAt ::
        (valueTokens ++ (backTokens ++ rest))) =
          textChars [enclosure.separator] ++
            ' ' :: typeRunChars (valueTokens ++ (backTokens ++ rest)) := by
      obtain ⟨symbol, hmem, hsymbol⟩ := enclosure.exists_separator
      rw [hsymbol, typeRunChars_separator hmem betweenAt hne]
      simp [textChars, Face.symbol]
    have hcolon : (enclosure.separator.token betweenAt ::
        (valueTokens ++ (backTokens ++ rest))).head?.any Token.isIdentifier = false := by
      cases enclosure <;> rfl
    simp only [List.append_assoc, List.cons_append]
    rw [enclosure.isFront.typeRunChars hfront, ihkey hkey hcolon, hseparator,
      ihvalue hvalue hnext, hclose, TypeTree.chars]
    simp only [List.append_assoc, List.cons_append]

/-! ## The tokens of the text -/

/-- Is the character one that a type inside another may end before? -/
def followsType (c : Char) : Bool :=
  [']', ')', '>', ':', ','].contains c

/-- Symbols that only an equals sign makes longer. -/
theorem lexemeAt?_beforeEquals {c : Char} (h : c ∈ ['!', '>']) {rest : List Char}
    (hrest : rest.head? ≠ some '=') : lexemeAt? (c :: rest) = some (.symbol, 1) := by
  have hlength : symbolLength? (c :: rest) = some 1 := by
    simp only [List.mem_cons, List.not_mem_nil, or_false] at h
    cases rest with
    | nil => rcases h with rfl | rfl <;> rfl
    | cons d later =>
      have hd : d ≠ '=' := fun hd => hrest (by rw [hd]; rfl)
      have hfind : longSymbols.find? (fun symbol => symbol.isPrefixOf (c :: d :: later)) =
          none := by
        rcases h with rfl | rfl <;> simp [longSymbols, List.isPrefixOf, hd.symm]
      rw [symbolLength?, hfind]
      rcases h with rfl | rfl <;> rfl
  simp only [List.mem_cons, List.not_mem_nil, or_false] at h
  rcases h with rfl | rfl
  all_goals
    rw [lexemeAt?_cons (by decide) (by decide) (by decide)]
    simp only [List.findSome?_cons, hlength]
    rfl

theorem lexemeAt?_doubleQuestion (rest : List Char) :
    lexemeAt? ('?' :: '?' :: rest) = some (.symbol, 2) := by
  have hlength : symbolLength? ('?' :: '?' :: rest) = some 2 := rfl
  rw [lexemeAt?_cons (by decide) (by decide) (by decide)]
  simp only [List.findSome?_cons, hlength]
  rfl

/-- Marks without spaces between them are marks again. -/
theorem exists_lexes_questions {cs rest : List Char} {later : List Face}
    (hcs : ∀ c ∈ cs, c ∈ ['?', '!']) (hrest : rest.head?.all followsType = true)
    (hlater : Lexes rest later) :
    ∃ marks, marks.isEmpty = cs.isEmpty ∧ Lexes (cs ++ rest) (markFaces marks ++ later) := by
  -- A mark in front is read with the next one if both are single, so both texts are followed.
  suffices (∃ marks, marks.isEmpty = cs.isEmpty ∧
        Lexes (cs ++ rest) (markFaces marks ++ later)) ∧
      ∃ marks, marks.isEmpty = false ∧ Lexes ('?' :: (cs ++ rest)) (markFaces marks ++ later) from
    this.1
  have hequals : rest.head? ≠ some '=' := by
    intro heq
    rw [heq] at hrest
    cases hrest
  have hquestion : rest.head? ≠ some '?' := by
    intro heq
    rw [heq] at hrest
    cases hrest
  induction cs with
  | nil =>
    refine ⟨⟨[], rfl, hlater⟩, [.question], rfl, ?_⟩
    exact lexes_symbol (lexemeAt?_question hquestion) hlater
  | cons c cs ih =>
    have hc := hcs c List.mem_cons_self
    obtain ⟨⟨marks, -, hlexes⟩, ⟨marks', hempty', hlexes'⟩⟩ :=
      ih fun d hd => hcs d (List.mem_cons_of_mem c hd)
    simp only [List.mem_cons, List.not_mem_nil, or_false] at hc
    rcases hc with rfl | rfl
    · refine ⟨⟨marks', hempty', hlexes'⟩, .double :: marks, rfl, ?_⟩
      have happend : Lexes (['?', '?'] ++ (cs ++ rest)) (_ ++ (markFaces marks ++ later)) :=
        lexes_append (lexemeAt?_doubleQuestion _) hlexes
      exact happend
    · have hnext : (cs ++ rest).head? ≠ some '=' := by
        cases cs with
        | nil => exact hequals
        | cons d cs =>
          have hd := hcs d (by simp)
          simp only [List.mem_cons, List.not_mem_nil, or_false] at hd
          rcases hd with rfl | rfl <;> simp
      have hexclamation : Lexes ('!' :: (cs ++ rest)) (markFaces (.exclamation :: marks) ++ later) :=
        lexes_symbol (lexemeAt?_beforeEquals (by decide) hnext) hlexes
      refine ⟨⟨.exclamation :: marks, rfl, hexclamation⟩, .question :: .exclamation :: marks, rfl, ?_⟩
      exact lexes_symbol (lexemeAt?_question (by simp)) hexclamation

theorem mem_textChars_markFaces {marks : List Mark} :
    ∀ c ∈ textChars (markFaces marks), c ∈ ['?', '!'] := by
  intro c hc
  obtain ⟨face, hface, hchar⟩ := List.mem_flatMap.mp hc
  obtain ⟨mark, -, rfl⟩ := List.mem_map.mp hface
  have hmark : mark.text.toList.all (fun c => ['?', '!'].contains c) = true := by
    cases mark <;> decide
  exact List.contains_iff_mem.mp (List.all_eq_true.mp hmark c hchar)

theorem exists_lexes_markFaces (marks : List Mark) {rest : List Char} {later : List Face}
    (hrest : rest.head?.all followsType = true) (hlater : Lexes rest later) :
    ∃ marks' : List Mark, marks'.isEmpty = marks.isEmpty ∧
      Lexes (textChars (markFaces marks) ++ rest) (markFaces marks' ++ later) := by
  obtain ⟨marks', hempty, hlexes⟩ := exists_lexes_questions mem_textChars_markFaces hrest hlater
  refine ⟨marks', ?_, hlexes⟩
  rw [hempty]
  cases marks with
  | nil => rfl
  | cons mark marks => cases mark <;> rfl

theorem lexes_genericFaces {isQualified : Bool} {name : String}
    (hname : isIdentifier name = true) {rest : List Char} {later : List Face}
    (hrest : rest.head?.all breaksSymbol = true) (hlater : Lexes rest later) :
    Lexes (textChars (genericFaces isQualified name) ++ rest)
      (genericFaces isQualified name ++ later) := by
  have hopen : Lexes ('<' :: rest) (.symbol "<" :: later) :=
    lexes_symbol (lexemeAt?_openSymbol (by decide) hrest) hlater
  have hnamed : Lexes (name.toList ++ '<' :: rest) (.word name :: .symbol "<" :: later) := by
    have hword := lexes_identifier hname rfl hopen
    rwa [String.ofList_toList] at hword
  cases isQualified with
  | false =>
    have htext : textChars (genericFaces false name) ++ rest = name.toList ++ '<' :: rest := by
      simp [textChars, genericFaces, Face.word, Face.symbol]
    rw [htext]
    exact hnamed
  | true =>
    have htext : textChars (genericFaces true name) ++ rest =
        "Swift".toList ++ '.' :: (name.toList ++ '<' :: rest) := by
      simp [textChars, genericFaces, Face.word, Face.symbol]
    obtain ⟨c, more, hchars, hc⟩ := exists_cons_of_isIdentChars hname
    have hbreak : (name.toList ++ '<' :: rest).head?.all breaksSymbol = true := by
      rw [hchars]
      exact breaksSymbol_of_isIdentRest (isIdentRest_of_isIdentStart hc)
    have hdot : Lexes ('.' :: (name.toList ++ '<' :: rest)) (.symbol "." :: _) :=
      lexes_symbol (lexemeAt?_openSymbol (by decide) hbreak) hnamed
    rw [htext]
    exact lexes_identifier (by decide) rfl hdot

theorem IsFront.lexes {front : List Face} (h : IsFront front) {rest : List Char}
    {later : List Face} (hrest : rest.head?.all breaksSymbol = true) (hlater : Lexes rest later) :
    Lexes (textChars front ++ rest) (front ++ later) := by
  rcases h with rfl | rfl | ⟨isQualified, name, hname, rfl⟩
  · exact lexes_symbol (c := '[') (lexemeAt?_plainSymbol (by decide) rest) hlater
  · exact lexes_symbol (c := '(') (lexemeAt?_plainSymbol (by decide) rest) hlater
  · exact lexes_genericFaces hname hrest hlater

theorem IsBack.exists_lexes {back : Face} (h : IsBack back) (marks : List Mark)
    {rest : List Char} {later : List Face} (hrest : rest.head?.all followsType = true)
    (hlater : Lexes rest later) :
    ∃ marks' : List Mark, marks'.isEmpty = marks.isEmpty ∧
      Lexes (textChars (back :: markFaces marks) ++ rest)
        (back :: (markFaces marks' ++ later)) := by
  obtain ⟨marks', hempty, hmarks⟩ := exists_lexes_markFaces marks hrest hlater
  refine ⟨marks', hempty, ?_⟩
  have hnext : (textChars (markFaces marks) ++ rest).head? ≠ some '=' := by
    cases hchars : textChars (markFaces marks) with
    | nil =>
      intro heq
      rw [List.nil_append] at heq
      rw [heq] at hrest
      cases hrest
    | cons c cs =>
      have hc : c ∈ ['?', '!'] := mem_textChars_markFaces c (by rw [hchars]; exact List.mem_cons_self)
      simp only [List.mem_cons, List.not_mem_nil, or_false] at hc
      rcases hc with rfl | rfl <;> simp
  obtain ⟨symbol, hsymbol, rfl⟩ := h
  have htext : textChars (.symbol symbol :: markFaces marks) ++ rest =
      symbol.toList ++ (textChars (markFaces marks) ++ rest) := by
    simp [textChars, Face.symbol]
  rw [htext]
  simp only [List.mem_cons, List.not_mem_nil, or_false] at hsymbol
  rcases hsymbol with rfl | rfl | rfl
  · exact lexes_symbol (c := ']') (lexemeAt?_plainSymbol (by decide) _) hmarks
  · exact lexes_symbol (c := ')') (lexemeAt?_plainSymbol (by decide) _) hmarks
  · exact lexes_symbol (c := '>') (lexemeAt?_beforeEquals (by decide) hnext) hmarks

theorem IsBack.head?_textChars {back : Face} (h : IsBack back) (marks : List Mark)
    (rest : List Char) :
    (textChars (back :: markFaces marks) ++ rest).head?.all followsType = true := by
  obtain ⟨symbol, hsymbol, rfl⟩ := h
  simp only [List.mem_cons, List.not_mem_nil, or_false] at hsymbol
  rcases hsymbol with rfl | rfl | rfl
  all_goals rfl

theorem MapEnclosure.lexes_separator (enclosure : MapEnclosure) {rest : List Char}
    {later : List Face} (hlater : Lexes rest later) :
    Lexes (textChars [enclosure.separator] ++ ' ' :: rest) (enclosure.separator :: later) ∧
      (textChars [enclosure.separator] ++ ' ' :: rest).head?.all followsType = true := by
  have hspace : Lexes (' ' :: rest) later := lexes_blank (by decide) hlater
  obtain ⟨symbol, hmem, hsymbol⟩ := enclosure.exists_separator
  rw [hsymbol]
  simp only [List.mem_cons, List.not_mem_nil, or_false] at hmem
  rcases hmem with rfl | rfl
  · exact ⟨lexes_symbol (c := ':') (lexemeAt?_plainSymbol (by decide) _) hspace, rfl⟩
  · exact ⟨lexes_symbol (c := ',') (lexemeAt?_plainSymbol (by decide) _) hspace, rfl⟩

/-- A type starts with a letter, an underscore or a bracket. -/
theorem TypeTree.exists_cons_chars (tree : TypeTree) :
    ∃ c later, tree.chars = c :: later ∧ (isIdentStart c = true ∨ c = '[' ∨ c = '(') := by
  have hfront : ∀ {front : List Face}, IsFront front → ∀ more, ∃ c later,
      textChars front ++ more = c :: later ∧ (isIdentStart c = true ∨ c = '[' ∨ c = '(') := by
    intro front h more
    rcases h with rfl | rfl | ⟨isQualified, name, hname, rfl⟩
    · exact ⟨'[', more, rfl, .inr (.inl rfl)⟩
    · exact ⟨'(', more, rfl, .inr (.inr rfl)⟩
    · cases isQualified with
      | false =>
        obtain ⟨c, rest, hchars, hc⟩ := exists_cons_of_isIdentChars hname
        refine ⟨c, rest ++ '<' :: more, ?_, .inl hc⟩
        simp [textChars, genericFaces, Face.word, Face.symbol, hchars]
      | true => exact ⟨'S', _, rfl, .inl rfl⟩
  cases tree with
  | name name isDotted marks =>
    obtain ⟨c, later, hchars, hc⟩ := exists_cons_of_dotted (List.splitOn_ne_nil _ _) isDotted
    rw [List.intercalate_splitOn] at hchars
    exact ⟨c, later ++ _, by rw [chars, hchars]; rfl, .inl hc⟩
  | enclosed enclosure inner marks => exact hfront enclosure.isFront _
  | map enclosure key value marks => exact hfront enclosure.isFront _

theorem TypeTree.head?_chars_append (tree : TypeTree) (rest : List Char) :
    (tree.chars ++ rest).head?.all breaksSymbol = true := by
  obtain ⟨c, later, hchars, hc⟩ := tree.exists_cons_chars
  rw [hchars]
  rcases hc with hc | rfl | rfl
  · exact breaksSymbol_of_isIdentRest (isIdentRest_of_isIdentStart hc)
  · rfl
  · rfl

theorem head?_markFaces_breaksName (marks : List Mark) {rest : List Char}
    (hrest : rest.head?.all followsType = true) :
    (textChars (markFaces marks) ++ rest).head?.all breaksName = true := by
  have hbreak : ['?', '!', ']', ')', '>', ':', ','].all breaksName = true := by decide
  rw [List.all_eq_true] at hbreak
  cases hchars : textChars (markFaces marks) with
  | nil =>
    cases rest with
    | nil => rfl
    | cons c rest =>
      have hc : followsType c = true := hrest
      refine hbreak c (List.mem_cons_of_mem _ (List.mem_cons_of_mem _ ?_))
      exact List.contains_iff_mem.mp hc
  | cons c cs =>
    have hc : c ∈ ['?', '!'] := mem_textChars_markFaces c (by rw [hchars]; exact List.mem_cons_self)
    simp only [List.mem_cons, List.not_mem_nil, or_false] at hc
    exact hbreak c (by rcases hc with rfl | rfl <;> simp)

/-- The text of a type has the tokens of a type of the same meaning. -/
theorem TypeTree.exists_lexes_chars (tree : TypeTree) {rest : List Char} {later : List Face}
    (hrest : rest.head?.all followsType = true) (hlater : Lexes rest later) :
    ∃ tree' : TypeTree, tree'.meaning = tree.meaning ∧
      Lexes (tree.chars ++ rest) (tree'.faces ++ later) := by
  induction tree generalizing rest later with
  | name name isDotted marks =>
    obtain ⟨marks', hempty, hmarks⟩ := exists_lexes_markFaces marks hrest hlater
    have hdotted := lexes_dotted (List.splitOn_ne_nil '.' name.toList) isDotted
      (head?_markFaces_breaksName marks hrest) hmarks
    rw [List.intercalate_splitOn] at hdotted
    refine ⟨.name name isDotted marks', closeMarks_inj.mpr (.inr hempty), ?_⟩
    simpa [chars, faces] using hdotted
  | enclosed enclosure inner marks ih =>
    obtain ⟨marks', hempty, hback⟩ := enclosure.isBack.exists_lexes marks hrest hlater
    obtain ⟨inner', hinner, hlexes⟩ := ih (enclosure.isBack.head?_textChars marks rest) hback
    have hfront := enclosure.isFront.lexes (inner.head?_chars_append _) hlexes
    refine ⟨.enclosed enclosure inner' marks', ?_, ?_⟩
    · simp only [meaning, base, TypeTree.marks] at hinner ⊢
      rw [hinner]
      exact closeMarks_inj.mpr (.inr hempty)
    · simpa [chars, faces] using hfront
  | map enclosure key value marks ihkey ihvalue =>
    obtain ⟨marks', hempty, hback⟩ := enclosure.isBack.exists_lexes marks hrest hlater
    obtain ⟨value', hvalue, hlexes⟩ := ihvalue (enclosure.isBack.head?_textChars marks rest) hback
    obtain ⟨hseparator, hhead⟩ := enclosure.lexes_separator hlexes
    obtain ⟨key', hkey, hlexes'⟩ := ihkey hhead hseparator
    have hfront := enclosure.isFront.lexes (key.head?_chars_append _) hlexes'
    refine ⟨.map enclosure key' value' marks', ?_, ?_⟩
    · simp only [meaning, base, TypeTree.marks] at hkey hvalue ⊢
      rw [hkey, hvalue]
      exact closeMarks_inj.mpr (.inr hempty)
    · simpa [chars, faces] using hfront

/-- The text of a type is read as what the type means. -/
theorem TypeTree.readType_chars (tree : TypeTree) :
    readType (String.ofList tree.chars) = .ok tree.meaning := by
  have hend : ([] : List Char).head?.all followsType = true := rfl
  obtain ⟨tree', hmeaning, hlexes⟩ := tree.exists_lexes_chars hend lexes_nil
  rw [List.append_nil, List.append_nil] at hlexes
  refine readType_eq_ok_iff_exists_tree.mpr ⟨tree', ?_, hmeaning⟩
  rwa [String.toList_ofList]

/-! ## The ends of the text -/

theorem isBlank_of_mem_symbols {faces : List Face}
    (hfaces : ∀ face ∈ faces, ∃ symbol ∈ tightSymbols, face = .symbol symbol) :
    ∀ c ∈ textChars faces, isBlank c = false := by
  intro c hc
  obtain ⟨face, hface, hchar⟩ := List.mem_flatMap.mp hc
  obtain ⟨symbol, hsymbol, rfl⟩ := hfaces face hface
  have hsymbols : tightSymbols.all (fun symbol => symbol.toList.all (!isBlank ·)) = true := by
    decide
  have hnone := List.all_eq_true.mp (List.all_eq_true.mp hsymbols symbol hsymbol) c hchar
  simpa using hnone

/-- The text of a type does not end in white space. -/
theorem TypeTree.isBlank_getLast?_chars (tree : TypeTree) :
    ∀ c ∈ tree.chars.getLast?, isBlank c = false := by
  have hclosed : ∀ {front : List Char} {back : Face} {marks : List Mark}, IsBack back →
      ∀ c ∈ (front ++ textChars (back :: markFaces marks)).getLast?, isBlank c = false := by
    intro front back marks h c hc
    have hne : textChars (back :: markFaces marks) ≠ [] := by
      obtain ⟨symbol, hsymbol, rfl⟩ := h
      simp only [List.mem_cons, List.not_mem_nil, or_false] at hsymbol
      rcases hsymbol with rfl | rfl | rfl
      all_goals exact List.cons_ne_nil _ _
    rw [List.getLast?_append] at hc
    cases hlast : (textChars (back :: markFaces marks)).getLast? with
    | none => exact absurd (List.getLast?_eq_none_iff.mp hlast) hne
    | some d =>
      rw [hlast, Option.some_or] at hc
      cases hc
      exact isBlank_of_mem_symbols h.mem_markFaces c (List.mem_of_getLast? hlast)
  cases tree with
  | name name isDotted marks =>
    intro c hc
    rcases List.mem_append.mp (List.mem_of_getLast? hc) with hmem | hmem
    · exact isDotted.isBlank_of_mem c hmem
    · exact isBlank_of_mem_symbols mem_markFaces c hmem
  | enclosed enclosure inner marks =>
    rw [chars, ← List.append_assoc]
    exact hclosed enclosure.isBack
  | map enclosure key value marks =>
    rw [chars]
    simp only [← List.append_assoc, ← List.cons_append]
    exact hclosed enclosure.isBack

theorem TypeTree.trimChars_chars (tree : TypeTree) : Text.trimChars tree.chars = tree.chars := by
  refine Text.trimChars_of_ends (fun d hd => ?_) tree.isBlank_getLast?_chars
  obtain ⟨c, later, hchars, hc⟩ := tree.exists_cons_chars
  rw [hchars] at hd
  cases hd
  rcases hc with hc | rfl | rfl
  · exact isBlank_of_isIdentRest (isIdentRest_of_isIdentStart hc)
  · decide
  · decide

/-- A declaration keeps the text of the kept part of its type. -/
theorem readTypeText_kept (tree : TypeTree) {tokens rest : List Token}
    (htokens : tokens.map Token.face = tree.kept.faces) (hrest : rest.head?.all endsType = true)
    (hstart : tree.kept.StartsPlainly rest) :
    readTypeText (tokens ++ rest) = .ok (String.ofList tree.kept.chars, rest) := by
  have hchars := typeRunChars_tree tree.kept htokens
    (show ([] : List Token).head?.any _ = false from rfl)
  have hnil : typeRunChars [] = [] := rfl
  rw [hnil, List.append_nil, List.append_nil] at hchars
  refine bind_eq_ok_iff.mpr ⟨_, readTypeRun_kept tree htokens hrest hstart, ?_⟩
  dsimp only
  rw [hchars, tree.kept.trimChars_chars]
  rfl

end WireSchema.Swift
