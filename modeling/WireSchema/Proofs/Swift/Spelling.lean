import WireSchema.Proofs.Swift.Lexing

/-!
# How code is spelled

`Spells next text faces` says that a piece of code reads as tokens with the given faces
whatever comes after it, if only that starts with a character which `next` allows.
The spellings of pieces make up the spelling of a line, and those of lines the
spelling of a source. Pieces that never change are spelled by computation.
-/

namespace WireSchema.Swift

open Text (isIdentStart isIdentRest isIdentChars isIdentifier isBlank)

/-- The text reads as tokens of the given faces before any text that `next` allows. -/
def Spells (next : Char → Bool) (text : String) (faces : List Face) : Prop :=
  ∀ ⦃rest : List Char⦄ ⦃later : List Face⦄, rest.head?.all next = true → Lexes rest later →
    Lexes (text.toList ++ rest) (faces ++ later)

/-- Is the character no later part of a name? -/
def breaksName (c : Char) : Bool :=
  !isIdentRest c

/-- Is the character no later part of a name, of the mark of an optional type or of a literal? -/
def breaksWord (c : Char) : Bool :=
  !isIdentRest c && c != '?' && c != '"'

theorem breaksName_of_breaksWord {c : Char} (h : breaksWord c = true) : breaksName c = true := by
  simp only [breaksWord, Bool.and_eq_true] at h
  exact h.1.1

namespace Spells

variable {next next' : Char → Bool} {a b : String} {fs gs : List Face}

/-- Two pieces in a row, if the first may stand before the second. -/
theorem append (ha : Spells next a fs) (hb : Spells next' b gs)
    (hhead : b.toList.head?.any next = true) : Spells next' (a ++ b) (fs ++ gs) := by
  intro rest later hrest hlater
  rw [String.toList_append, List.append_assoc, List.append_assoc]
  refine ha ?_ (hb hrest hlater)
  cases hchars : b.toList with
  | nil => rw [hchars] at hhead; cases hhead
  | cons c cs => rw [hchars] at hhead; exact hhead

/-- Behind a space anything may come. -/
theorem space (ha : Spells next a fs) (hspace : next ' ' = true) (next' : Char → Bool) :
    Spells next' (a ++ " ") fs := by
  intro rest later _ hlater
  rw [String.toList_append, List.append_assoc]
  exact ha hspace (lexes_blank (by decide) hlater)

theorem mono (ha : Spells next a fs) (himp : ∀ c, next' c = true → next c = true) :
    Spells next' a fs := by
  intro rest later hrest hlater
  refine ha ?_ hlater
  cases rest with
  | nil => rfl
  | cons c cs => exact himp c hrest

end Spells

/-- One lexeme that is a whole piece. -/
theorem spells_lexeme {next : Char → Bool} {text : String} (kind : LexemeKind) {face : Face}
    (hlexeme : ∀ rest, rest.head?.all next = true →
      lexemeAt? (text.toList ++ rest) = some (kind, text.toList.length))
    (hface : Lexeme.face? ⟨kind, text.toList⟩ = some face) : Spells next text [face] := by
  intro rest later hrest hlater
  have happend := lexes_append (hlexeme rest hrest) hlater
  rw [hface] at happend
  exact happend

/-! ## Names and literals -/

theorem any_isIdentRest_of_all_breaksName {rest : List Char}
    (h : rest.head?.all breaksName = true) : rest.head?.any isIdentRest = false := by
  cases rest with
  | nil => rfl
  | cons c later =>
    have hc : (!isIdentRest c) = true := h
    simpa using hc

theorem head?_ne_of_all_breaksWord {rest : List Char} (h : rest.head?.all breaksWord = true) :
    rest.head? ≠ some '"' := by
  intro heq
  rw [heq] at h
  cases h

theorem spells_name {name : String} (h : isIdentifier name = true) :
    Spells breaksName name [.word name] := by
  refine spells_lexeme .name (fun rest hrest => ?_) ?_
  · exact lexemeAt?_name h (any_isIdentRest_of_all_breaksName hrest)
  · rw [Lexeme.face?, Lexeme.content?]
    simp [Face.word]

theorem spells_quotedName {name : String} (h : isIdentifier name = true) (next : Char → Bool) :
    Spells next ("\x60" ++ name ++ "\x60") [.word name] := by
  have hchars : ("\x60" ++ name ++ "\x60").toList = '\x60' :: (name.toList ++ ['\x60']) := by
    simp
  refine spells_lexeme .quotedName (fun rest _ => ?_) ?_
  · rw [hchars, lexemeAt?_quotedName h]
    simp
  · rw [hchars, Lexeme.face?, Lexeme.content?]
    simp [filter_backtick h, Face.word]

theorem spells_stringLiteral (text : String) :
    Spells breaksWord (stringLiteral text) [.quoted text] := by
  have hchars : (stringLiteral text).toList =
      '"' :: (text.toList.flatMap escapeChar ++ ['"']) := by
    rw [stringLiteral, String.toList_ofList, literalChars]
  refine spells_lexeme .string (fun rest hrest => ?_) ?_
  · rw [hchars, lexemeAt?_literal (quotedLength?_flatMap_escapeChar text.toList rest)
      (head?_flatMap_escapeChar text.toList) (head?_ne_of_all_breaksWord hrest)]
    simp
  · rw [Lexeme.face?, Lexeme.content?]
    simp [Face.quoted]

/-! ## Constant pieces -/

/-- The face of the name that the characters make, if there are any. -/
def nameFaces (name : List Char) : List Face :=
  if name.isEmpty then [] else [.word (String.ofList name)]

/-- The faces of a piece of code that holds nothing but names, symbols and white space; `name`
are the characters of the name before. -/
def constantFaces? (name : List Char) : List Char → Option (List Face)
  | [] => some (nameFaces name)
  | c :: rest =>
    if isIdentRest c then
      if name.isEmpty && !isIdentStart c then none else constantFaces? (name ++ [c]) rest
    else if isBlank c then (constantFaces? [] rest).map (nameFaces name ++ ·)
    else if plainSymbols.contains c ||
        (openSymbols.contains c && rest.head?.all breaksSymbol) then
      (constantFaces? [] rest).map fun later =>
        nameFaces name ++ .symbol (String.ofList [c]) :: later
    else none

def endsInName (cs : List Char) : Bool :=
  cs.getLast?.any isIdentRest

def IsNameSoFar (name : List Char) : Prop :=
  name = [] ∨ isIdentChars name = true

theorem IsNameSoFar.snoc {name : List Char} (h : IsNameSoFar name) {c : Char}
    (hc : isIdentRest c = true) (hstart : (name.isEmpty && !isIdentStart c) = false) :
    IsNameSoFar (name ++ [c]) := by
  rcases h with rfl | h
  · refine .inr ?_
    simpa [isIdentChars] using hstart
  · cases name with
    | nil => cases h
    | cons d later =>
      obtain ⟨hd, hlater⟩ := isIdentChars_cons h
      refine .inr ?_
      simp only [List.cons_append, isIdentChars, List.all_append, List.all_cons, List.all_nil,
        Bool.and_true, Bool.and_eq_true, List.all_eq_true]
      exact ⟨hd, hlater, hc⟩

/-- A name before something that is no part of it. -/
theorem lexes_identifier {name rest : List Char} {faces : List Face}
    (h : isIdentChars name = true) (hbreak : rest.head?.any isIdentRest = false)
    (hrest : Lexes rest faces) :
    Lexes (name ++ rest) (.word (String.ofList name) :: faces) :=
  lexes_append (lexemeAt?_name h hbreak) hrest

theorem lexes_name {name rest : List Char} {faces : List Face} (h : IsNameSoFar name)
    (hbreak : rest.head?.any isIdentRest = false) (hrest : Lexes rest faces) :
    Lexes (name ++ rest) (nameFaces name ++ faces) := by
  rcases h with rfl | h
  · exact hrest
  · have hne : name.isEmpty = false := by
      cases name with
      | nil => cases h
      | cons => rfl
    rw [nameFaces, hne]
    exact lexes_identifier h hbreak hrest

theorem lexes_symbol {c : Char} {rest : List Char} {faces : List Face}
    (hlexeme : lexemeAt? (c :: rest) = some (.symbol, 1)) (hrest : Lexes rest faces) :
    Lexes (c :: rest) (.symbol (String.ofList [c]) :: faces) := by
  have happend : Lexes ([c] ++ rest) ((Lexeme.face? ⟨.symbol, [c]⟩).toList ++ faces) :=
    lexes_append hlexeme hrest
  exact happend

theorem endsInName_of_isIdentChars {name : List Char} (h : isIdentChars name = true) :
    endsInName name = true := by
  rw [endsInName]
  cases hlast : name.getLast? with
  | none => rw [List.getLast?_eq_none_iff.mp hlast] at h; cases h
  | some c => exact isIdentRest_of_mem h c (List.mem_of_getLast? hlast)

theorem endsInName_append_cons (front : List Char) (c : Char) {cs : List Char}
    (h : endsInName cs = true) : endsInName (front ++ c :: cs) = true := by
  cases cs with
  | nil => cases h
  | cons d ds =>
    have hlast : (front ++ c :: d :: ds).getLast? = (d :: ds).getLast? := by
      rw [List.getLast?_append, List.getLast?_cons_cons, List.getLast?_cons]
      rfl
    rwa [endsInName, hlast]

/-- The symbols of a constant piece are never part of a longer one. -/
theorem lexemeAt?_constantSymbol {c : Char} {cs rest : List Char}
    (h : (plainSymbols.contains c || (openSymbols.contains c && cs.head?.all breaksSymbol)) = true)
    (hbreak : rest.head?.all breaksSymbol = true) :
    lexemeAt? (c :: (cs ++ rest)) = some (.symbol, 1) := by
  rcases (Bool.or_eq_true _ _).mp h with hplain | hopen
  · exact lexemeAt?_plainSymbol (List.contains_iff_mem.mp hplain) _
  · obtain ⟨hopen, hnext⟩ := (Bool.and_eq_true _ _).mp hopen
    refine lexemeAt?_openSymbol (List.contains_iff_mem.mp hopen) ?_
    cases cs with
    | nil => exact hbreak
    | cons d ds => exact hnext

/-- The characters of a constant piece are passed one by one, with the name so far before them. -/
theorem lexes_of_constantFaces? {name cs rest : List Char} {faces later : List Face}
    (hname : IsNameSoFar name) (h : constantFaces? name cs = some faces)
    (hbreak : rest.head?.all breaksSymbol = true)
    (hword : endsInName (name ++ cs) = true → rest.head?.any isIdentRest = false)
    (hrest : Lexes rest later) : Lexes (name ++ (cs ++ rest)) (faces ++ later) := by
  induction cs generalizing name faces with
  | nil =>
    cases h
    rcases hname with rfl | hname
    · exact hrest
    · rw [List.append_nil] at hword
      exact lexes_name (.inr hname) (hword (endsInName_of_isIdentChars hname)) hrest
  | cons c cs ih =>
    rw [constantFaces?] at h
    by_cases hc : isIdentRest c = true
    · rw [if_pos hc] at h
      split at h
      · cases h
      · next hstart =>
        have hsnoc := ih (hname.snoc hc (by simpa using hstart)) h (by simpa using hword)
        simpa using hsnoc
    · rw [if_neg hc] at h
      -- what is no part of a name ends the one before it, and the next one starts afresh
      have hfresh {after : List Face} (hafter : constantFaces? [] cs = some after) :
          Lexes (cs ++ rest) (after ++ later) :=
        ih (.inl rfl) hafter fun hends => hword (endsInName_append_cons name c hends)
      have hany : (c :: (cs ++ rest)).head?.any isIdentRest = false := by simpa using hc
      by_cases hblank : isBlank c = true
      · rw [if_pos hblank] at h
        obtain ⟨after, hafter, rfl⟩ := Option.map_eq_some_iff.mp h
        rw [List.append_assoc]
        exact lexes_name hname hany (lexes_blank hblank (hfresh hafter))
      · rw [if_neg hblank] at h
        split at h
        · next hsymbol =>
          obtain ⟨after, hafter, rfl⟩ := Option.map_eq_some_iff.mp h
          have hlexeme := lexemeAt?_constantSymbol hsymbol hbreak
          rw [List.append_assoc]
          exact lexes_name hname hany (lexes_symbol hlexeme (hfresh hafter))
        · cases h

-- A constant is given by its characters: a literal is unified with `String.ofList`, while taking
-- it apart by `String.toList` would decode it byte by byte.
theorem spells_constant {cs : List Char} {faces : List Face}
    (h : constantFaces? [] cs = some faces) (hends : endsInName cs = false) :
    Spells breaksSymbol (String.ofList cs) faces := by
  intro rest later hbreak hrest
  rw [String.toList_ofList]
  refine lexes_of_constantFaces? (.inl rfl) h hbreak (fun hname => ?_) hrest
  rw [List.nil_append, hends] at hname
  cases hname

/-- A constant piece that may end in a name. -/
theorem spells_constantName {cs : List Char} {faces : List Face}
    (h : constantFaces? [] cs = some faces) :
    Spells (fun c => breaksSymbol c && breaksName c) (String.ofList cs) faces := by
  intro rest later hbreak hrest
  rw [String.toList_ofList]
  have hboth : rest.head?.all breaksSymbol = true ∧ rest.head?.all breaksName = true := by
    cases rest with
    | nil => exact ⟨rfl, rfl⟩
    | cons c cs => exact (Bool.and_eq_true _ _).mp hbreak
  exact lexes_of_constantFaces? (.inl rfl) h hboth.1
    (fun _ => any_isIdentRest_of_all_breaksName hboth.2) hrest

/-! ## Lines -/

def lineChars (lines : List String) : List Char :=
  lines.flatMap fun line => line.toList ++ ['\n']

/-- The lines read as tokens of the given faces before any text. -/
def SpellsLines (lines : List String) (faces : List Face) : Prop :=
  ∀ ⦃rest : List Char⦄ ⦃later : List Face⦄, Lexes rest later →
    Lexes (lineChars lines ++ rest) (faces ++ later)

theorem Spells.line {next : Char → Bool} {text : String} {faces : List Face}
    (h : Spells next text faces) (hnext : next '\n' = true) : SpellsLines [text] faces := by
  intro rest later hrest
  have hfeed : Lexes ('\n' :: rest) later := lexes_blank (by decide) hrest
  have hline : Lexes (text.toList ++ '\n' :: rest) (faces ++ later) := h hnext hfeed
  simpa [lineChars] using hline

namespace SpellsLines

theorem nil : SpellsLines [] [] :=
  fun _ _ hrest => hrest

theorem append {lines lines' : List String} {fs gs : List Face} (h : SpellsLines lines fs)
    (h' : SpellsLines lines' gs) : SpellsLines (lines ++ lines') (fs ++ gs) := by
  intro rest later hrest
  have happend := h (h' hrest)
  simpa [lineChars] using happend

theorem cons {line : String} {lines : List String} {fs gs : List Face}
    (h : SpellsLines [line] fs) (h' : SpellsLines lines gs) :
    SpellsLines (line :: lines) (fs ++ gs) :=
  h.append h'

theorem flatMap {α : Type} {as : List α} {f : α → List String} {g : α → List Face}
    (h : ∀ a ∈ as, SpellsLines (f a) (g a)) : SpellsLines (as.flatMap f) (as.flatMap g) := by
  induction as with
  | nil => exact nil
  | cons a later ih =>
    exact (h a List.mem_cons_self).append (ih fun b hb => h b (List.mem_cons_of_mem a hb))

/-- Lines that are one for each element. -/
theorem map {α : Type} {as : List α} {f : α → String} {g : α → List Face}
    (h : ∀ a ∈ as, SpellsLines [f a] (g a)) : SpellsLines (as.map f) (as.flatMap g) := by
  induction as with
  | nil => exact nil
  | cons a later ih =>
    exact (h a List.mem_cons_self).cons (ih fun b hb => h b (List.mem_cons_of_mem a hb))

/-- A line that never changes. -/
theorem constant {cs : List Char} {faces : List Face} (h : constantFaces? [] cs = some faces) :
    SpellsLines [String.ofList cs] faces := by
  intro rest later hrest
  have hfeed : Lexes ('\n' :: rest) later := lexes_blank (by decide) hrest
  have hline : Lexes (cs ++ '\n' :: rest) (faces ++ later) :=
    lexes_of_constantFaces? (.inl rfl) h rfl (fun _ => rfl) hfeed
  simpa [lineChars] using hline

/-- Lines that never change. -/
theorem exists_constants {lines : List String}
    (h : lines.all (fun line => (constantFaces? [] line.toList).isSome) = true) :
    ∃ faces, SpellsLines lines faces := by
  induction lines with
  | nil => exact ⟨[], nil⟩
  | cons line later ih =>
    rw [List.all_cons, Bool.and_eq_true] at h
    obtain ⟨faces, hfaces⟩ := Option.isSome_iff_exists.mp h.1
    obtain ⟨more, hmore⟩ := ih h.2
    have hline := constant hfaces
    rw [String.ofList_toList] at hline
    exact ⟨faces ++ more, append hline hmore⟩

/-- A line of documentation. -/
theorem docLine {indent : String} {line : List Char} {body : String}
    (hindent : indent.toList.all isBlank = true)
    (hbody : body.toList = ['/', '/', '/'] ++ line) (hline : '\n' ∉ line) :
    SpellsLines [indent ++ body] [.doc (String.ofList (docLineText line))] := by
  intro rest later hrest
  have hfeed : Lexes ('\n' :: rest) later := lexes_blank (by decide) hrest
  have hdoc : Lexes (body.toList ++ '\n' :: rest)
      (.doc (String.ofList (docLineText line)) :: later) := by
    have hlexeme := lexemeAt?_docLine hline rest
    rw [← hbody, show line.length + 3 = body.toList.length by simp [hbody]] at hlexeme
    have happend := lexes_append hlexeme hfeed
    rw [hbody] at happend ⊢
    exact happend
  have hwhole : Lexes (indent.toList ++ (body.toList ++ '\n' :: rest))
      (.doc (String.ofList (docLineText line)) :: later) := by
    generalize indent.toList = blanks at hindent
    induction blanks with
    | nil => exact hdoc
    | cons c blanks ih =>
      obtain ⟨hblank, hblanks⟩ := (Bool.and_eq_true _ _).mp hindent
      exact lexes_blank hblank (ih hblanks)
  simpa [lineChars] using hwhole

/-- A comment that is no documentation. -/
theorem comment {text : String} {line : List Char} (htext : text.toList = ['/', '/'] ++ line)
    (hhead : line.head?.all (fun c => c != '/') = true) (hline : '\n' ∉ line) :
    SpellsLines [text] [] := by
  intro rest later hrest
  have hfeed : Lexes ('\n' :: rest) later := lexes_blank (by decide) hrest
  have hlexeme := lexemeAt?_comment hline hhead rest
  rw [← htext, show line.length + 2 = text.toList.length by simp [htext]] at hlexeme
  have happend : Lexes (text.toList ++ '\n' :: rest) later := lexes_append hlexeme hfeed
  simpa [lineChars] using happend

end SpellsLines

/-! ## Sources -/

theorem map_face_placeLexemes (at_ : Position) (lexemes : List Lexeme) :
    (placeLexemes at_ lexemes).1.map Token.face = lexemes.filterMap Lexeme.face? := by
  induction lexemes generalizing at_ with
  | nil => rfl
  | cons lexeme later ih =>
    have hface : Lexeme.face? lexeme = (lexeme.token? at_).map Token.face := by
      rw [Lexeme.face?, Lexeme.token?, Option.map_map]
      rfl
    rw [placeLexemes, List.map_append, ih, List.filterMap_cons, hface]
    cases lexeme.token? at_ with
    | none => rfl
    | some token => rfl

/-- A text made of lexemes has tokens, and they have the faces of those. -/
theorem tokenize_of_lexes {text : String} {faces : List Face} (h : Lexes text.toList faces) :
    ∃ stream, tokenize text = .ok stream ∧ stream.tokens.map Token.face = faces := by
  obtain ⟨hrest, hfaces⟩ := h
  have hplaced := map_face_placeLexemes .start (splitLexemes text.toList).1
  refine ⟨⟨(placeLexemes .start (splitLexemes text.toList).1).1,
    (placeLexemes .start (splitLexemes text.toList).1).2⟩, ?_, hplaced.trans hfaces⟩
  unfold tokenize
  dsimp only
  rw [hrest]
  rfl

/-- A source of lines that are spelled. -/
theorem tokenize_of_spellsLines {text : String} {lines : List String} {faces : List Face}
    (htext : text.toList = lineChars lines) (h : SpellsLines lines faces) :
    ∃ stream, tokenize text = .ok stream ∧ stream.tokens.map Token.face = faces := by
  have hlexes := h lexes_nil
  rw [List.append_nil, List.append_nil, ← htext] at hlexes
  exact tokenize_of_lexes hlexes

end WireSchema.Swift
