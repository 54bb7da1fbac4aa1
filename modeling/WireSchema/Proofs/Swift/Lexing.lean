import WireSchema.Proofs.Swift.Literal
import WireSchema.Swift.Token

/-!
# Lexing what is written

The parser sees of a token its kind and its text, its face. `Lexes cs faces` says that
a text is made of lexemes whose tokens have the given faces. For each kind of lexeme
that generated code holds there is a lemma that says where it ends.
-/

namespace WireSchema.Swift

open Text (isIdentStart isIdentRest isIdentChars isIdentifier isBlank)

/-- What the parser sees of a token. -/
abbrev Face := TokenKind × String

namespace Face

def token (face : Face) (at_ : Position) : Token := ⟨face.1, face.2, at_⟩

def word (text : String) : Face := (.identifier, text)

def symbol (text : String) : Face := (.punctuation, text)

def quoted (text : String) : Face := (.string, stringLiteral text)

def doc (text : String) : Face := (.doc, text)

end Face

def Token.face (token : Token) : Face := (token.kind, token.text)

def Lexeme.face? (lexeme : Lexeme) : Option Face :=
  lexeme.content?.map fun (kind, chars) => (kind, String.ofList chars)

/-- The text is made of lexemes, and their tokens have the given faces. -/
def Lexes (cs : List Char) (faces : List Face) : Prop :=
  (splitLexemes cs).2 = [] ∧ (splitLexemes cs).1.filterMap Lexeme.face? = faces

/-! ## One lexeme after the other -/

theorem splitLexemes_eq {cs : List Char} {kind : LexemeKind} {n : Nat}
    (h : lexemeAt? cs = some (kind, n)) :
    splitLexemes cs =
      (⟨kind, cs.take n⟩ :: (splitLexemes (cs.drop n)).1, (splitLexemes (cs.drop n)).2) := by
  rw [splitLexemes]
  split
  · next kind' n' found =>
    rw [h] at found
    cases found
    rfl
  · next found =>
    rw [h] at found
    cases found

theorem splitLexemes_of_none {cs : List Char} (h : lexemeAt? cs = none) :
    splitLexemes cs = ([], cs) := by
  rw [splitLexemes]
  split
  · next found =>
    rw [h] at found
    cases found
  · rfl

theorem lexes_nil : Lexes [] [] := by
  rw [Lexes, splitLexemes_of_none lexemeAt?_nil]
  exact ⟨rfl, rfl⟩

/-- A text that starts with a lexeme. -/
theorem lexes_append {lexeme rest : List Char} {kind : LexemeKind} {faces : List Face}
    (hlexeme : lexemeAt? (lexeme ++ rest) = some (kind, lexeme.length)) (hrest : Lexes rest faces) :
    Lexes (lexeme ++ rest) ((Lexeme.face? ⟨kind, lexeme⟩).toList ++ faces) := by
  rw [Lexes, splitLexemes_eq hlexeme, List.take_left, List.drop_left]
  refine ⟨hrest.1, ?_⟩
  rw [← hrest.2]
  cases hface : Lexeme.face? ⟨kind, lexeme⟩ with
  | none => rw [List.filterMap_cons_none hface]; rfl
  | some face => rw [List.filterMap_cons_some hface]; rfl

theorem isPrefixOf_of_ne {h c : Char} (hne : h ≠ c) (hs rest : List Char) :
    (h :: hs).isPrefixOf (c :: rest) = false := by
  rw [List.isPrefixOf, beq_false_of_ne hne, Bool.false_and]

theorem headedLength?_of_ne {h c : Char} (hne : h ≠ c) (hs rest : List Char)
    (tailLength? : List Char → Option Nat) :
    headedLength? (h :: hs) tailLength? (c :: rest) = none := by
  rw [headedLength?, Text.stripStart?, isPrefixOf_of_ne hne]
  rfl

/-- The lexeme at the front of a text that starts with no comment, literal or backtick. -/
theorem lexemeAt?_cons {c : Char} (hslash : '/' ≠ c) (hquote : '"' ≠ c) (htick : '\x60' ≠ c)
    (rest : List Char) :
    lexemeAt? (c :: rest) =
      [(LexemeKind.name, nameLength?), (.number, hexLength?), (.number, decimalLength?),
        (.symbol, symbolLength?), (.blank, blankLength?)].findSome? fun rule =>
          (rule.2 (c :: rest)).map fun n => (rule.1, n) := by
  simp only [lexemeAt?, lexemeRules, List.findSome?_cons, headedLength?_of_ne hslash,
    headedLength?_of_ne hquote, headedLength?_of_ne htick, Option.map_none]

/-! ### White space -/

def blankPoints : List Nat :=
  [0x09, 0x0A, 0x0B, 0x0C, 0x0D, 0x20, 0x85, 0xA0, 0x1680, 0x2000, 0x2001, 0x2002, 0x2003, 0x2004,
    0x2005, 0x2006, 0x2007, 0x2008, 0x2009, 0x200A, 0x2028, 0x2029, 0x202F, 0x205F, 0x3000]

theorem toNat_mem_blankPoints {c : Char} (h : isBlank c = true) : c.toNat ∈ blankPoints := by
  simp only [isBlank, Bool.or_eq_true, Bool.and_eq_true, decide_eq_true_eq, beq_iff_eq] at h
  simp only [blankPoints, List.mem_cons, List.not_mem_nil, or_false]
  omega

/-- White space is a lexeme of its own, up to the next character that is none. -/
theorem lexemeAt?_ofNat {n : Nat} (h : n ∈ blankPoints) (rest : List Char) :
    lexemeAt? (Char.ofNat n :: rest) = some (.blank, 1 + runLength isBlank rest) := by
  simp only [blankPoints, List.mem_cons, List.not_mem_nil, or_false] at h
  rcases h with rfl | rfl | rfl | rfl | rfl | rfl | rfl | rfl | rfl | rfl | rfl | rfl | rfl | rfl |
    rfl | rfl | rfl | rfl | rfl | rfl | rfl | rfl | rfl | rfl | rfl
  all_goals rfl

theorem lexemeAt?_blank {c : Char} (h : isBlank c = true) (rest : List Char) :
    lexemeAt? (c :: rest) = some (.blank, 1 + runLength isBlank rest) := by
  have hpoint := lexemeAt?_ofNat (toNat_mem_blankPoints h) rest
  rwa [Char.ofNat_toNat] at hpoint

theorem take_runLength (p : Char → Bool) (cs : List Char) :
    cs.take (runLength p cs) = cs.takeWhile p :=
  (List.prefix_iff_eq_take.mp (List.takeWhile_prefix p)).symm

theorem splitLexemes_blank {c : Char} (h : isBlank c = true) (rest : List Char) :
    splitLexemes (c :: rest) =
      (⟨.blank, c :: rest.takeWhile isBlank⟩ :: (splitLexemes (rest.dropWhile isBlank)).1,
        (splitLexemes (rest.dropWhile isBlank)).2) := by
  have hdrop : rest.drop (runLength isBlank rest) = rest.dropWhile isBlank := by
    calc
      rest.drop (rest.takeWhile isBlank).length =
          (rest.takeWhile isBlank ++ rest.dropWhile isBlank).drop
            (rest.takeWhile isBlank).length := by rw [List.takeWhile_append_dropWhile]
      _ = rest.dropWhile isBlank := List.drop_left
  rw [splitLexemes_eq (lexemeAt?_blank h rest), Nat.add_comm, List.take_succ_cons,
    List.drop_succ_cons, take_runLength, hdrop]

/-- White space before a text makes no token. -/
theorem lexes_blank {c : Char} (h : isBlank c = true) {rest : List Char} {faces : List Face}
    (hrest : Lexes rest faces) : Lexes (c :: rest) faces := by
  rw [Lexes, splitLexemes_blank h]
  cases rest with
  | nil => exact hrest
  | cons d later =>
    cases hd : isBlank d with
    | true =>
      rw [Lexes, splitLexemes_blank hd] at hrest
      rw [List.dropWhile_cons_of_pos hd]
      exact hrest
    | false =>
      rw [List.dropWhile_cons_of_neg (by simp [hd])]
      exact hrest

/-! ### Symbols -/

/-- Symbols that are never the start of a longer one. -/
def plainSymbols : List Char :=
  ['\x7b', '\x7d', '(', ')', '[', ']', ':', ';', ',', '@', '#', '+', '*', '%', '^', '~', '\\', '$',
    '\'']

/-- Symbols that may be the start of a longer one. -/
def openSymbols : List Char := ['-', '.', '=', '!', '<', '>', '&', '|', '?']

/-- Is the character no later part of a symbol? -/
def breaksSymbol (c : Char) : Bool :=
  !(['>', '.', '=', '&', '|', '?'].contains c)

theorem lexemeAt?_plainSymbol {c : Char} (h : c ∈ plainSymbols) (rest : List Char) :
    lexemeAt? (c :: rest) = some (.symbol, 1) := by
  simp only [plainSymbols, List.mem_cons, List.not_mem_nil, or_false] at h
  rcases h with rfl | rfl | rfl | rfl | rfl | rfl | rfl | rfl | rfl | rfl | rfl | rfl | rfl | rfl |
    rfl | rfl | rfl | rfl | rfl
  all_goals rfl

/-- The mark of an optional type before anything but a second one. -/
theorem lexemeAt?_question {rest : List Char} (hrest : rest.head? ≠ some '?') :
    lexemeAt? ('?' :: rest) = some (.symbol, 1) := by
  have hlength : symbolLength? ('?' :: rest) = some 1 := by
    cases rest with
    | nil => rfl
    | cons d later =>
      have hd : d ≠ '?' := fun hd => hrest (by rw [hd]; rfl)
      have hfind : longSymbols.find? (fun symbol => symbol.isPrefixOf ('?' :: d :: later)) =
          none := by
        simp [longSymbols, List.isPrefixOf, hd.symm]
      rw [symbolLength?, hfind]
      rfl
  rw [lexemeAt?_cons (by decide) (by decide) (by decide)]
  simp only [List.findSome?_cons, hlength]
  rfl

theorem find?_longSymbols {d : Char} (h : breaksSymbol d = true) (c : Char) (rest : List Char) :
    longSymbols.find? (fun symbol => symbol.isPrefixOf (c :: d :: rest)) = none := by
  simp only [breaksSymbol, List.contains_cons, Bool.not_eq_true', Bool.or_eq_false_iff,
    beq_eq_false_iff_ne, ne_eq] at h
  obtain ⟨h₁, h₂, h₃, h₄, h₅, h₆, -⟩ := h
  simp [longSymbols, List.isPrefixOf, Ne.symm h₁, Ne.symm h₂, Ne.symm h₃, Ne.symm h₄, Ne.symm h₅,
    Ne.symm h₆]

theorem symbolLength?_openSymbol {c : Char} (h : c ∈ openSymbols) {rest : List Char}
    (hrest : rest.head?.all breaksSymbol = true) : symbolLength? (c :: rest) = some 1 := by
  cases rest with
  | nil =>
    simp only [openSymbols, List.mem_cons, List.not_mem_nil, or_false] at h
    rcases h with rfl | rfl | rfl | rfl | rfl | rfl | rfl | rfl | rfl
    all_goals rfl
  | cons d later =>
    have hshort : shortSymbols.contains c = true :=
      List.all_eq_true.mp (show openSymbols.all shortSymbols.contains = true from rfl) c h
    rw [symbolLength?, find?_longSymbols hrest]
    simp [List.contains_iff_mem.mp hshort]

theorem lexemeAt?_openSymbol {c : Char} (h : c ∈ openSymbols) {rest : List Char}
    (hrest : rest.head?.all breaksSymbol = true) :
    lexemeAt? (c :: rest) = some (.symbol, 1) := by
  have hlength := symbolLength?_openSymbol h hrest
  simp only [openSymbols, List.mem_cons, List.not_mem_nil, or_false] at h
  rcases h with rfl | rfl | rfl | rfl | rfl | rfl | rfl | rfl | rfl
  all_goals
    rw [lexemeAt?_cons (by decide) (by decide) (by decide)]
    simp only [List.findSome?_cons, hlength]
    rfl

/-! ### Names -/

theorem runLength_append {p : Char → Bool} {cs rest : List Char} (h : ∀ c ∈ cs, p c = true)
    (hrest : rest.head?.any p = false) : runLength p (cs ++ rest) = cs.length := by
  rw [runLength, List.takeWhile_append_of_pos h, List.length_append]
  cases rest with
  | nil => rfl
  | cons d later =>
    rw [List.takeWhile_cons_of_neg (by simpa using hrest)]
    rfl

theorem isIdentChars_cons {c : Char} {cs : List Char} (h : isIdentChars (c :: cs) = true) :
    isIdentStart c = true ∧ ∀ d ∈ cs, isIdentRest d = true := by
  rw [isIdentChars, Bool.and_eq_true, List.all_eq_true] at h
  exact h

theorem isIdentRest_of_isIdentStart {c : Char} (h : isIdentStart c = true) :
    isIdentRest c = true := by
  have hstart : (c.isAlpha || c == '_') = true := h
  show (c.isAlpha || c.isDigit || c == '_') = true
  rcases (Bool.or_eq_true _ _).mp hstart with halpha | hunderscore
  · rw [halpha, Bool.true_or, Bool.true_or]
  · rw [hunderscore, Bool.or_true]

theorem isIdentRest_of_mem {cs : List Char} (h : isIdentChars cs = true) :
    ∀ c ∈ cs, isIdentRest c = true := by
  cases cs with
  | nil => cases h
  | cons c rest =>
    obtain ⟨hstart, hrest⟩ := isIdentChars_cons h
    intro d hd
    rcases List.mem_cons.mp hd with rfl | hd
    · exact isIdentRest_of_isIdentStart hstart
    · exact hrest d hd

/-- Names do not start with what starts a comment or a literal. -/
theorem ne_of_isIdentRest {c d : Char} (h : isIdentRest c = true) (hd : isIdentRest d = false) :
    d ≠ c := by
  rintro rfl
  rw [h] at hd
  cases hd

theorem nameLength?_append {cs rest : List Char} (h : isIdentChars cs = true)
    (hrest : rest.head?.any isIdentRest = false) :
    nameLength? (cs ++ rest) = some cs.length := by
  cases cs with
  | nil => cases h
  | cons c later =>
    obtain ⟨hstart, hlater⟩ := isIdentChars_cons h
    rw [List.cons_append, nameLength?, if_pos hstart, runLength_append hlater hrest,
      List.length_cons, Nat.add_comm]

theorem lexemeAt?_name {cs rest : List Char} (h : isIdentChars cs = true)
    (hrest : rest.head?.any isIdentRest = false) :
    lexemeAt? (cs ++ rest) = some (.name, cs.length) := by
  have hlength := nameLength?_append h hrest
  cases cs with
  | nil => cases h
  | cons c later =>
    have hc := isIdentRest_of_mem h c List.mem_cons_self
    rw [List.cons_append] at hlength ⊢
    rw [lexemeAt?_cons (ne_of_isIdentRest hc (by decide)) (ne_of_isIdentRest hc (by decide))
      (ne_of_isIdentRest hc (by decide))]
    simp only [List.findSome?_cons, hlength]
    rfl

theorem filter_backtick {cs : List Char} (h : isIdentChars cs = true) :
    ('\x60' :: (cs ++ ['\x60'])).filter (· != '\x60') = cs := by
  have hcs : cs.filter (· != '\x60') = cs := by
    refine List.filter_eq_self.mpr fun c hc => ?_
    have hne := ne_of_isIdentRest (isIdentRest_of_mem h c hc) (d := '\x60') (by decide)
    simpa using hne.symm
  rw [List.filter_cons_of_neg (by decide), List.filter_append, hcs]
  simp

theorem lexemeAt?_quotedName {cs : List Char} (h : isIdentChars cs = true) (rest : List Char) :
    lexemeAt? ('\x60' :: (cs ++ ['\x60']) ++ rest) = some (.quotedName, cs.length + 2) := by
  have hlength : backtickedLength? (cs ++ '\x60' :: rest) = some (cs.length + 1) := by
    rw [backtickedLength?,
      nameLength?_append h (show ('\x60' :: rest).head?.any isIdentRest = false from rfl)]
    simp
  have hheaded : headedLength? ['\x60'] backtickedLength? ('\x60' :: (cs ++ '\x60' :: rest)) =
      some (cs.length + 2) := by
    rw [headedLength?, show '\x60' :: (cs ++ '\x60' :: rest) = ['\x60'] ++ (cs ++ '\x60' :: rest)
      from rfl, Text.stripStart?_append, Option.bind_some, hlength]
    simp only [Option.map_some, List.length_singleton]
    congr 1
    omega
  simp only [List.cons_append, List.append_assoc, List.nil_append]
  simp only [lexemeAt?, lexemeRules, List.findSome?_cons, headedLength?_of_ne, hheaded, ne_eq,
    Char.reduceEq, not_false_eq_true, Option.map_none, Option.map_some]

/-! ### Literals and comments -/

theorem headedLength?_append (head cs : List Char) (tailLength? : List Char → Option Nat) :
    headedLength? head tailLength? (head ++ cs) = (tailLength? cs).map (head.length + ·) := by
  rw [headedLength?, Text.stripStart?_append, Option.bind_some]

/-- A literal that no third quote follows is not one between three quotes. -/
theorem headedLength?_threeQuotes {body rest : List Char} (hbody : body.head? ≠ some '"')
    (hrest : rest.head? ≠ some '"') (tailLength? : List Char → Option Nat) :
    headedLength? ['"', '"', '"'] tailLength? ('"' :: (body ++ '"' :: rest)) = none := by
  have hprefix : ['"', '"', '"'].isPrefixOf ('"' :: (body ++ '"' :: rest)) = false := by
    cases body with
    | nil =>
      cases rest with
      | nil => rfl
      | cons d later =>
        have hd : '"' ≠ d := fun hd => hrest (by rw [hd]; rfl)
        exact isPrefixOf_of_ne hd [] later
    | cons d later =>
      have hd : '"' ≠ d := fun hd => hbody (by rw [hd]; rfl)
      exact isPrefixOf_of_ne hd ['"'] (later ++ '"' :: rest)
  rw [headedLength?, Text.stripStart?, hprefix]
  rfl

/-- A literal ends at the quote that `quotedLength?` finds. -/
theorem lexemeAt?_literal {body rest : List Char}
    (hlength : quotedLength? (body ++ '"' :: rest) = some (body.length + 1))
    (hbody : body.head? ≠ some '"') (hrest : rest.head? ≠ some '"') :
    lexemeAt? ('"' :: (body ++ ['"']) ++ rest) = some (.string, body.length + 2) := by
  have hheaded : headedLength? ['"'] quotedLength? ('"' :: (body ++ '"' :: rest)) =
      some (body.length + 2) := by
    have happend := headedLength?_append ['"'] (body ++ '"' :: rest) quotedLength?
    rw [hlength] at happend
    simpa [Nat.add_comm 1] using happend
  simp only [List.cons_append, List.append_assoc, List.nil_append]
  simp only [lexemeAt?, lexemeRules, List.findSome?_cons, headedLength?_of_ne,
    headedLength?_threeQuotes hbody hrest, hheaded, ne_eq, Char.reduceEq, not_false_eq_true,
    Option.map_none, Option.map_some]

theorem lineLength?_append {line : List Char} (h : '\n' ∉ line) (rest : List Char) :
    lineLength? (line ++ '\n' :: rest) = some line.length := by
  have hline : ∀ c ∈ line, (c != '\n') = true := by
    intro c hc
    have hne : c ≠ '\n' := fun heq => h (by rw [← heq]; exact hc)
    simpa using hne
  rw [lineLength?, runLength_append hline rfl]

theorem lexemeAt?_docLine {line : List Char} (h : '\n' ∉ line) (rest : List Char) :
    lexemeAt? (['/', '/', '/'] ++ line ++ '\n' :: rest) = some (.docLine, line.length + 3) := by
  have hheaded := headedLength?_append ['/', '/', '/'] (line ++ '\n' :: rest) lineLength?
  rw [lineLength?_append h] at hheaded
  rw [List.append_assoc]
  simp only [lexemeAt?, lexemeRules, List.findSome?_cons, hheaded, Option.map_some]
  simp [Nat.add_comm]

/-- Two slashes start a comment unless a third slash or a star comes after them. -/
theorem lexemeAt?_comment {line : List Char} (h : '\n' ∉ line)
    (hhead : line.head?.all (fun c => c != '/') = true) (rest : List Char) :
    lexemeAt? (['/', '/'] ++ line ++ '\n' :: rest) = some (.comment, line.length + 2) := by
  have hheaded := headedLength?_append ['/', '/'] (line ++ '\n' :: rest) lineLength?
  rw [lineLength?_append h] at hheaded
  have hdoc : headedLength? ['/', '/', '/'] lineLength?
      (['/', '/'] ++ (line ++ '\n' :: rest)) = none := by
    have hprefix : ['/', '/', '/'].isPrefixOf (['/', '/'] ++ (line ++ '\n' :: rest)) = false := by
      cases line with
      | nil => rfl
      | cons d later =>
        have hd : d ≠ '/' := by simpa using hhead
        exact isPrefixOf_of_ne hd.symm [] (later ++ '\n' :: rest)
    rw [headedLength?, Text.stripStart?, hprefix]
    rfl
  have hblock : headedLength? ['/', '*', '*'] (lengthThrough? ['*', '/'])
      (['/', '/'] ++ (line ++ '\n' :: rest)) = none := rfl
  rw [List.append_assoc]
  simp only [lexemeAt?, lexemeRules, List.findSome?_cons, hheaded, hdoc, hblock, Option.map_none,
    Option.map_some]
  simp [Nat.add_comm]

end WireSchema.Swift
