import Mathlib.Data.List.Induction
import Mathlib.Data.List.ReduceOption
import WireSchema.Proofs.Swift.LexemeLengths
import WireSchema.Swift.Token

/-!
# Where tokens stand

Places are counted on from lexeme to lexeme. What comes out is the place of each token in the
text: its line is found by counting the line feeds before it, its column by counting back to
the last of them. The tokens are those of the lexemes that are neither white space nor
comments without documentation, and a text that is not made of lexemes is refused at the place
where none starts.
-/

namespace WireSchema.Swift

open Text (isIdentStart isIdentRest isDecimalDigit isBlank)

/-! ## Places -/

def Position.ofText (before : List Char) : Position :=
  ⟨1 + before.count '\n', 1 + (before.reverse.takeWhile (· != '\n')).length⟩

/-- Counting on character by character gives the place behind the text. -/
theorem Position.after_start (cs : List Char) : Position.start.after cs = .ofText cs := by
  induction cs using List.reverseRecOn with
  | nil => rfl
  | append_singleton cs c ih =>
    have hstep : Position.start.after (cs ++ [c]) = (Position.start.after cs).next c := by
      simp [after]
    rw [hstep, ih, next]
    by_cases hc : c = '\n'
    · simp [hc, ofText, Nat.add_assoc]
    · simp [hc, ofText, Nat.add_comm]

theorem Position.after_append (at_ : Position) (cs rest : List Char) :
    at_.after (cs ++ rest) = (at_.after cs).after rest :=
  List.foldl_append

/-! ## Tokens in order -/

/-- The tokens of lexemes that make up the front of a text, each at the place behind all that
comes before its lexeme. -/
def placedTokens (lexemes : List Lexeme) : List Token :=
  (lexemes.mapIdx fun i lexeme =>
    lexeme.token? (.ofText ((lexemes.take i).flatMap Lexeme.chars))).reduceOption

/-- What is placed behind a text counts on from the place behind it. -/
theorem placeLexemes_eq (earlier lexemes : List Lexeme) :
    placeLexemes (.ofText (earlier.flatMap Lexeme.chars)) lexemes =
      ((lexemes.mapIdx fun i lexeme =>
          lexeme.token? (.ofText ((earlier ++ lexemes.take i).flatMap Lexeme.chars))).reduceOption,
        .ofText ((earlier ++ lexemes).flatMap Lexeme.chars)) := by
  induction lexemes generalizing earlier with
  | nil => simp [placeLexemes]
  | cons lexeme later ih =>
    have hnext : (Position.ofText (earlier.flatMap Lexeme.chars)).after lexeme.chars =
        .ofText ((earlier ++ [lexeme]).flatMap Lexeme.chars) := by
      rw [← Position.after_start, ← Position.after_start, ← Position.after_append]
      simp
    rw [placeLexemes, hnext, ih, List.mapIdx_cons]
    simp only [List.append_assoc, List.singleton_append, List.take_zero, List.append_nil,
      List.take_succ_cons, Prod.mk.injEq, and_true]
    cases lexeme.token? (.ofText (earlier.flatMap Lexeme.chars)) with
    | none => rfl
    | some token => rfl

theorem placeLexemes_start (lexemes : List Lexeme) :
    placeLexemes .start lexemes =
      (placedTokens lexemes, .ofText (lexemes.flatMap Lexeme.chars)) :=
  placeLexemes_eq [] lexemes

/-! ## Lexemes without a token -/

/-- White space, or a comment that is no documentation. -/
def IsTrivia (chars : List Char) : Prop :=
  (∀ c ∈ chars, isBlank c = true) ∨
    (['/', '/'] <+: chars ∧ ¬ ['/', '/', '/'] <+: chars) ∨
    (['/', '*'] <+: chars ∧ ¬ (['/', '*', '*'] <+: chars ∧ 4 < chars.length))

/-- May a lexeme other than white space and comments start with this character? -/
def startsCode (c : Char) : Bool :=
  c == '"' || c == '\x60' || isIdentStart c || isDecimalDigit c || shortSymbols.contains c

theorem startsCode_of_isBlank {c : Char} (h : isBlank c = true) : startsCode c = false := by
  have hpoints : ∀ n ∈ blankPoints, startsCode (Char.ofNat n) = false := by decide
  have hpoint := hpoints c.toNat (toNat_mem_blankPoints h)
  rwa [Char.ofNat_toNat] at hpoint

structure StartsAsCode (chars : List Char) : Prop where
  head : chars.head?.any startsCode = true
  notLine : ¬ ['/', '/'] <+: chars
  notBlock : ¬ ['/', '*'] <+: chars

theorem StartsAsCode.not_isTrivia {chars : List Char} (h : StartsAsCode chars) : ¬ IsTrivia chars := by
  rintro (hblank | ⟨hline, -⟩ | ⟨hblock, -⟩)
  · cases chars with
    | nil => exact absurd h.head (by decide)
    | cons c rest =>
      have hc : startsCode c = true := h.head
      rw [startsCode_of_isBlank (hblank c List.mem_cons_self)] at hc
      cases hc
  · exact h.notLine hline
  · exact h.notBlock hblock

theorem startsAsCode_cons {c : Char} (h : startsCode c = true) (hslash : c ≠ '/') (rest : List Char) :
    StartsAsCode (c :: rest) where
  head := h
  notLine hprefix := hslash (List.cons_prefix_cons.mp hprefix).1.symm
  notBlock hprefix := hslash (List.cons_prefix_cons.mp hprefix).1.symm

theorem startsCode_of_isIdentStart {c : Char} (h : isIdentStart c = true) : startsCode c = true := by
  simp [startsCode, h]

theorem startsCode_of_isDecimalDigit {c : Char} (h : isDecimalDigit c = true) :
    startsCode c = true := by
  simp [startsCode, h]

theorem startsAsCode_of_mem_symbolWords {chars : List Char} (h : chars ∈ symbolWords) :
    StartsAsCode chars := by
  rcases h with hlong | ⟨c, hc, rfl⟩
  · have hlongs : ∀ symbol ∈ longSymbols, symbol.head?.any startsCode = true ∧
        ¬ ['/', '/'] <+: symbol ∧ ¬ ['/', '*'] <+: symbol := by decide
    obtain ⟨hhead, hline, hblock⟩ := hlongs chars hlong
    exact ⟨hhead, hline, hblock⟩
  · have hstart : startsCode c = true := by simp only [startsCode, hc, Bool.or_true]
    refine ⟨hstart, fun hprefix => ?_, fun hprefix => ?_⟩
    all_goals exact absurd hprefix.length_le (by simp)

/-- The lexemes that are neither white space nor comments start as code. -/
theorem startsAsCode_of_mem_words {rule : LexicalRule} (hrule : rule ∈ lexicalGrammar)
    (hkind : rule.kind ∉ [.docLine, .docBlock, .comment, .blank]) {chars : List Char}
    (h : chars ∈ rule.words) : StartsAsCode chars := by
  simp only [lexicalGrammar, List.mem_cons, List.not_mem_nil, or_false] at hrule
  rcases hrule with rfl | rfl | rfl | rfl | rfl | rfl | rfl | rfl | rfl | rfl | rfl | rfl
  -- comments
  · exact absurd hkind (by decide)
  · exact absurd hkind (by decide)
  · exact absurd hkind (by decide)
  · exact absurd hkind (by decide)
  -- literals, and names between backticks
  · obtain ⟨rest, -, rfl⟩ := Words.mem_exactly_mul.mp h
    exact startsAsCode_cons (c := '"') (by decide) (by decide) _
  · obtain ⟨rest, -, rfl⟩ := Words.mem_exactly_mul.mp h
    exact startsAsCode_cons (c := '"') (by decide) (by decide) _
  · obtain ⟨rest, -, rfl⟩ := Words.mem_exactly_mul.mp h
    exact startsAsCode_cons (c := '\x60') (by decide) (by decide) _
  -- names
  · obtain ⟨c, rest, hc, -, rfl⟩ := Words.mem_oneOf_mul_many.mp h
    refine startsAsCode_cons (startsCode_of_isIdentStart hc) ?_ rest
    rintro rfl
    exact absurd hc (by decide)
  -- numbers
  · obtain ⟨rest, -, rfl⟩ := Words.mem_exactly_mul.mp h
    exact startsAsCode_cons (c := '0') (by decide) (by decide) _
  · obtain ⟨_, hdigits, rest, -, rfl⟩ := Language.mem_mul.mp h
    obtain ⟨d, digits, hd, -, rfl⟩ := Words.mem_oneOf_mul_many.mp hdigits
    refine startsAsCode_cons (startsCode_of_isDecimalDigit hd) ?_ _
    rintro rfl
    exact absurd hd (by decide)
  · exact startsAsCode_of_mem_symbolWords h
  -- white space
  · exact absurd hkind (by decide)

/-- A comment of one line that is documentation. -/
theorem not_isTrivia_docLine {chars : List Char} (h : ['/', '/', '/'] <+: chars) :
    ¬ IsTrivia chars := by
  obtain ⟨rest, rfl⟩ := h
  rintro (hblank | ⟨-, hline⟩ | ⟨hblock, -⟩)
  · exact absurd (hblank '/' (by simp)) (by decide)
  · exact hline (List.prefix_append _ _)
  · simp at hblock

/-- A comment between marks that is documentation. -/
theorem not_isTrivia_docBlock {chars : List Char} (h : ['/', '*', '*'] <+: chars)
    (hlong : 4 < chars.length) : ¬ IsTrivia chars := by
  obtain ⟨rest, rfl⟩ := h
  rintro (hblank | ⟨hline, -⟩ | ⟨-, hblock⟩)
  · exact absurd (hblank '/' (by simp)) (by decide)
  · simp at hline
  · exact hblock ⟨List.prefix_append _ _, hlong⟩

theorem IsFirstLexeme.exists_rule {cs : List Char} {lexeme : Lexeme} (h : IsFirstLexeme cs lexeme) :
    ∃ rule ∈ lexicalGrammar, rule.kind = lexeme.kind ∧ lexeme.chars ∈ rule.words := by
  obtain ⟨earlier, rule, later, hgrammar, -, hkind, htakes⟩ := h
  exact ⟨rule, by simp [hgrammar], hkind, htakes.isWord⟩

theorem IsFirstLexeme.isPrefix {cs : List Char} {lexeme : Lexeme} (h : IsFirstLexeme cs lexeme) :
    lexeme.chars <+: cs := by
  obtain ⟨_, _, _, -, -, -, htakes⟩ := h
  exact htakes.isPrefix

/-- A comment is ordinary only where no documentation is. -/
theorem IsFirstLexeme.not_doc {cs : List Char} {lexeme : Lexeme} (h : IsFirstLexeme cs lexeme)
    (hkind : lexeme.kind = .comment) :
    (∀ word ∈ docLineWords, ¬ word <+: cs) ∧ ∀ word ∈ docBlockWords, ¬ word <+: cs := by
  obtain ⟨earlier, rule, later, hgrammar, hearlier, hrule, -⟩ := h
  rw [hkind] at hrule
  match earlier with
  | [] =>
    cases hgrammar
    cases hrule
  | [_] =>
    cases hgrammar
    cases hrule
  | _ :: _ :: more =>
    obtain ⟨rfl, htail⟩ := List.cons.inj hgrammar
    obtain ⟨rfl, -⟩ := List.cons.inj htail
    exact ⟨hearlier _ List.mem_cons_self, hearlier _ (List.mem_cons_of_mem _ List.mem_cons_self)⟩

theorem mem_docLineWords {word : List Char} (h : word ∈ lineCommentWords)
    (hmark : ['/', '/', '/'] <+: word) : word ∈ docLineWords := by
  obtain ⟨rest, hrest, rfl⟩ := Words.mem_exactly_mul.mp h
  obtain ⟨later, rfl⟩ : ['/'] <+: rest := by
    simpa using (List.prefix_append_right_inj ['/', '/']).mp hmark
  refine Words.mem_exactly_mul.mpr ⟨later, Words.mem_many.mpr fun c hc => ?_, rfl⟩
  exact Words.mem_many.mp hrest c (List.mem_append_right _ hc)

/-- An ordinary comment with the mark of documentation is some, unless the mark is all of it. -/
theorem mem_docBlockWords {word : List Char} (h : word ∈ blockCommentWords)
    (hmark : ['/', '*', '*'] <+: word) (hlong : 4 < word.length) : word ∈ docBlockWords := by
  obtain ⟨_, hrest, rfl⟩ := Words.mem_exactly_mul.mp h
  obtain ⟨front, -, rfl⟩ := Words.mem_mul_exactly.mp hrest
  cases front with
  | nil => exact absurd hlong (by decide)
  | cons c later =>
    have hc : ['*'] <+: c :: (later ++ "*/".toList) :=
      (List.prefix_append_right_inj ['/', '*']).mp hmark
    obtain rfl : '*' = c := (List.cons_prefix_cons.mp hc).1
    exact Words.mem_exactly_mul.mpr ⟨_, Words.mem_mul_exactly.mpr ⟨later, trivial, rfl⟩, rfl⟩

/-- What a lexeme is that is no code. -/
theorem IsFirstLexeme.comment_cases {cs : List Char} {lexeme : Lexeme} (h : IsFirstLexeme cs lexeme)
    (hkind : lexeme.kind ∈ [LexemeKind.docLine, .docBlock, .comment, .blank]) :
    (lexeme.kind = .docLine ∧ lexeme.chars ∈ docLineWords) ∨
      (lexeme.kind = .docBlock ∧ Extent.shortest.Takes docBlockWords cs lexeme.chars) ∨
      (lexeme.kind = .comment ∧ lexeme.chars ∈ lineCommentWords) ∨
      (lexeme.kind = .comment ∧ Extent.shortest.Takes blockCommentWords cs lexeme.chars) ∨
      (lexeme.kind = .blank ∧ lexeme.chars ∈ Words.atLeastOne isBlank) := by
  obtain ⟨earlier, rule, later, hgrammar, -, hsame, htakes⟩ := h
  have hrule : rule ∈ lexicalGrammar := by simp [hgrammar]
  rw [← hsame] at hkind ⊢
  clear hgrammar hsame
  simp only [lexicalGrammar, List.mem_cons, List.not_mem_nil, or_false] at hrule
  rcases hrule with rfl | rfl | rfl | rfl | rfl | rfl | rfl | rfl | rfl | rfl | rfl | rfl
  case inl => exact .inl ⟨rfl, htakes.isWord⟩
  case inr.inl => exact .inr (.inl ⟨rfl, htakes⟩)
  case inr.inr.inl => exact .inr (.inr (.inl ⟨rfl, htakes.isWord⟩))
  case inr.inr.inr.inl => exact .inr (.inr (.inr (.inl ⟨rfl, htakes⟩)))
  case inr.inr.inr.inr.inr.inr.inr.inr.inr.inr.inr =>
    exact .inr (.inr (.inr (.inr ⟨rfl, htakes.isWord⟩)))
  all_goals simp at hkind

/-- Comments and white space make a token exactly if they are documentation. -/
theorem IsFirstLexeme.isTrivia_iff_of_comment {cs : List Char} {lexeme : Lexeme}
    (h : IsFirstLexeme cs lexeme)
    (hkind : lexeme.kind ∈ [LexemeKind.docLine, .docBlock, .comment, .blank]) :
    IsTrivia lexeme.chars ↔ lexeme.kind = .comment ∨ lexeme.kind = .blank := by
  rcases h.comment_cases hkind with ⟨hsame, hword⟩ | ⟨hsame, htakes⟩ | ⟨hsame, hword⟩ |
    ⟨hsame, htakes⟩ | ⟨hsame, hword⟩
  -- documentation
  · obtain ⟨rest, -, hchars⟩ := Words.mem_exactly_mul.mp hword
    exact iff_of_false (not_isTrivia_docLine ⟨rest, hchars.symm⟩) (by simp [hsame])
  · obtain ⟨_, hrest, hchars⟩ := Words.mem_exactly_mul.mp htakes.isWord
    obtain ⟨front, -, rfl⟩ := Words.mem_mul_exactly.mp hrest
    refine iff_of_false (not_isTrivia_docBlock ⟨_, hchars.symm⟩ ?_) (by simp [hsame])
    rw [hchars]
    simp
  -- comments, which are no documentation because that is tried first
  · obtain ⟨rest, -, hchars⟩ := Words.mem_exactly_mul.mp hword
    refine iff_of_true (.inr (.inl ⟨⟨rest, hchars.symm⟩, fun hmark => ?_⟩)) (.inl hsame)
    exact (h.not_doc hsame).1 _ (mem_docLineWords hword hmark) h.isPrefix
  · obtain ⟨rest, -, hchars⟩ := Words.mem_exactly_mul.mp htakes.isWord
    refine iff_of_true (.inr (.inr ⟨⟨rest, hchars.symm⟩, fun ⟨hmark, hlong⟩ => ?_⟩)) (.inl hsame)
    exact (h.not_doc hsame).2 _ (mem_docBlockWords htakes.isWord hmark hlong) htakes.isPrefix
  -- white space
  · exact iff_of_true (.inl (Words.mem_atLeastOne.mp hword).2) (.inr hsame)

/-- A lexeme makes no token exactly if it is white space or a comment without documentation. -/
theorem IsFirstLexeme.content?_eq_none_iff {cs : List Char} {lexeme : Lexeme}
    (h : IsFirstLexeme cs lexeme) : lexeme.content? = none ↔ IsTrivia lexeme.chars := by
  have hcontent : lexeme.content? = none ↔ lexeme.kind = .comment ∨ lexeme.kind = .blank := by
    rw [Lexeme.content?]
    cases lexeme.kind <;> simp
  rw [hcontent]
  by_cases hkind : lexeme.kind ∈ [LexemeKind.docLine, .docBlock, .comment, .blank]
  · exact (h.isTrivia_iff_of_comment hkind).symm
  · obtain ⟨rule, hrule, hsame, hword⟩ := h.exists_rule
    have hcode := startsAsCode_of_mem_words hrule (by rwa [hsame]) hword
    refine iff_of_false ?_ hcode.not_isTrivia
    rintro (hkind' | hkind') <;> simp [hkind'] at hkind

/-! ## Whole texts -/

theorem tokenize_eq (text : String) :
    tokenize text =
      if (splitLexemes text.toList).2 = [] then
        .ok ⟨placedTokens (splitLexemes text.toList).1,
          .ofText ((splitLexemes text.toList).1.flatMap Lexeme.chars)⟩
      else
        .error ⟨.stray (String.ofList (strayChars (splitLexemes text.toList).2)),
          .ofText ((splitLexemes text.toList).1.flatMap Lexeme.chars)⟩ := by
  unfold tokenize
  dsimp only
  rw [placeLexemes_start]
  simp only [List.isEmpty_iff]

/-- A text is cut into lexemes in one way. If they make up all of it, its tokens are those of
the lexemes that are no trivia, each at the place where its lexeme starts, and the end is the
place behind the text. If not, it is refused at the place where no further lexeme starts. -/
theorem tokenize_places (text : String) :
    ∃ lexemes stray, CutInto text.toList lexemes stray ∧
      (∀ lexemes' stray', CutInto text.toList lexemes' stray' →
        lexemes' = lexemes ∧ stray' = stray) ∧
      text.toList = lexemes.flatMap Lexeme.chars ++ stray ∧
      (∀ lexeme ∈ lexemes, lexeme.chars ≠ [] ∧
        (lexeme.content? = none ↔ IsTrivia lexeme.chars)) ∧
      (stray = [] → tokenize text = .ok ⟨placedTokens lexemes, .ofText text.toList⟩) ∧
      (stray ≠ [] → tokenize text = .error
        ⟨.stray (String.ofList (strayChars stray)), .ofText (lexemes.flatMap Lexeme.chars)⟩) := by
  have hcut := cutInto_splitLexemes text.toList
  have happend := hcut.eq_append
  refine ⟨_, _, hcut, fun _ _ => hcut.unique, happend, fun lexeme hmem => ⟨?_, ?_⟩, ?_, ?_⟩
  · exact chars_ne_nil_of_mem_splitLexemes hmem
  · obtain ⟨before, after, hlexemes⟩ := List.append_of_mem hmem
    rw [hlexemes] at hcut
    exact hcut.isFirstLexeme.content?_eq_none_iff
  · intro hstray
    rw [hstray, List.append_nil] at happend
    rw [tokenize_eq, if_pos hstray, ← happend]
  · intro hstray
    rw [tokenize_eq, if_neg hstray]

/-! ## Literals -/

/-- The literal for a text is one lexeme. -/
theorem splitLexemes_literalChars (cs : List Char) :
    splitLexemes (literalChars cs) = ([⟨.string, literalChars cs⟩], []) := by
  have hat : lexemeAt? (literalChars cs) = some (.string, (literalChars cs).length) := by
    have hliteral := lexemeAt?_literal (quotedLength?_flatMap_escapeChar cs [])
      (head?_flatMap_escapeChar cs) (show ([] : List Char).head? ≠ some '"' from nofun)
    rw [List.append_nil] at hliteral
    rw [literalChars, hliteral, List.length_cons, List.length_append, List.length_singleton]
  rw [splitLexemes_eq hat, List.take_length, List.drop_length, splitLexemes_of_none lexemeAt?_nil]

/-- Any text written as a literal is one token, which stands for the text. -/
theorem tokenize_stringLiteral (text : String) :
    tokenize (stringLiteral text) =
        .ok ⟨[⟨.string, stringLiteral text, .start⟩], .ofText (stringLiteral text).toList⟩ ∧
      stringValue (stringLiteral text) = text := by
  refine ⟨?_, stringValue_stringLiteral text⟩
  have hchars : (stringLiteral text).toList = literalChars text.toList := String.toList_ofList
  rw [tokenize_eq, hchars, splitLexemes_literalChars, if_pos rfl]
  simp [placedTokens, Lexeme.token?, Lexeme.content?, stringLiteral, Position.ofText,
    Position.start]

end WireSchema.Swift
