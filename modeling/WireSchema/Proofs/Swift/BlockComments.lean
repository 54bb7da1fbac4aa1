import WireSchema.Proofs.Swift.Positions

/-!
# Where comments end

A comment that opens with `/*` ends at the first closing mark behind its opening one, so it is
the shortest stretch of at least four characters that ends in `*/`. There is one exception: an
empty comment `/**/` may also be the opening mark of a documentation comment together with the
first character of its text, and that reading is tried first. It is taken whenever another
closing mark follows anywhere, and all text up to there is documentation.
-/

namespace WireSchema.Swift

/-! ## Closed stretches -/

/-- The stretches of at least the given length that end in a closing mark. -/
def closedWords (least : Nat) : Language Char :=
  {cs | least ≤ cs.length ∧ ['*', '/'] <:+ cs}

def emptyComment : List Char := ['/', '*', '*', '/']

/-- Does the text start with an empty comment and go on to another closing mark? -/
def HidesText (here : List Char) : Prop :=
  emptyComment <+: here ∧ ['*', '/'] <:+: here.drop emptyComment.length

theorem closedWords_mono {least more : Nat} (h : least ≤ more) {cs : List Char}
    (hcs : cs ∈ closedWords more) : cs ∈ closedWords least :=
  ⟨h.trans hcs.1, hcs.2⟩

section

variable (mark : String) {here word : List Char}

theorem mem_closedWords_of_marked (h : word ∈ Words.exactly mark * (⊤ * Words.exactly "*/")) :
    word ∈ closedWords (mark.toList.length + 2) := by
  obtain ⟨_, hrest, rfl⟩ := Words.mem_exactly_mul.mp h
  obtain ⟨front, -, rfl⟩ := Words.mem_mul_exactly.mp hrest
  refine ⟨?_, ⟨mark.toList ++ front, by simp⟩⟩
  rw [List.length_append, List.length_append]
  exact Nat.add_le_add_left (Nat.le_add_left 2 front.length) _

/-- Behind an opening mark the comments are the stretches that are closed behind it. -/
theorem mem_marked_of_closedWords (hmark : mark.toList <+: here) (hword : word <+: here)
    (h : word ∈ closedWords (mark.toList.length + 2)) :
    word ∈ Words.exactly mark * (⊤ * Words.exactly "*/") := by
  obtain ⟨hlong, hclosed⟩ := h
  have hfront : mark.toList <+: word :=
    List.prefix_of_prefix_length_le hmark hword (by omega)
  obtain ⟨rest, rfl⟩ := hfront
  have hend : ['*', '/'] <:+ rest := by
    refine List.suffix_of_suffix_length_le hclosed (List.suffix_append _ _) ?_
    rw [List.length_append] at hlong
    show 2 ≤ rest.length
    omega
  obtain ⟨front, rfl⟩ := hend
  exact Words.mem_exactly_mul.mpr ⟨_, Words.mem_mul_exactly.mpr ⟨front, trivial, rfl⟩, rfl⟩

theorem takes_closedWords_of_marked (hmark : mark.toList <+: here)
    (h : Extent.shortest.Takes (Words.exactly mark * (⊤ * Words.exactly "*/")) here word) :
    Extent.shortest.Takes (closedWords (mark.toList.length + 2)) here word where
  isWord := mem_closedWords_of_marked mark h.isWord
  isPrefix := h.isPrefix
  preferred other hother hprefix :=
    h.preferred other (mem_marked_of_closedWords mark hmark hprefix hother) hprefix

end

/-! ## The two rules for comments between marks -/

variable {here : List Char} {lexeme : Lexeme}

/-- The lexeme is taken by a rule that is tried no later than one that finds a word. -/
theorem IsFirstLexeme.exists_rule_of_matches (h : IsFirstLexeme here lexeme)
    {front rest : List LexicalRule} (hgrammar : lexicalGrammar = front ++ rest)
    (hmatches : ∃ rule ∈ front, ∃ word ∈ rule.words, word <+: here) :
    ∃ rule ∈ front, lexeme.chars ∈ rule.words := by
  obtain ⟨earlier, rule, later, hgrammar', hearlier, -, htakes⟩ := h
  obtain ⟨found, hfound, word, hword, hprefix⟩ := hmatches
  rcases List.append_eq_append_iff.mp (hgrammar'.symm.trans hgrammar) with
    ⟨between, rfl, hrest⟩ | ⟨between, rfl, -⟩
  · cases between with
    | nil =>
      rw [List.append_nil] at hfound
      exact absurd hprefix (hearlier found hfound word hword)
    | cons first between =>
      cases hrest
      exact ⟨rule, by simp, htakes.isWord⟩
  · exact absurd hprefix (hearlier found (List.mem_append_left _ hfound) word hword)

/-- A lexeme that opens with the mark of a comment is the documentation that closes first, or
there is none and it is the comment that closes first. -/
theorem IsFirstLexeme.blockComment_cases (h : IsFirstLexeme here lexeme)
    (hopen : ['/', '*'] <+: lexeme.chars) :
    (lexeme.kind = .docBlock ∧ Extent.shortest.Takes docBlockWords here lexeme.chars) ∨
      (lexeme.kind = .comment ∧ Extent.shortest.Takes blockCommentWords here lexeme.chars ∧
        ∀ word ∈ docBlockWords, ¬ word <+: here) := by
  by_cases hkind : lexeme.kind ∈ [LexemeKind.docLine, .docBlock, .comment, .blank]
  · rcases h.comment_cases hkind with ⟨-, hword⟩ | ⟨hsame, htakes⟩ | ⟨-, hword⟩ |
      ⟨hsame, htakes⟩ | ⟨-, hword⟩
    · obtain ⟨rest, -, hchars⟩ := Words.mem_exactly_mul.mp hword
      simp [hchars] at hopen
    · exact .inl ⟨hsame, htakes⟩
    · obtain ⟨rest, -, hchars⟩ := Words.mem_exactly_mul.mp hword
      simp [hchars] at hopen
    · exact .inr ⟨hsame, htakes, (h.not_doc hsame).2⟩
    · have hslash := (Words.mem_atLeastOne.mp hword).2 '/' (hopen.subset (by simp))
      exact absurd hslash (by decide)
  · obtain ⟨rule, hrule, hsame, hword⟩ := h.exists_rule
    exact absurd hopen (startsAsCode_of_mem_words hrule (by rwa [hsame]) hword).notBlock

/-- Where an empty comment stands a comment is cut off. -/
theorem IsFirstLexeme.opens_of_emptyComment (h : IsFirstLexeme here lexeme)
    (hempty : emptyComment <+: here) : ['/', '*'] <+: lexeme.chars := by
  have hword : emptyComment ∈ blockCommentWords :=
    Words.mem_exactly_mul.mpr ⟨['*', '/'], Words.mem_mul_exactly.mpr ⟨[], trivial, rfl⟩, rfl⟩
  have hprefix := h.isPrefix
  obtain ⟨rule, hrule, hchars⟩ :=
    h.exists_rule_of_matches (List.take_append_drop 4 lexicalGrammar).symm
      ⟨⟨.comment, blockCommentWords, .shortest⟩, by simp [lexicalGrammar], emptyComment, hword,
        hempty⟩
  obtain ⟨tail, rfl⟩ := hempty
  simp only [lexicalGrammar, List.take_succ_cons, List.take_zero, List.mem_cons, List.not_mem_nil,
    or_false] at hrule
  rcases hrule with rfl | rfl | rfl | rfl
  all_goals
    obtain ⟨rest, -, hchars⟩ := Words.mem_exactly_mul.mp hchars
    rw [hchars] at hprefix ⊢
  · simp [emptyComment] at hprefix
  · exact ⟨'*' :: rest, rfl⟩
  · simp [emptyComment] at hprefix
  · exact ⟨rest, rfl⟩

/-! ## Where a comment closes -/

/-- Documentation starts where an empty comment stands exactly if another mark follows. -/
theorem exists_docBlock_iff_hidesText (hempty : emptyComment <+: here) :
    (∃ word ∈ docBlockWords, word <+: here) ↔ HidesText here := by
  obtain ⟨tail, rfl⟩ := hempty
  have hdrop : (emptyComment ++ tail).drop emptyComment.length = tail := List.drop_left
  rw [HidesText, hdrop]
  constructor
  · rintro ⟨word, hword, hprefix⟩
    obtain ⟨_, hrest, rfl⟩ := Words.mem_exactly_mul.mp hword
    obtain ⟨front, -, rfl⟩ := Words.mem_mul_exactly.mp hrest
    refine ⟨List.prefix_append _ _, ?_⟩
    cases front with
    | nil => simp [emptyComment] at hprefix
    | cons c front =>
      have hfront : c = '/' ∧ front ++ ['*', '/'] <+: tail := by
        simpa [emptyComment] using hprefix
      exact (List.suffix_append front _).isInfix.trans hfront.2.isInfix
  · rintro ⟨-, before, after, rfl⟩
    refine ⟨"/**".toList ++ ('/' :: before ++ "*/".toList), ?_, after, ?_⟩
    · exact Words.mem_exactly_mul.mpr ⟨_, Words.mem_mul_exactly.mpr ⟨_, trivial, rfl⟩, rfl⟩
    · simp [emptyComment]

theorem emptyComment_mem_closedWords : emptyComment ∈ closedWords 4 :=
  ⟨Nat.le_refl 4, ⟨['/', '*'], rfl⟩⟩

theorem eq_emptyComment_of_length {word : List Char} (hfour : word.length = 4)
    (hmark : ['/', '*', '*'] <+: word) (hclosed : ['*', '/'] <:+ word) : word = emptyComment := by
  obtain ⟨rest, rfl⟩ := hmark
  obtain ⟨c, rfl⟩ : ∃ c, rest = [c] := by
    simp only [List.length_append, List.length_cons, List.length_nil] at hfour
    exact List.length_eq_one_iff.mp (by omega)
  have hc : '/' = c := by simpa [List.suffix_cons_iff] using hclosed
  rw [← hc]
  rfl

/-- Documentation is the shortest closed stretch too unless it starts with an empty comment. -/
theorem docBlock_takes_closedWords {word : List Char}
    (h : Extent.shortest.Takes docBlockWords here word) :
    Extent.shortest.Takes (closedWords 5) here word ∧
      (Extent.shortest.Takes (closedWords 4) here word ↔ ¬ emptyComment <+: here) := by
  obtain ⟨rest, -, hrest⟩ := Words.mem_exactly_mul.mp h.isWord
  have hmark : ['/', '*', '*'] <+: here :=
    (show ['/', '*', '*'] <+: word from ⟨rest, hrest.symm⟩).trans h.isPrefix
  have hfive : Extent.shortest.Takes (closedWords 5) here word :=
    takes_closedWords_of_marked "/**" hmark h
  refine ⟨hfive, fun hfour hempty => ?_, fun hempty => ?_⟩
  · have hle : word.length ≤ 4 := hfour.preferred emptyComment emptyComment_mem_closedWords hempty
    have hlong := hfive.isWord.1
    omega
  · refine ⟨closedWords_mono (by decide) hfive.isWord, h.isPrefix, fun other hother hprefix => ?_⟩
    rcases Nat.lt_or_eq_of_le hother.1 with hlong | hshort
    · exact hfive.preferred other ⟨hlong, hother.2⟩ hprefix
    · have hfront : ['/', '*', '*'] <+: other :=
        List.prefix_of_prefix_length_le hmark hprefix (hshort ▸ by decide)
      rw [eq_emptyComment_of_length hshort.symm hfront hother.2] at hprefix
      exact absurd hprefix hempty

namespace IsFirstLexeme

theorem takes_closedWords_iff (h : IsFirstLexeme here lexeme)
    (hopen : ['/', '*'] <+: lexeme.chars) :
    Extent.shortest.Takes (closedWords 4) here lexeme.chars ↔ ¬ HidesText here := by
  rcases h.blockComment_cases hopen with ⟨-, hdoc⟩ | ⟨-, hcomment, hnone⟩
  · rw [(docBlock_takes_closedWords hdoc).2]
    refine not_congr ⟨fun hempty => ?_, And.left⟩
    exact (exists_docBlock_iff_hidesText hempty).mp ⟨_, hdoc.isWord, hdoc.isPrefix⟩
  · refine iff_of_true (takes_closedWords_of_marked "/*" (hopen.trans hcomment.isPrefix) hcomment) ?_
    intro hhides
    obtain ⟨word, hword, hprefix⟩ := (exists_docBlock_iff_hidesText hhides.1).mpr hhides
    exact hnone word hword hprefix

/-- An empty comment that no closing mark follows is a comment of its own. -/
theorem eq_emptyComment (h : IsFirstLexeme here lexeme) (hempty : emptyComment <+: here)
    (hhides : ¬ HidesText here) : lexeme.chars = emptyComment ∧ lexeme.content? = none := by
  rcases h.blockComment_cases (h.opens_of_emptyComment hempty) with ⟨-, hdoc⟩ | ⟨hkind, hcomment, -⟩
  · exact absurd ((exists_docBlock_iff_hidesText hempty).mp ⟨_, hdoc.isWord, hdoc.isPrefix⟩) hhides
  · have hword := (h.takes_closedWords_iff (h.opens_of_emptyComment hempty)).mpr hhides
    have hempty' : Extent.shortest.Takes (closedWords 4) here emptyComment :=
      ⟨emptyComment_mem_closedWords, hempty, fun other hother _ => hother.1⟩
    exact ⟨hword.unique hempty', by simp [Lexeme.content?, hkind]⟩

/-- An empty comment that a closing mark follows is documentation up to it. -/
theorem doc_of_hidesText (h : IsFirstLexeme here lexeme) (hhides : HidesText here) :
    Extent.shortest.Takes (closedWords 5) here lexeme.chars ∧
      ∃ doc, lexeme.content? = some (.doc, doc) := by
  rcases h.blockComment_cases (h.opens_of_emptyComment hhides.1) with ⟨hkind, hdoc⟩ | ⟨-, -, hnone⟩
  · exact ⟨(docBlock_takes_closedWords hdoc).1, _, by simp only [Lexeme.content?, hkind]; rfl⟩
  · obtain ⟨word, hword, hprefix⟩ := (exists_docBlock_iff_hidesText hhides.1).mpr hhides
    exact absurd hprefix (hnone word hword)

end IsFirstLexeme

/-- Every comment between marks closes at the first closing mark behind its opening one, unless
it is an empty comment that another mark follows. This one is documentation up to there; an
empty comment that no mark follows is a comment of its own, and makes no token. -/
theorem blockComment_closes_iff {text : String} {before after : List Lexeme} {lexeme : Lexeme}
    (h : (splitLexemes text.toList).1 = before ++ lexeme :: after) :
    let here := text.toList.drop (before.flatMap Lexeme.chars).length
    (['/', '*'] <+: lexeme.chars →
        (Extent.shortest.Takes (closedWords 4) here lexeme.chars ↔ ¬ HidesText here)) ∧
      (emptyComment <+: here → ¬ HidesText here →
        lexeme.chars = emptyComment ∧ lexeme.content? = none) ∧
      (HidesText here → Extent.shortest.Takes (closedWords 5) here lexeme.chars ∧
        ∃ doc, lexeme.content? = some (.doc, doc)) := by
  have hcut := cutInto_splitLexemes text.toList
  rw [h] at hcut
  have hfirst := hcut.isFirstLexeme
  exact ⟨hfirst.takes_closedWords_iff, hfirst.eq_emptyComment, hfirst.doc_of_hidesText⟩

theorem blockComment_closes_iff_notedName :
    let before : List Lexeme := [⟨.docBlock, "/** a */".toList⟩, ⟨.blank, [' ']⟩]
    let comment : Lexeme := ⟨.comment, emptyComment⟩
    let after : List Lexeme := [⟨.blank, [' ']⟩, ⟨.name, ['b']⟩]
    (splitLexemes "/** a */ /**/ b".toList).1 = before ++ comment :: after ∧
      Extent.shortest.Takes (closedWords 4) "/**/ b".toList comment.chars ∧
        comment.content? = none := by
  intro before comment after
  have hsplit : (splitLexemes "/** a */ /**/ b".toList).1 = before ++ comment :: after := by
    decide +kernel
  have hclosing := blockComment_closes_iff hsplit
  have hhere : "/** a */ /**/ b".toList.drop (before.flatMap Lexeme.chars).length =
      "/**/ b".toList := by decide +kernel
  rw [hhere] at hclosing
  obtain ⟨hcloses, htrivia, -⟩ := hclosing
  have hhides : ¬ HidesText "/**/ b".toList := fun hhides => absurd hhides.2 (by decide +kernel)
  exact ⟨hsplit, (hcloses (by decide)).mpr hhides, (htrivia (by decide +kernel) hhides).2⟩

/-- An empty comment hides a whole declaration, because of a comment behind it. -/
theorem tokenize_emptyComment_hides :
    let text := "/**/ struct A \x7b let x: Int \x7d /* end */"
    (splitLexemes text.toList).1 = [⟨.docBlock, text.toList⟩] ∧
      ['/', '*'] <+: text.toList ∧
      ¬ Extent.shortest.Takes (closedWords 4) text.toList text.toList ∧
      (tokenize text).map TokenStream.tokens =
        .ok [⟨.doc, "/ struct A \x7b let x: Int \x7d /* end", .start⟩] := by
  intro text
  refine ⟨by decide +kernel, by decide +kernel, fun htakes => ?_, by decide +kernel⟩
  have hle := htakes.preferred emptyComment emptyComment_mem_closedWords (by decide +kernel)
  exact absurd hle (by simp only [Extent.Prefers]; decide +kernel)

end WireSchema.Swift
