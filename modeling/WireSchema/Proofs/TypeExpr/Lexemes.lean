import WireSchema.Proofs.TypeExpr.Grammar

/-!
# Lexemes

How a text is cut into tokens, said without the tokenizer: from left to right, each
lexeme as long as possible, and white space is a lexeme that is no token. The tokenizer
makes exactly this cut, and fails only on texts that have none.
-/

namespace WireSchema.TypeExpr

open Text (isBlank isIdentStart isIdentRest)

/-- The runs of characters that the grammar knows: tokens, and white space, which is none. -/
inductive IsLexeme : List Char → Option Token → Prop where
  | token {token : Token} (h : token.IsProper) : IsLexeme token.text.toList (some token)
  | blanks {run : List Char} (hne : run ≠ []) (h : ∀ c ∈ run, isBlank c = true) :
    IsLexeme run none

theorem isLexeme_name {c : Char} {rest : List Char} (hstart : isIdentStart c = true)
    (hrest : ∀ d ∈ rest, isNameRest d = true) :
    IsLexeme (c :: rest) (some (.name (String.ofList (c :: rest)))) := by
  have h := IsLexeme.token (isProper_name hstart hrest)
  rwa [Token.text, String.toList_ofList] at h

/-- The text is cut into lexemes from left to right, each the longest that can be cut off
there, and these are the tokens among them. -/
inductive Splits : List Char → List Token → Prop where
  | nil : Splits [] []
  | cons {run rest : List Char} {kind : Option Token} {tokens : List Token}
    (lexeme : IsLexeme run kind)
    (longest : ∀ other otherKind, IsLexeme other otherKind → other <+: run ++ rest →
      other.length ≤ run.length)
    (later : Splits rest tokens) : Splits (run ++ rest) (kind.toList ++ tokens)

/-- May a lexeme that starts with the first character go on with the second? -/
def goesOn (first c : Char) : Bool :=
  if isIdentStart first then isNameRest c else isBlank first && isBlank c

theorem goesOn_of_isLexeme {c : Char} {more : List Char} {kind : Option Token}
    (h : IsLexeme (c :: more) kind) : ∀ d ∈ more, goesOn c d = true := by
  generalize hrun : c :: more = run at h
  cases h with
  | @token token hproper =>
    cases token with
    | name text =>
      obtain ⟨first, rest, hchars, hstart, hrest⟩ := hproper
      cases hrun.trans hchars
      simpa [goesOn, hstart] using hrest
    | openBracket | closeBracket | comma | question =>
      cases hrun
      simp
  | blanks _ hblank =>
    subst hrun
    have hfirst := hblank c List.mem_cons_self
    intro d hd
    simp [goesOn, isIdentStart_of_isBlank hfirst, hfirst, hblank d (List.mem_cons_of_mem c hd)]

/-- A lexeme after which none of its kind goes on is the longest. -/
theorem splits_cons {c : Char} {run rest : List Char} {kind : Option Token}
    {tokens : List Token} (lexeme : IsLexeme (c :: run) kind)
    (hends : ∀ d ∈ rest.head?, goesOn c d = false) (later : Splits rest tokens) :
    Splits (c :: (run ++ rest)) (kind.toList ++ tokens) := by
  refine @Splits.cons (c :: run) rest kind tokens lexeme ?_ later
  intro other otherKind hother hprefix
  cases other with
  | nil => exact Nat.zero_le _
  | cons first more =>
    obtain ⟨rfl, hmore⟩ := List.cons_prefix_cons.mp hprefix
    have hinside := goesOn_of_isLexeme hother
    rcases List.prefix_or_prefix_of_prefix hmore (List.prefix_append run rest) with h | h
    · exact Nat.succ_le_succ h.length_le
    · -- What the other lexeme has beyond this one would start with the character after it.
      obtain ⟨beyond, rfl⟩ := h
      have hbeyond := (List.prefix_append_right_inj run).mp hmore
      cases beyond with
      | nil => simp
      | cons d beyond =>
        obtain ⟨later, rfl⟩ := hbeyond
        have hd := hinside d (by simp)
        rw [hends d rfl] at hd
        cases hd

theorem head?_dropWhile_eq_false {p : Char → Bool} (cs : List Char) :
    ∀ d ∈ (cs.dropWhile p).head?, p d = false := by
  intro d hd
  have hnot := List.head?_dropWhile_not p cs
  rw [hd] at hnot
  exact hnot

theorem splits_of_tokenize {cs : List Char} {tokens : List Token}
    (h : tokenize cs = .ok tokens) : Splits cs tokens := by
  replace h := scans_of_tokenize h
  induction h with
  | nil => exact .nil
  | @name c rest later hstart next ih =>
    have hlexeme := isLexeme_name hstart fun d (hd : d ∈ rest.takeWhile isNameRest) =>
      List.mem_takeWhile_imp hd
    have hsplits := splits_cons hlexeme
      (by simpa [goesOn, hstart] using head?_dropWhile_eq_false rest) ih
    rwa [List.takeWhile_append_dropWhile] at hsplits
  | @symbol c rest token later hsymbol next ih =>
    have hlexeme := IsLexeme.token (isProper_of_symbol hsymbol)
    rw [text_of_symbol hsymbol] at hlexeme
    exact splits_cons hlexeme
      (by simp [goesOn, isIdentStart_of_symbol hsymbol, isBlank_of_symbol hsymbol]) ih
  | @blanks c rest tokens hblank next ih =>
    have hlexeme : IsLexeme (c :: rest.takeWhile isBlank) none :=
      .blanks (List.cons_ne_nil _ _)
        (List.forall_mem_cons.mpr ⟨hblank, fun d hd => List.mem_takeWhile_imp hd⟩)
    have hsplits := splits_cons hlexeme
      (by simpa [goesOn, isIdentStart_of_isBlank hblank, hblank] using
        head?_dropWhile_eq_false rest) ih
    rwa [List.takeWhile_append_dropWhile] at hsplits

/-- A name that is the longest lexeme is followed by nothing that a name goes on with. -/
theorem endsName_of_longest {text : String} {rest : List Char}
    (hproper : (Token.name text).IsProper)
    (hlongest : ∀ other kind, IsLexeme other kind → other <+: text.toList ++ rest →
      other.length ≤ text.toList.length) : EndsName rest := by
  intro d hd
  rw [Bool.eq_false_iff]
  intro hrest
  obtain ⟨c, more, hchars, hstart, hmore⟩ := hproper
  obtain ⟨after, rfl⟩ := List.head?_eq_some_iff.mp hd
  have hlonger : ∀ e ∈ more ++ [d], isNameRest e = true :=
    List.forall_mem_append.mpr ⟨hmore, List.forall_mem_singleton.mpr hrest⟩
  have hlength := hlongest _ _ (isLexeme_name hstart hlonger) ⟨after, by simp [hchars]⟩
  rw [hchars, List.length_cons, List.length_cons, List.length_append] at hlength
  exact absurd hlength (Nat.not_succ_le_self _)

theorem tokenize_of_splits {cs : List Char} {tokens : List Token} (h : Splits cs tokens) :
    tokenize cs = .ok tokens := by
  induction h with
  | nil => exact tokenize_nil
  | @cons run rest kind tokens lexeme longest later ih =>
    cases lexeme with
    | @token token hproper =>
      cases token with
      | name text =>
        exact tokenize_of_isTypeName (isTypeName_of_isProper hproper)
          (endsName_of_longest hproper longest) ih
      | openBracket | closeBracket | comma | question => exact tokenize_of_symbol rfl ih
    | blanks _ hblank => exact (tokenize_blanks_append hblank).trans ih

/-- The tokenizer cuts a text into its longest lexemes, and fails only if there is no such
cut. -/
theorem tokenize_eq_ok_iff_splits {cs : List Char} {tokens : List Token} :
    tokenize cs = .ok tokens ↔ Splits cs tokens :=
  ⟨splits_of_tokenize, tokenize_of_splits⟩

end WireSchema.TypeExpr
