import WireSchema.Proofs.Swift.Positions
import WireSchema.Proofs.Text.Blank
import WireSchema.Proofs.Text.Lines

/-!
# The texts of documentation comments

The text of a documentation comment is made of lines that do not end in white space, and it
does not end in a line feed. After `///` there is one line, and what ends it is dropped.
Between `/**` and `*/` each line is trimmed, and the empty ones are left out.
-/

namespace WireSchema.Swift

open Text (TrimmedLines isBlank)

/-- White space at the end goes, so that a line is all of the text. -/
theorem trimmedLines_docLineText {body : List Char} (hbody : '\n' ∉ body) :
    TrimmedLines (docLineText body) := by
  have hstripped : '\n' ∉ (Text.stripStart? [' '] body).getD body := by
    cases hstrip : Text.stripStart? [' '] body with
    | none => exact hbody
    | some rest =>
      rw [Text.eq_append_of_stripStart? hstrip] at hbody
      exact fun hmem => hbody (List.mem_append_right _ hmem)
  exact .of_line (fun hmem => hstripped ((Text.trimEndChars_isPrefixOf _).subset hmem))
    fun _ hlast => Text.getLast?_trimEndChars hlast

theorem lineFeed_notMem_docBlockLine {line : List Char} (hline : '\n' ∉ line) :
    '\n' ∉ docBlockLine line := by
  intro hmem
  have hstars := (Text.trimChars_sublist _).subset hmem
  exact hline ((Text.trimChars_sublist line).subset ((List.dropWhile_sublist _).subset hstars))

theorem trimmedLines_docBlockLine {line : List Char} (hline : '\n' ∉ line) :
    TrimmedLines (docBlockLine line) :=
  .of_line (lineFeed_notMem_docBlockLine hline) fun _ hlast => Text.getLast?_trimEndChars hlast

/-- None of the lines that are put together is empty, so the last is not either. -/
theorem trimmedLines_docBlockText (comment : List Char) : TrimmedLines (docBlockText comment) := by
  unfold docBlockText
  dsimp only
  rw [Text.joinChars_eq_intercalate]
  refine .intercalate (fun text htext => ?_) fun hlast => ?_
  · obtain ⟨hmem, -⟩ := List.mem_filter.mp htext
    obtain ⟨line, hline, rfl⟩ := List.mem_map.mp hmem
    exact trimmedLines_docBlockLine (Text.lineFeed_notMem_of_mem_lines hline)
  · have hempty := (List.mem_filter.mp (List.mem_of_getLast? hlast)).2
    cases hempty

/-! ## Tokens -/

variable {text : String} {stream : TokenStream} {token : Token}

/-- Each token of a text is that of a lexeme that the text is cut into. -/
theorem exists_lexeme_of_mem_tokens (h : tokenize text = .ok stream)
    (htoken : token ∈ stream.tokens) :
    ∃ before lexeme after at_, (splitLexemes text.toList).1 = before ++ lexeme :: after ∧
      lexeme.token? at_ = some token := by
  rw [tokenize_eq] at h
  split at h
  · cases h
    obtain ⟨i, hi, hsome⟩ := List.mem_mapIdx.mp (List.reduceOption_mem_iff.mp htoken)
    obtain ⟨before, after, hsplit⟩ := List.append_of_mem (List.getElem_mem hi)
    exact ⟨before, _, after, _, hsplit, hsome⟩
  · cases h

/-- A comment of one line is what the grammar says, whatever it is read from. -/
theorem IsFirstLexeme.docLine_word {cs : List Char} {lexeme : Lexeme}
    (h : IsFirstLexeme cs lexeme) (hkind : lexeme.kind = .docLine) :
    lexeme.chars ∈ docLineWords := by
  rcases h.comment_cases (by simp [hkind]) with ⟨-, hword⟩ | ⟨hother, -⟩ | ⟨hother, -⟩ |
    ⟨hother, -⟩ | ⟨hother, -⟩
  · exact hword
  all_goals cases hkind.symm.trans hother

/-- Only the comments that are documentation make tokens of it. -/
theorem content?_eq_doc {lexeme : Lexeme} {doc : List Char}
    (h : lexeme.content? = some (.doc, doc)) :
    (lexeme.kind = .docLine ∧ doc = docLineText (lexeme.chars.drop 3)) ∨
      (lexeme.kind = .docBlock ∧ doc = docBlockText lexeme.chars) := by
  unfold Lexeme.content? at h
  split at h
  case h_1 hkind => exact .inl ⟨hkind, by cases h; rfl⟩
  case h_2 hkind => exact .inr ⟨hkind, by cases h; rfl⟩
  case h_8 =>
    obtain ⟨hkind, -⟩ := Prod.mk.inj (Option.some.inj h)
    split at hkind <;> cases hkind
  all_goals cases h

/-- Whatever comment it is, no line of its text ends in white space. -/
theorem trimmedLines_of_doc (h : tokenize text = .ok stream) (htoken : token ∈ stream.tokens)
    (hkind : token.kind = .doc) : TrimmedLines token.text.toList := by
  obtain ⟨before, lexeme, after, at_, hsplit, hsome⟩ := exists_lexeme_of_mem_tokens h htoken
  obtain ⟨⟨kind, doc⟩, hcontent, rfl⟩ := Option.map_eq_some_iff.mp hsome
  obtain rfl : kind = .doc := hkind
  rw [String.toList_ofList]
  rcases content?_eq_doc hcontent with ⟨hline, rfl⟩ | ⟨-, rfl⟩
  · have hcut := cutInto_splitLexemes text.toList
    rw [hsplit] at hcut
    obtain ⟨rest, hrest, hchars⟩ := Words.mem_exactly_mul.mp (hcut.isFirstLexeme.docLine_word hline)
    have hdrop : lexeme.chars.drop 3 = rest := by
      rw [hchars]
      rfl
    rw [hdrop]
    exact trimmedLines_docLineText fun hfeed => by simpa using Words.mem_many.mp hrest _ hfeed
  · exact trimmedLines_docBlockText lexeme.chars

end WireSchema.Swift
