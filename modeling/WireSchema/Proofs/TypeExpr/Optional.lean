import WireSchema.Proofs.Text.Blank
import WireSchema.Proofs.TypeExpr.Canonical
import WireSchema.Schema.Basic

/-!
# Optionality in texts

Three places say that a field may be absent: a question mark at the end of its
type text, its `required` flag, and the type that the text denotes. On texts that
denote types they are one: the canonical text of a field denotes its type made
optional whenever the field is.
-/

namespace WireSchema.TypeExpr

open Text (isBlank trimEndChars getLast?_trimEndChars)

/-! ## Question marks -/

namespace Derivation

theorem getLast?_questions {front : List Token} {last : Token} (h : last ≠ .question)
    (marks : Nat) : (front ++ last :: questions marks).getLast? = some .question ↔ marks ≠ 0 := by
  cases marks with
  | zero => simp [questions, h]
  | succ marks =>
    have hlast : front ++ last :: questions (marks + 1) =
        (front ++ last :: questions marks) ++ [.question] := by
      simp [questions_succ]
    rw [hlast, List.getLast?_concat]
    simp

theorem isOptional_marked {base : TypeExpr} (hbase : base.isOptional = false) (marks : Nat) :
    (marked marks base).isOptional = true ↔ marks ≠ 0 := by
  cases marks with
  | zero => simp [marked, hbase]
  | succ marks => simp [marked, isOptional]

/-- The question mark at the end of the tokens is what makes a type optional. -/
theorem isOptional_type (d : Derivation) :
    d.type.isOptional = true ↔ d.tokens.getLast? = some .question := by
  cases d with
  | name text marks =>
    exact (isOptional_marked (isOptional_ofName text) marks).trans
      (@getLast?_questions [] (.name text) (by simp) marks).symm
  | list element marks =>
    exact (isOptional_marked rfl marks).trans
      (@getLast?_questions (.name "list" :: .openBracket :: element.tokens) .closeBracket
        (by simp) marks).symm
  | map key value marks =>
    have hmap := @getLast?_questions (.name "map" :: .openBracket ::
      (key.tokens ++ .comma :: value.tokens)) .closeBracket (by simp) marks
    rw [List.cons_append, List.cons_append, List.append_assoc] at hmap
    exact (isOptional_marked rfl marks).trans hmap.symm

end Derivation

theorem getLast?_text_of_isProper {token : Token} (h : token.IsProper) :
    token.text.toList.getLast? = some '?' ↔ token = .question := by
  cases token with
  | name text =>
    simp only [Token.text, reduceCtorEq, iff_false]
    intro hlast
    have hrest := isNameRest_of_isTypeName (isTypeName_of_isProper h)
    exact absurd (hrest _ (List.mem_of_getLast? hlast)) (by decide)
  | _ => decide

theorem text_ne_nil_of_isProper {token : Token} (h : token.IsProper) :
    token.text.toList ≠ [] := by
  cases token with
  | name text =>
    obtain ⟨c, rest, hchars, -, -⟩ := h
    simp [Token.text, hchars]
  | _ => decide

/-! ## Texts -/

/-- White space at the end of a text does not change its type. -/
theorem parse_trimEnd {source : String} {t : TypeExpr} :
    parse (Text.trimEnd source) = .ok t ↔ parse source = .ok t := by
  obtain ⟨run, hsource, hrun⟩ := Text.dropEndWhile_append isBlank source.toList
  have hderives (d : Derivation) : d.Derives (Text.trimEnd source) ↔ d.Derives source := by
    rw [Derivation.Derives, Derivation.Derives, ← tokenize_eq_ok_iff_splits,
      ← tokenize_eq_ok_iff_splits, Text.toList_trimEnd]
    conv => rhs; rw [hsource]
    exact (tokenize_append_blanks hrun).symm
  simp only [parse_eq_ok_iff_derives, hderives]

theorem isBlank_getLast?_text {t : TypeExpr} (h : t.WellFormed) :
    ∀ c ∈ t.text.toList.getLast?, isBlank c = false := by
  have hlast (front : String) {last : String} {c : Char} (hc : last.toList = [c])
      (hblank : isBlank c = false) : ∀ d ∈ (front ++ last).toList.getLast?, isBlank d = false := by
    intro d hd
    rw [String.toList_append, hc, List.getLast?_concat] at hd
    cases hd
    exact hblank
  have hname (name : String) (hvalid : isTypeName name = true) :
      ∀ c ∈ name.toList.getLast?, isBlank c = false := by
    intro c hc
    exact isBlank_of_isNameRest (isNameRest_of_isTypeName hvalid c (List.mem_of_getLast? hc))
  cases t with
  | primitive p => exact hname p.name (isTypeName_primitive p)
  | list t => exact hlast _ rfl rfl
  | map key value => exact hlast _ rfl rfl
  | optional t => exact hlast _ rfl rfl
  | custom name => exact hname name h.1

/-- The text of a type has no white space at its end. -/
theorem trimEnd_text {t : TypeExpr} (h : t.WellFormed) : Text.trimEnd t.text = t.text := by
  rw [Text.trimEnd, Text.trimEndChars_of_getLast? (isBlank_getLast?_text h), String.ofList_toList]

/-- A question mark makes the type optional, once. -/
theorem parse_append_question {source : String} {t : TypeExpr} (h : parse source = .ok t) :
    parse (source ++ "?") = .ok t.asOptional := by
  obtain ⟨d, hderives, rfl⟩ := parse_eq_ok_iff_derives.mp h
  have hmark : tokenize (source ++ "?").toList = .ok (d.tokens ++ [.question]) := by
    have hquestion : tokenize ['?'] = .ok [.question] :=
      tokenize_of_symbol rfl tokenize_nil
    rw [String.toList_append]
    exact (tokenize_append_eq_ok_iff (endsName_cons (by decide))).mpr
      ⟨d.tokens, [.question], tokenize_of_splits hderives, hquestion, rfl⟩
  rw [← d.tokens_withMark] at hmark
  exact parse_eq_ok_iff_derives.mpr ⟨d.withMark, splits_of_tokenize hmark, d.type_withMark⟩

/-- On a text that denotes a type, the question mark at the end is what makes it optional. -/
theorem endsOptional_iff {source : String} {t : TypeExpr} (h : parse source = .ok t) :
    endsOptional source = true ↔ t.isOptional = true := by
  obtain ⟨d, hderives, rfl⟩ := parse_eq_ok_iff_derives.mp (parse_trimEnd.mpr h)
  have htokens := tokenize_of_splits hderives
  rw [Text.toList_trimEnd] at htokens
  have hproper := isProper_of_tokenize htokens
  have hspelled := flatMap_text_of_tokenize htokens
  rw [d.isOptional_type, endsOptional, beq_iff_eq]
  have hlast : (trimEndChars source.toList).getLast? =
      (d.tokens.flatMap fun token => token.text.toList).getLast? := by
    rw [hspelled]
    rcases List.eq_nil_or_concat (trimEndChars source.toList) with hnil | ⟨front, c, hfront⟩
    · rw [hnil]
      rfl
    · have hc : isBlank c = false :=
        getLast?_trimEndChars (by simpa using congrArg List.getLast? hfront)
      rw [hfront]
      simp [List.filter_append, hc]
  rw [hlast]
  rcases List.eq_nil_or_concat d.tokens with hnil | ⟨front, token, hfront⟩
  · simp [hnil]
  · rw [hfront]
    have htoken := hproper token (by simp [hfront])
    have hne := text_ne_nil_of_isProper htoken
    simp [List.getLast?_append, List.getLast?_eq_some_getLast hne,
      ← getLast?_text_of_isProper htoken]

end WireSchema.TypeExpr

namespace WireSchema.FieldDef

open TypeExpr (parse)

/-- The canonical text of a field denotes its type with optionality folded in. -/
theorem parse_canonicalType {field : FieldDef} {t : TypeExpr} (h : parse field.type = .ok t) :
    parse field.canonicalType = .ok (if field.isOptional then t.asOptional else t) := by
  have htrim := TypeExpr.parse_trimEnd.mpr h
  have hopt := TypeExpr.endsOptional_iff h
  unfold canonicalType isOptional
  cases hends : endsOptional field.type with
  | true =>
    have hself : t.asOptional = t := by
      rw [TypeExpr.asOptional, if_pos (hopt.mp hends)]
    simpa [hself] using htrim
  | false =>
    cases hreq : field.required with
    | true => simpa using htrim
    | false => simpa using TypeExpr.parse_append_question htrim

end WireSchema.FieldDef
