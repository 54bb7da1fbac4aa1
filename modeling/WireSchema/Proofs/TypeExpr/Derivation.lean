import WireSchema.Proofs.TypeExpr.Lexemes

/-!
# What the grammar derives

The language of type expressions, said without the reader: the tokens of a text are
derived by `Type ::= Base "?"*` and `Base ::= list [ Type ] | map [ Type , Type ] | Name`.
The reader accepts a text exactly if there is a derivation, there is never more than one,
and the type that is read is the type of the derivation.
-/

namespace WireSchema.TypeExpr

/-! ## Derivations -/

/-- A derivation of `Type ::= Base "?"*`: the form of the base, and how many question marks
follow it. -/
inductive Derivation where
  | name (text : String) (marks : Nat)
  | list (element : Derivation) (marks : Nat)
  | map (key value : Derivation) (marks : Nat)
deriving DecidableEq, Repr

namespace Derivation

def questions (marks : Nat) : List Token :=
  List.replicate marks .question

def tokens : Derivation → List Token
  | name text marks => .name text :: questions marks
  | list element marks =>
    .name "list" :: .openBracket :: (element.tokens ++ .closeBracket :: questions marks)
  | map key value marks =>
    .name "map" :: .openBracket ::
      (key.tokens ++ .comma :: (value.tokens ++ .closeBracket :: questions marks))

def marked (marks : Nat) (base : TypeExpr) : TypeExpr :=
  if marks = 0 then base else .optional base

def type : Derivation → TypeExpr
  | name text marks => marked marks (ofName text)
  | list element marks => marked marks (.list element.type)
  | map key value marks => marked marks (.map key.type value.type)

def withMark : Derivation → Derivation
  | name text marks => name text (marks + 1)
  | list element marks => list element (marks + 1)
  | map key value marks => map key value (marks + 1)

theorem questions_succ (marks : Nat) : questions (marks + 1) = questions marks ++ [.question] :=
  List.replicate_succ'

theorem tokens_withMark (d : Derivation) : d.withMark.tokens = d.tokens ++ [.question] := by
  cases d <;> simp [withMark, tokens, questions_succ]

theorem marked_succ {base : TypeExpr} (hbase : base.isOptional = false) (marks : Nat) :
    marked (marks + 1) base = (marked marks base).asOptional := by
  cases marks with
  | zero => exact (asOptional_of_not_isOptional hbase).symm
  | succ marks => rfl

theorem type_withMark (d : Derivation) : d.withMark.type = d.type.asOptional := by
  cases d with
  | name text marks => exact marked_succ (isOptional_ofName text) marks
  | list element marks => exact marked_succ rfl marks
  | map key value marks => exact marked_succ rfl marks

def Derives (d : Derivation) (source : String) : Prop :=
  Splits source.toList d.tokens

/-- A derivation ends in front of these tokens: no bracket opens, and no question mark follows. -/
def EndsBefore (after : List Token) : Prop :=
  EndsType after ∧ after.head? ≠ some .question

theorem endsBefore_closeBracket (after : List Token) : EndsBefore (.closeBracket :: after) :=
  ⟨endsType_cons (by simp), by simp⟩

theorem endsBefore_comma (after : List Token) : EndsBefore (.comma :: after) :=
  ⟨endsType_cons (by simp), by simp⟩

theorem endsBefore_nil : EndsBefore [] := by
  simp [EndsBefore, EndsType]

theorem head?_questions_append {marks : Nat} {after : List Token} (h : EndsBefore after) :
    (questions marks ++ after).head? ≠ some .openBracket := by
  cases marks with
  | zero => exact h.1
  | succ marks => simp [questions, List.replicate_succ]

/-! ## One derivation for each list of tokens -/

theorem questions_append_inj {m n : Nat} {as bs : List Token} (has : EndsBefore as)
    (hbs : EndsBefore bs) (h : questions m ++ as = questions n ++ bs) : m = n ∧ as = bs := by
  induction m generalizing n with
  | zero =>
    cases n with
    | zero => exact ⟨rfl, h⟩
    | succ n =>
      refine absurd ?_ has.2
      rw [show as = questions (n + 1) ++ bs from h]
      rfl
  | succ m ih =>
    cases n with
    | zero =>
      refine absurd ?_ hbs.2
      rw [show bs = questions (m + 1) ++ as from h.symm]
      rfl
    | succ n =>
      obtain ⟨rfl, rfl⟩ := ih (List.cons.inj h).2
      exact ⟨rfl, rfl⟩

/-- Two derivations that derive the front of the same tokens, each up to an end, are one: a
name is followed by a bracket only if it opens a list or a map. -/
theorem tokens_append_inj {d e : Derivation} {as bs : List Token} (has : EndsBefore as)
    (hbs : EndsBefore bs) (h : d.tokens ++ as = e.tokens ++ bs) : d = e ∧ as = bs := by
  induction d generalizing e as bs with
  | name text marks =>
    cases e with
    | name text' marks' =>
      simp only [tokens, List.cons_append, List.cons.injEq, Token.name.injEq] at h
      obtain ⟨rfl, rfl⟩ := questions_append_inj has hbs h.2
      exact ⟨by rw [h.1], rfl⟩
    | list | map =>
      simp only [tokens, List.cons_append, List.cons.injEq] at h
      exact absurd (congrArg List.head? h.2) (head?_questions_append has)
  | list element marks ih =>
    cases e with
    | name =>
      simp only [tokens, List.cons_append, List.cons.injEq] at h
      exact absurd (congrArg List.head? h.2).symm (head?_questions_append hbs)
    | list element' marks' =>
      simp only [tokens, List.cons_append, List.append_assoc, List.cons.injEq, true_and] at h
      obtain ⟨rfl, hafter⟩ := ih (endsBefore_closeBracket _) (endsBefore_closeBracket _) h
      obtain ⟨rfl, rfl⟩ := questions_append_inj has hbs (List.cons.inj hafter).2
      exact ⟨rfl, rfl⟩
    | map => simp [tokens] at h
  | map key value marks ihkey ihvalue =>
    cases e with
    | name =>
      simp only [tokens, List.cons_append, List.cons.injEq] at h
      exact absurd (congrArg List.head? h.2).symm (head?_questions_append hbs)
    | list => simp [tokens] at h
    | map key' value' marks' =>
      simp only [tokens, List.cons_append, List.append_assoc, List.cons.injEq, true_and] at h
      obtain ⟨rfl, hvalue⟩ := ihkey (endsBefore_comma _) (endsBefore_comma _) h
      obtain ⟨rfl, hafter⟩ := ihvalue (endsBefore_closeBracket _) (endsBefore_closeBracket _)
        (List.cons.inj hvalue).2
      obtain ⟨rfl, rfl⟩ := questions_append_inj has hbs (List.cons.inj hafter).2
      exact ⟨rfl, rfl⟩

/-- The grammar is unambiguous. -/
theorem tokens_injective {d e : Derivation} (h : d.tokens = e.tokens) : d = e :=
  (tokens_append_inj endsBefore_nil endsBefore_nil (congrArg (· ++ []) h)).1

/-! ## The reader follows the grammar -/

theorem closeType_questions {base : TypeExpr} {after : List Token} (marks : Nat)
    (hbase : base.isOptional = false) (hafter : after.head? ≠ some .question) :
    closeType base (questions marks ++ after) = (marked marks base, after) := by
  have hdrop : (questions marks ++ after).dropWhile (· = .question) = after := by
    rw [questions, List.dropWhile_append_of_pos (by simp)]
    cases after with
    | nil => rfl
    | cons token later => exact List.dropWhile_cons_of_neg (by simpa using hafter)
  rw [closeType, hdrop]
  cases marks with
  | zero => simp [questions, marked, hafter]
  | succ marks =>
    simp [questions, List.replicate_succ, marked, asOptional_of_not_isOptional hbase]

/-- What is derived is read, up to the end of the derivation. -/
theorem parseTokens_derived (d : Derivation) (source : String) {after : List Token}
    (hends : EndsBefore after) :
    parseTokens source (d.tokens ++ after) = .ok (d.type, after) := by
  induction d generalizing after with
  | name text marks =>
    rw [tokens, List.cons_append,
      parseTokens_name (absurd · (head?_questions_append hends)),
      closeType_questions marks (isOptional_ofName text) hends.2, type]
  | list element marks ih =>
    have helement := ih (endsBefore_closeBracket (questions marks ++ after))
    simp only [tokens, List.cons_append, List.append_assoc]
    rw [parseTokens_eq]
    simp [helement, expect, bind, Except.bind, pure, Except.pure, type,
      closeType_questions marks (show (TypeExpr.list element.type).isOptional = false from rfl)
        hends.2]
  | map key value marks ihkey ihvalue =>
    have hvalue := ihvalue (endsBefore_closeBracket (questions marks ++ after))
    have hkey := ihkey
      (endsBefore_comma (value.tokens ++ .closeBracket :: (questions marks ++ after)))
    simp only [tokens, List.cons_append, List.append_assoc]
    rw [parseTokens_eq]
    simp [hkey, hvalue, expect, bind, Except.bind, pure, Except.pure, type,
      closeType_questions marks
        (show (TypeExpr.map key.type value.type).isOptional = false from rfl) hends.2]

theorem exists_questions_of_closeType {base t : TypeExpr} {after rest : List Token}
    (hbase : base.isOptional = false) (h : closeType base after = (t, rest)) :
    ∃ marks, after = questions marks ++ rest ∧ t = marked marks base := by
  have hrest : rest = after.dropWhile (· = .question) := (Prod.mk.inj h).2.symm
  have hnot : rest.head? ≠ some .question := by
    intro hhead
    have hdrop := List.head?_dropWhile_not (fun token : Token => decide (token = .question)) after
    rw [← hrest, hhead] at hdrop
    simp at hdrop
  have hmarks : after.takeWhile (· = .question) =
      questions (after.takeWhile (· = .question)).length := by
    refine List.eq_replicate_of_mem fun token htoken => ?_
    simpa using List.mem_takeWhile_imp htoken
  have hafter : after = questions (after.takeWhile (· = .question)).length ++ rest := by
    rw [← hmarks, hrest, List.takeWhile_append_dropWhile]
  refine ⟨_, hafter, ?_⟩
  rw [hafter, closeType_questions _ hbase hnot] at h
  exact (Prod.mk.inj h).1.symm

/-- What is read has been derived, and nothing behind the derivation is used up. -/
theorem exists_of_parseTokens {source : String} {ts rest : List Token} {t : TypeExpr}
    (h : parseTokens source ts = .ok (t, rest)) :
    ∃ d : Derivation, d.type = t ∧ ts = d.tokens ++ rest := by
  induction hlen : ts.length using Nat.strongRecOn generalizing ts rest t with
  | ind n ih =>
    obtain ⟨base, after, hclosed, hbase, hcases⟩ := parseTokens_eq_ok h
    obtain ⟨marks, rfl, rfl⟩ := exists_questions_of_closeType hbase hclosed
    rcases hcases with ⟨text, rfl, rfl, -⟩ | ⟨element, inner, rfl, rfl, helement⟩ |
      ⟨key, value, inner, values, rfl, rfl, hkey, hvalue⟩
    · exact ⟨.name text marks, rfl, rfl⟩
    · simp only [List.length_cons] at hlen
      obtain ⟨d, rfl, rfl⟩ := ih _ (by omega) helement rfl
      exact ⟨.list d marks, rfl, by simp [tokens]⟩
    · have hshort := (parseTokens_properSuffix hkey).shorter
      simp only [List.length_cons] at hlen hshort
      obtain ⟨dkey, rfl, rfl⟩ := ih _ (by omega) hkey rfl
      obtain ⟨dvalue, rfl, rfl⟩ := ih _ (by omega) hvalue rfl
      exact ⟨.map dkey dvalue marks, rfl, by simp [tokens]⟩

end Derivation

theorem parse_eq_ok_iff_derives {source : String} {t : TypeExpr} :
    parse source = .ok t ↔ ∃ d : Derivation, d.Derives source ∧ d.type = t := by
  rw [parse_eq_ok_iff]
  constructor
  · rintro ⟨ts, htokens, hread⟩
    obtain ⟨d, htype, hts⟩ := Derivation.exists_of_parseTokens hread
    rw [List.append_nil] at hts
    rw [hts] at htokens
    exact ⟨d, splits_of_tokenize htokens, htype⟩
  · rintro ⟨d, hderives, rfl⟩
    have hread := d.parseTokens_derived source Derivation.endsBefore_nil
    rw [List.append_nil] at hread
    exact ⟨d.tokens, tokenize_of_splits hderives, hread⟩

theorem Derivation.eq_of_derives {d e : Derivation} {source : String} (hd : d.Derives source)
    (he : e.Derives source) : d = e :=
  tokens_injective (Except.ok.inj ((tokenize_of_splits hd).symm.trans (tokenize_of_splits he)))

/-- The reader accepts exactly the grammar: a text denotes a type if and only if the grammar
derives it with that type. A text has at most one derivation, and reading ends on every text,
with the type of its one derivation or with a fault if it has none. -/
theorem parse_derives (source : String) :
    (∀ t, parse source = .ok t ↔ ∃ d : Derivation, d.Derives source ∧ d.type = t) ∧
      (∀ d e : Derivation, d.Derives source → e.Derives source → d = e) ∧
      ((∃! d : Derivation, d.Derives source ∧ parse source = .ok d.type) ∨
        ∃ fault, parse source = .error fault ∧ ∀ d : Derivation, ¬ d.Derives source) := by
  refine ⟨fun t => parse_eq_ok_iff_derives, fun d e hd he => Derivation.eq_of_derives hd he, ?_⟩
  cases hparse : parse source with
  | ok t =>
    obtain ⟨d, hderives, rfl⟩ := parse_eq_ok_iff_derives.mp hparse
    exact .inl ⟨d, ⟨hderives, rfl⟩, fun e he => Derivation.eq_of_derives he.1 hderives⟩
  | error fault =>
    refine .inr ⟨fault, rfl, fun d hderives => ?_⟩
    have hread := parse_eq_ok_iff_derives.mpr ⟨d, hderives, rfl⟩
    rw [hparse] at hread
    cases hread

/-- White space may stand between any two tokens, `list` is a name of its own where no bracket
follows, and question marks count once. -/
example : parse "map[ string ,list [list?] ]??" =
    .ok (.optional (.map (.primitive .string) (.list (.optional (.custom "list"))))) := by
  decide +kernel

end WireSchema.TypeExpr
