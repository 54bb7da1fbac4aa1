import Mathlib.Computability.Language
import WireSchema.Swift.Lexeme

/-!
# The grammar of lexemes

A kind of lexeme is a language: the words that a lexeme of that kind may be. Where more than
one of its words stands at the front of a text, a rule takes the longest or the shortest. The
rules are tried in order, and the first that finds a word gives the lexeme. So a text has at
most one lexeme at its front, and at most one way to be cut into lexemes.
-/

namespace WireSchema.Swift

open Computability
open Text (isIdentStart isIdentRest isIdentChars isDecimalDigit isBlank)

/-! ## Languages -/

namespace Words

def exactly (text : String) : Language Char := {text.toList}

def anyOf (words : List (List Char)) : Language Char := {cs | cs ∈ words}

/-- The words of one character that satisfies `p`. -/
def oneOf (p : Char → Bool) : Language Char := {cs | ∃ c, p c = true ∧ cs = [c]}

def many (p : Char → Bool) : Language Char := (oneOf p)∗

def atLeastOne (p : Char → Bool) : Language Char := oneOf p * many p

variable {p : Char → Bool} {text : String} {L : Language Char} {cs : List Char}

theorem mem_exactly : cs ∈ exactly text ↔ cs = text.toList :=
  Iff.rfl

theorem mem_oneOf : cs ∈ oneOf p ↔ ∃ c, p c = true ∧ cs = [c] :=
  Iff.rfl

theorem mem_exactly_mul : cs ∈ exactly text * L ↔ ∃ rest ∈ L, cs = text.toList ++ rest := by
  simp [Language.mem_mul, mem_exactly, eq_comm]

theorem mem_mul_exactly : cs ∈ L * exactly text ↔ ∃ front ∈ L, cs = front ++ text.toList := by
  simp [Language.mem_mul, mem_exactly, eq_comm]

theorem mem_oneOf_mul :
    cs ∈ oneOf p * L ↔ ∃ c, p c = true ∧ ∃ rest ∈ L, cs = c :: rest := by
  rw [Language.mem_mul]
  constructor
  · rintro ⟨_, ⟨c, hc, rfl⟩, rest, hrest, rfl⟩
    exact ⟨c, hc, rest, hrest, rfl⟩
  · rintro ⟨c, hc, rest, hrest, rfl⟩
    exact ⟨[c], ⟨c, hc, rfl⟩, rest, hrest, rfl⟩

theorem append_mem_kstar {word rest : List Char} (hword : word ∈ L) (hrest : rest ∈ L∗) :
    word ++ rest ∈ L∗ := by
  rw [← Language.one_add_self_mul_kstar_eq_kstar]
  exact .inr (Language.append_mem_mul hword hrest)

theorem mem_many : cs ∈ many p ↔ ∀ c ∈ cs, p c = true := by
  constructor
  · rintro ⟨words, rfl, hwords⟩ c hc
    obtain ⟨word, hword, hmem⟩ := List.mem_flatten.mp hc
    obtain ⟨d, hd, rfl⟩ := hwords word hword
    rwa [List.mem_singleton.mp hmem]
  · intro h
    induction cs with
    | nil => exact Language.nil_mem_kstar _
    | cons c rest ih =>
      exact append_mem_kstar (mem_oneOf.mpr ⟨c, h c List.mem_cons_self, rfl⟩)
        (ih fun d hd => h d (List.mem_cons_of_mem c hd))

theorem mem_oneOf_mul_many {q : Char → Bool} :
    cs ∈ oneOf p * many q ↔ ∃ c rest, p c = true ∧ (∀ d ∈ rest, q d = true) ∧ cs = c :: rest := by
  simp only [mem_oneOf_mul, mem_many]
  constructor
  · rintro ⟨c, hc, rest, hrest, rfl⟩
    exact ⟨c, rest, hc, hrest, rfl⟩
  · rintro ⟨c, rest, hc, hrest, rfl⟩
    exact ⟨c, hc, rest, hrest, rfl⟩

theorem mem_atLeastOne : cs ∈ atLeastOne p ↔ cs ≠ [] ∧ ∀ c ∈ cs, p c = true := by
  rw [atLeastOne, mem_oneOf_mul_many]
  constructor
  · rintro ⟨c, rest, hc, hrest, rfl⟩
    exact ⟨List.cons_ne_nil c rest, List.forall_mem_cons.mpr ⟨hc, hrest⟩⟩
  · rintro ⟨hne, h⟩
    obtain ⟨c, rest, rfl⟩ := List.exists_cons_of_ne_nil hne
    exact ⟨c, rest, (List.forall_mem_cons.mp h).1, (List.forall_mem_cons.mp h).2, rfl⟩

end Words

/-! ## Rules -/

/-- Which of the words at the front of a text counts. -/
inductive Extent where
  | longest
  | shortest

def Extent.Prefers : Extent → Nat → Nat → Prop
  | .longest, n, m => m ≤ n
  | .shortest, n, m => n ≤ m

/-- The word at the front of the text that counts. -/
structure Extent.Takes (extent : Extent) (words : Language Char) (cs word : List Char) : Prop where
  isWord : word ∈ words
  isPrefix : word <+: cs
  preferred : ∀ other ∈ words, other <+: cs → extent.Prefers word.length other.length

structure LexicalRule where
  kind : LexemeKind
  words : Language Char
  extent : Extent

section

open Words

def docLineWords : Language Char := exactly "///" * many (· != '\n')

def docBlockWords : Language Char := exactly "/**" * (⊤ * exactly "*/")

def lineCommentWords : Language Char := exactly "//" * many (· != '\n')

def blockCommentWords : Language Char := exactly "/*" * (⊤ * exactly "*/")

def nameWords : Language Char := oneOf isIdentStart * many isIdentRest

/-- What stands for one character in a literal between single quotes. -/
def quotedItems : Language Char :=
  oneOf (fun c => c != '"' && c != '\\' && c != '\n') + exactly "\\" * oneOf (· != '\n')

def digitWords : Language Char := oneOf isDecimalDigit * many isDigitRest

def fractionWords : Language Char := 1 + exactly "." * digitWords

def exponentWords : Language Char :=
  1 + oneOf (fun c => c == 'e' || c == 'E') *
    ((1 + oneOf fun c => c == '+' || c == '-') * atLeastOne isDecimalDigit)

def hexWords : Language Char :=
  exactly "0" * (oneOf (fun c => c == 'x' || c == 'X') * atLeastOne fun c => isHexDigit c || c == '_')

def symbolWords : Language Char := anyOf longSymbols + oneOf shortSymbols.contains

/-- The rules, in the order in which they are tried. -/
def lexicalGrammar : List LexicalRule :=
  [⟨.docLine, docLineWords, .longest⟩,
    ⟨.docBlock, docBlockWords, .shortest⟩,
    ⟨.comment, lineCommentWords, .longest⟩,
    ⟨.comment, blockCommentWords, .shortest⟩,
    ⟨.string, exactly "\"\"\"" * (⊤ * exactly "\"\"\""), .shortest⟩,
    ⟨.string, exactly "\"" * (quotedItems∗ * exactly "\""), .longest⟩,
    ⟨.quotedName, exactly "\x60" * (nameWords * exactly "\x60"), .longest⟩,
    ⟨.name, nameWords, .longest⟩,
    ⟨.number, hexWords, .longest⟩,
    ⟨.number, digitWords * (fractionWords * exponentWords), .longest⟩,
    ⟨.symbol, symbolWords, .longest⟩,
    ⟨.blank, atLeastOne isBlank, .longest⟩]

end

/-- The lexeme that the grammar gives at the front of a text: what the first rule takes that
has a word there. -/
def IsFirstLexeme (cs : List Char) (lexeme : Lexeme) : Prop :=
  ∃ earlier rule later, lexicalGrammar = earlier ++ rule :: later ∧
    (∀ other ∈ earlier, ∀ word ∈ other.words, ¬ word <+: cs) ∧
    rule.kind = lexeme.kind ∧ rule.extent.Takes rule.words cs lexeme.chars

def NoLexeme (cs : List Char) : Prop :=
  ∀ rule ∈ lexicalGrammar, ∀ word ∈ rule.words, ¬ word <+: cs

theorem Extent.Takes.unique {extent : Extent} {words : Language Char} {cs word other : List Char}
    (h : extent.Takes words cs word) (h' : extent.Takes words cs other) : word = other := by
  have hle := h.preferred other h'.isWord h'.isPrefix
  have hge := h'.preferred word h.isWord h.isPrefix
  have hlength : word.length = other.length := by
    cases extent with
    | longest => exact Nat.le_antisymm hge hle
    | shortest => exact Nat.le_antisymm hle hge
  exact (List.prefix_of_prefix_length_le h.isPrefix h'.isPrefix hlength.le).eq_of_length hlength

theorem IsFirstLexeme.unique {cs : List Char} {a b : Lexeme} (ha : IsFirstLexeme cs a)
    (hb : IsFirstLexeme cs b) : a = b := by
  obtain ⟨before, rule, after, hgrammar, hbefore, hkind, htakes⟩ := ha
  obtain ⟨before', rule', after', hgrammar', hbefore', hkind', htakes'⟩ := hb
  suffices hrule : rule = rule' by
    subst hrule
    cases a
    cases b
    exact congrArg₂ Lexeme.mk (hkind.symm.trans hkind') (htakes.unique htakes')
  -- a rule before the one that takes a word has none
  rcases List.append_eq_append_iff.mp (hgrammar.symm.trans hgrammar') with
    ⟨between, rfl, hrest⟩ | ⟨between, rfl, hrest⟩
  · cases between with
    | nil => cases hrest; rfl
    | cons first between =>
      cases hrest
      exact absurd htakes.isPrefix (hbefore' rule (by simp) _ htakes.isWord)
  · cases between with
    | nil => cases hrest; rfl
    | cons first between =>
      cases hrest
      exact absurd htakes'.isPrefix (hbefore rule' (by simp) _ htakes'.isWord)

theorem IsFirstLexeme.not_noLexeme {cs : List Char} {lexeme : Lexeme} (h : IsFirstLexeme cs lexeme) :
    ¬ NoLexeme cs := by
  obtain ⟨before, rule, after, hgrammar, -, -, htakes⟩ := h
  exact fun hnone => hnone rule (by simp [hgrammar]) _ htakes.isWord htakes.isPrefix

/-! ## Whole texts -/

/-- The text is cut into lexemes, one behind the other, up to where the grammar has none. -/
inductive CutInto : List Char → List Lexeme → List Char → Prop where
  | stop {cs : List Char} (none_ : NoLexeme cs) : CutInto cs [] cs
  | cut {lexeme : Lexeme} {rest stray : List Char} {lexemes : List Lexeme}
    (first : IsFirstLexeme (lexeme.chars ++ rest) lexeme) (later : CutInto rest lexemes stray) :
    CutInto (lexeme.chars ++ rest) (lexeme :: lexemes) stray

namespace CutInto

variable {cs stray stray' : List Char} {lexemes lexemes' : List Lexeme}

theorem eq_append (h : CutInto cs lexemes stray) : cs = lexemes.flatMap Lexeme.chars ++ stray := by
  induction h with
  | stop => rfl
  | cut _ _ ih => rw [List.flatMap_cons, List.append_assoc, ← ih]

/-- Each lexeme is the one that the grammar gives behind those before it. -/
theorem isFirstLexeme {before after : List Lexeme} {lexeme : Lexeme}
    (h : CutInto cs (before ++ lexeme :: after) stray) :
    IsFirstLexeme (cs.drop (before.flatMap Lexeme.chars).length) lexeme := by
  induction before generalizing cs with
  | nil =>
    cases h with
    | cut hfirst => exact hfirst
  | cons earlier before ih =>
    cases h with
    | cut _ hlater =>
      rw [List.flatMap_cons, List.length_append, ← List.drop_drop, List.drop_left]
      exact ih hlater

theorem unique (h : CutInto cs lexemes stray) (h' : CutInto cs lexemes' stray') :
    lexemes' = lexemes ∧ stray' = stray := by
  induction h generalizing lexemes' stray' with
  | stop hnone =>
    cases h' with
    | stop => exact ⟨rfl, rfl⟩
    | cut hfirst => exact absurd hnone hfirst.not_noLexeme
  | @cut lexeme rest _ _ hfirst hlater ih =>
    generalize hcs : lexeme.chars ++ rest = cs at h' hfirst
    cases h' with
    | stop hnone => exact absurd hnone hfirst.not_noLexeme
    | cut hfirst' hlater' =>
      cases hfirst.unique hfirst'
      cases List.append_cancel_left hcs
      obtain ⟨rfl, rfl⟩ := ih hlater'
      exact ⟨rfl, rfl⟩

end CutInto

end WireSchema.Swift
