import Mathlib.Data.Nat.Digits.Lemmas
import WireSchema.Proofs.Number.Integer
import WireSchema.Proofs.Swift.LexemeLengths
import WireSchema.Proofs.Swift.NumberText
import WireSchema.Proofs.Text.CamelCase

/-!
# Integer literals

An integer literal has a sign or none, a radix, and digits among which underscores may stand.
Decimal and hexadecimal literals are one token beside the sign and are read at their value.
Octal and binary ones fall apart: the zero in front is a number of its own, and the rest is a
name.
-/

namespace WireSchema.Swift

open Text (isIdentStart isIdentRest isDecimalDigit isIdentChars)

/-! ## Literals and their values -/

inductive Radix where
  | decimal
  | hexadecimal
  | octal
  | binary
deriving DecidableEq, Repr

namespace Radix

def base : Radix → Nat
  | decimal => 10
  | hexadecimal => 16
  | octal => 8
  | binary => 2

/-- What stands in front of the digits of a literal. -/
def lead : Radix → List Char
  | decimal => []
  | hexadecimal => ['0', 'x']
  | octal => ['0', 'o']
  | binary => ['0', 'b']

end Radix

def digitOf (c : Char) : Nat :=
  min ("0123456789abcdef".toList.idxOf c) ("0123456789ABCDEF".toList.idxOf c)

def IsDigitOf (radix : Radix) (c : Char) : Prop :=
  digitOf c < radix.base

instance (radix : Radix) (c : Char) : Decidable (IsDigitOf radix c) :=
  inferInstanceAs (Decidable (_ < _))

/-- An integer literal. Underscores may stand behind the first digit. -/
structure IntegerLiteral where
  isNegative : Bool
  radix : Radix
  first : Char
  rest : List Char
  first_digit : IsDigitOf radix first
  rest_digits : ∀ c ∈ rest, c = '_' ∨ IsDigitOf radix c

namespace IntegerLiteral

variable (literal : IntegerLiteral)

def text : String :=
  String.ofList (signChars literal.isNegative ++
    (literal.radix.lead ++ literal.first :: literal.rest))

def digits : List Char :=
  literal.first :: literal.rest.filter (· != '_')

def magnitude : Nat :=
  Nat.ofDigits literal.radix.base (literal.digits.reverse.map digitOf)

def value : Int :=
  if literal.isNegative then -literal.magnitude else literal.magnitude

/-- Is the literal one token beside its sign? -/
def IsWhole : Prop :=
  literal.radix = .decimal ∨ literal.radix = .hexadecimal

instance : Decidable literal.IsWhole :=
  inferInstanceAs (Decidable (_ ∨ _))

/-- The integer that the literal is read as. -/
def valueRead : Int :=
  if literal.IsWhole then literal.value else 0

end IntegerLiteral

/-! ## Digits -/

def digitLetters : List Char :=
  "0123456789abcdef".toList ++ "0123456789ABCDEF".toList

theorem mem_digitLetters_of_isDigitOf {radix : Radix} {c : Char} (h : IsDigitOf radix c) :
    c ∈ digitLetters := by
  have hbase : radix.base ≤ 16 := by cases radix <;> decide
  have hlength : "0123456789abcdef".toList.length = 16 ∧
      "0123456789ABCDEF".toList.length = 16 := by decide
  rcases min_lt_iff.mp (Nat.lt_of_lt_of_le h hbase) with hindex | hindex
  · exact List.mem_append_left _ (List.idxOf_lt_length_iff.mp (by rwa [hlength.1]))
  · exact List.mem_append_right _ (List.idxOf_lt_length_iff.mp (by rwa [hlength.2]))

/-- What the digits of a radix are to the readers of numbers, tokens and names. -/
theorem isDigitOf_cases {radix : Radix} {c : Char} (h : IsDigitOf radix c) :
    Number.digitValue? radix.base c = some (digitOf c) ∧
      (if radix = .hexadecimal then isHexDigit c = true else c.isDigit = true) ∧
      isIdentRest c = true ∧ c ≠ '_' := by
  have hletters : digitLetters.all (fun c => IsDigitOf radix c →
      Number.digitValue? radix.base c = some (digitOf c) ∧
        (if radix = .hexadecimal then isHexDigit c = true else c.isDigit = true) ∧
        isIdentRest c = true ∧ c ≠ '_') = true := by
    cases radix <;> decide +kernel
  exact of_decide_eq_true
    (List.all_eq_true.mp hletters c (mem_digitLetters_of_isDigitOf h)) h

/-- Digits are read at their value. -/
theorem continueNat?_of_isDigitOf {radix : Radix} {cs : List Char}
    (h : ∀ c ∈ cs, IsDigitOf radix c) (read : Nat) :
    Number.continueNat? radix.base read cs =
      some (Nat.ofDigits radix.base (cs.reverse.map digitOf) + radix.base ^ cs.length * read) := by
  induction cs generalizing read with
  | nil => simp [Number.continueNat?]
  | cons c later ih =>
    rw [List.forall_mem_cons] at h
    rw [Number.continueNat?, (isDigitOf_cases h.1).1]
    dsimp only
    rw [ih h.2, List.reverse_cons, List.map_append, Nat.ofDigits_append, List.length_map,
      List.length_reverse, List.map_singleton, Nat.ofDigits_singleton, List.length_cons]
    congr 1
    ring

namespace IntegerLiteral

variable (literal : IntegerLiteral)

theorem isDigitOf_of_mem_digits {c : Char} (h : c ∈ literal.digits) :
    IsDigitOf literal.radix c := by
  rcases List.mem_cons.mp h with rfl | h
  · exact literal.first_digit
  · obtain ⟨hmem, hne⟩ := List.mem_filter.mp h
    exact (literal.rest_digits c hmem).resolve_left (by simpa using hne)

theorem readNat?_digits :
    Number.readNat? literal.radix.base literal.digits = some literal.magnitude := by
  have hdigits := continueNat?_of_isDigitOf (fun c => literal.isDigitOf_of_mem_digits) 0
  rw [Number.readNat?, if_neg (by simp [digits]), hdigits, Nat.mul_zero, Nat.add_zero, magnitude]

/-! ## Tokens -/

def number : List Char :=
  match literal.radix with
  | .decimal | .hexadecimal => literal.radix.lead ++ literal.first :: literal.rest
  | .octal | .binary => ['0']

/-- The name that an octal or binary literal ends in. -/
def skipped : List Face :=
  match literal.radix with
  | .decimal | .hexadecimal => []
  | .octal | .binary =>
    [.word (String.ofList (literal.radix.lead.drop 1 ++ literal.first :: literal.rest))]

theorem number_of_isWhole (h : literal.IsWhole) :
    literal.number = literal.radix.lead ++ literal.first :: literal.rest := by
  unfold number
  rcases h with hradix | hradix <;> rw [hradix]

theorem number_of_not_isWhole (h : ¬ literal.IsWhole) : literal.number = ['0'] := by
  unfold number
  cases hradix : literal.radix with
  | decimal => exact absurd (.inl hradix) h
  | hexadecimal => exact absurd (.inr hradix) h
  | octal | binary => rfl

theorem head?_number : literal.number.head?.any Char.isDigit = true := by
  obtain ⟨-, hkind, -⟩ := isDigitOf_cases literal.first_digit
  unfold number
  cases hradix : literal.radix with
  | decimal =>
    rw [hradix, if_neg (by decide)] at hkind
    exact hkind
  | hexadecimal | octal | binary => rfl

theorem isIdentRest_of_mem {c : Char} (h : c ∈ literal.first :: literal.rest) :
    isIdentRest c = true := by
  rcases List.mem_cons.mp h with rfl | h
  · exact (isDigitOf_cases literal.first_digit).2.2.1
  · rcases literal.rest_digits c h with rfl | hdigit
    · decide
    · exact (isDigitOf_cases hdigit).2.2.1

end IntegerLiteral

/-- A number, where the rules for numbers find it. -/
theorem lexes_number {c : Char} {cs rest : List Char} (hc : c.isDigit = true)
    (hlength : (hexLength? (c :: cs ++ rest)).or (decimalLength? (c :: cs ++ rest)) =
      some (c :: cs).length) {later : List Face} (hrest : Lexes rest later) :
    Lexes (c :: cs ++ rest) ((.number, String.ofList (c :: cs)) :: later) := by
  have hmem := mem_numberChars_of_isDigit hc
  obtain ⟨⟨hslash, hquote, htick⟩, -⟩ := numberChar_cases c hmem
  have hstart := isIdentStart_of_isDecimalDigit hmem (isDecimalDigit_of_isDigit hc)
  have hlexeme : lexemeAt? (c :: cs ++ rest) = some (.number, (c :: cs).length) := by
    rw [List.cons_append] at hlength ⊢
    rw [lexemeAt?_cons hslash hquote htick]
    simp only [List.findSome?_cons, nameLength?_of_not_isIdentStart hstart, Option.map_none]
    cases hhex : hexLength? (c :: (cs ++ rest)) with
    | some n =>
      rw [hhex, Option.some_or] at hlength
      simp only [Option.map_some, hlength]
    | none =>
      rw [hhex, Option.none_or] at hlength
      simp only [hlength, Option.map_some, Option.map_none]
  have happend := lexes_append hlexeme hrest
  have hface : Lexeme.face? ⟨.number, c :: cs⟩ = some (.number, String.ofList (c :: cs)) := by
    show some ((if c.isDigit = true then TokenKind.number else .punctuation), _) = _
    rw [if_pos hc]
  rw [hface] at happend
  exact happend

theorem hexLength?_of_digits {cs : List Char} (hcs : cs ≠ [])
    (h : ∀ c ∈ cs, (isHexDigit c || c == '_') = true) :
    hexLength? ('0' :: 'x' :: cs) = some ('0' :: 'x' :: cs).length := by
  have hdigits : 'x' :: cs ∈ Words.oneOf (fun c => c == 'x' || c == 'X') *
      Words.atLeastOne fun c => isHexDigit c || c == '_' :=
    Words.mem_oneOf_mul.mpr ⟨'x', rfl, cs, Words.mem_atLeastOne.mpr ⟨hcs, h⟩, rfl⟩
  exact measures_hexLength?.length?_eq (Words.mem_exactly_mul.mpr ⟨_, hdigits, rfl⟩)

theorem decimalLength?_of_digits {c : Char} {cs : List Char} (hc : isDecimalDigit c = true)
    (h : ∀ d ∈ cs, isDigitRest d = true) :
    decimalLength? (c :: cs) = some (c :: cs).length := by
  have hdigits : c :: cs ∈ digitWords := Words.mem_oneOf_mul_many.mpr ⟨c, cs, hc, h, rfl⟩
  exact measures_decimalLength?.length?_eq
    ⟨_, hdigits, [], ⟨[], .inl rfl, [], .inl rfl, rfl⟩, List.append_nil _⟩

/-- A number without the letter of the hexadecimal ones is none of these. -/
theorem hexLength?_of_digitRest {c : Char} {cs : List Char} (h : ∀ d ∈ cs, isDigitRest d = true) :
    hexLength? (c :: cs) = none := by
  unfold hexLength?
  split
  · next x rest heq =>
    cases heq
    have hx := h x List.mem_cons_self
    have hletters : (x == 'x' || x == 'X') = false := by
      rw [Bool.eq_false_iff]
      intro hletter
      simp only [Bool.or_eq_true, beq_iff_eq] at hletter
      rcases hletter with rfl | rfl
      · exact absurd hx (by decide)
      · exact absurd hx (by decide)
    dsimp only
    rw [hletters, Bool.false_and, if_neg (by simp)]
  · rfl

/-- A zero and a name behind it. -/
theorem lexes_zeroName {letter : Char} {cs rest : List Char} {later : List Face}
    (hletter : letter = 'o' ∨ letter = 'b') (hname : isIdentChars (letter :: cs) = true)
    (hbreak : rest.head?.any isIdentRest = false) (hrest : Lexes rest later) :
    Lexes ('0' :: letter :: cs ++ rest)
      ((.number, "0") :: .word (String.ofList (letter :: cs)) :: later) := by
  have hlater := lexes_identifier hname hbreak hrest
  have hlength : (hexLength? ('0' :: letter :: (cs ++ rest))).or
      (decimalLength? ('0' :: letter :: (cs ++ rest))) = some 1 := by
    rcases hletter with rfl | rfl <;> rfl
  exact @lexes_number '0' [] (letter :: cs ++ rest) (by decide) hlength _ hlater

namespace IntegerLiteral

variable (literal : IntegerLiteral)

/-- The literal before a blank, without its sign. -/
theorem lexes_unsigned {rest : List Char} {later : List Face} (hrest : Lexes (' ' :: rest) later) :
    Lexes (literal.radix.lead ++ literal.first :: literal.rest ++ ' ' :: rest)
      ((.number, String.ofList literal.number) :: (literal.skipped ++ later)) := by
  obtain ⟨-, hkind, -⟩ := isDigitOf_cases literal.first_digit
  have hkinds : ∀ c ∈ literal.rest, c = '_' ∨ if literal.radix = .hexadecimal then
      isHexDigit c = true else c.isDigit = true := fun c hc =>
    (literal.rest_digits c hc).imp_right fun hdigit => (isDigitOf_cases hdigit).2.1
  have hname := fun c => literal.isIdentRest_of_mem (c := c)
  unfold number skipped
  cases hradix : literal.radix with
  | decimal =>
    simp only [hradix, reduceCtorEq, if_false] at hkind hkinds
    have hrests : ∀ c ∈ literal.rest, isDigitRest c = true := fun c hc => by
      rcases hkinds c hc with rfl | hdigit
      · rfl
      · rw [isDigitRest, isDecimalDigit_of_isDigit hdigit, Bool.true_or]
    refine lexes_number hkind ?_ hrest
    rw [hexLength?_stop rfl, decimalLength?_stop rfl, hexLength?_of_digitRest hrests,
      decimalLength?_of_digits (isDecimalDigit_of_isDigit hkind) hrests]
    rfl
  | hexadecimal =>
    simp only [hradix, if_true] at hkind hkinds
    have hdigits : ∀ c ∈ literal.first :: literal.rest, (isHexDigit c || c == '_') = true := by
      refine List.forall_mem_cons.mpr ⟨by rw [hkind, Bool.true_or], fun c hc => ?_⟩
      rcases hkinds c hc with rfl | hdigit
      · rfl
      · rw [hdigit, Bool.true_or]
    refine lexes_number (by decide) ?_ hrest
    show (hexLength? ('0' :: 'x' :: literal.first :: literal.rest ++ ' ' :: rest)).or _ = _
    rw [hexLength?_stop rfl, hexLength?_of_digits (by simp) hdigits]
    rfl
  -- the zero is a number by itself, and the letter starts a name
  | octal =>
    exact lexes_zeroName (.inl rfl) (List.all_eq_true.mpr hname) rfl hrest
  | binary =>
    exact lexes_zeroName (.inr rfl) (List.all_eq_true.mpr hname) rfl hrest

theorem head?_unsigned (rest : List Char) :
    (literal.radix.lead ++ literal.first :: literal.rest ++ rest).head?.all breaksSymbol = true := by
  obtain ⟨-, hkind, -⟩ := isDigitOf_cases literal.first_digit
  cases hradix : literal.radix with
  | decimal =>
    rw [hradix, if_neg (by decide)] at hkind
    exact breaksSymbol_of_isDigit hkind
  | hexadecimal | octal | binary => rfl

/-- Symbols end before a literal. -/
theorem head?_text (rest : List Char) :
    (literal.text.toList ++ rest).head?.all breaksSymbol = true := by
  rw [text, String.toList_ofList]
  cases literal.isNegative with
  | false => exact literal.head?_unsigned rest
  | true => rfl

/-- The literal before a blank. -/
theorem lexes_text {rest : List Char} {later : List Face} (hrest : Lexes (' ' :: rest) later) :
    Lexes (literal.text.toList ++ ' ' :: rest) (signFaces literal.isNegative ++
      (.number, String.ofList literal.number) :: (literal.skipped ++ later)) := by
  have hunsigned := literal.lexes_unsigned hrest
  rw [text, String.toList_ofList, List.append_assoc]
  cases literal.isNegative with
  | false => exact hunsigned
  | true => exact lexes_symbol (lexemeAt?_openSymbol (by decide) (literal.head?_unsigned _)) hunsigned

theorem isPassedOver_of_mem_skipped {face : Face} (h : face ∈ literal.skipped) :
    IsPassedOver face := by
  have hwords : ∀ word ∈ bodyWords, (word.toList.drop 1).head?.any Char.isDigit = false := by decide
  have hdigit : literal.radix ≠ .hexadecimal → literal.first.isDigit = true := fun hradix => by
    have hkind := (isDigitOf_cases literal.first_digit).2.1
    rwa [if_neg hradix] at hkind
  have hname : ∀ letter, literal.first.isDigit = true →
      IsPassedOver (.word (String.ofList (letter :: literal.first :: literal.rest))) := by
    intro letter hfirst
    refine isPassedOver_of_notMem (by simp [Face.word]) fun hmem => ?_
    have hnone := hwords _ hmem
    rw [Face.word, String.toList_ofList] at hnone
    exact absurd hfirst (by simpa using hnone)
  unfold skipped at h
  cases hradix : literal.radix with
  | decimal | hexadecimal =>
    rw [hradix] at h
    cases h
  | octal | binary =>
    rw [hradix] at h
    cases List.mem_singleton.mp h
    exact hname _ (hdigit (by rw [hradix]; decide))

/-! ## The integer that is read -/

theorem filter_number :
    literal.number.filter (· != '_') =
      if literal.IsWhole then literal.radix.lead ++ literal.digits else ['0'] := by
  have hfirst : literal.first ≠ '_' := (isDigitOf_cases literal.first_digit).2.2.2
  have hdigits : (literal.first :: literal.rest).filter (· != '_') = literal.digits :=
    List.filter_cons_of_pos (by simpa using hfirst)
  by_cases hwhole : literal.IsWhole
  · have hlead : literal.radix.lead.filter (· != '_') = literal.radix.lead := by
      cases literal.radix <;> rfl
    rw [literal.number_of_isWhole hwhole, List.filter_append, hlead, hdigits, if_pos hwhole]
  · rw [literal.number_of_not_isWhole hwhole, if_neg hwhole]
    rfl

theorem readInt64?_digits (h : (literal.magnitude : Int) ≤ Number.int64Max) :
    Number.readInt64? literal.radix.base literal.digits = some (literal.magnitude : Int) := by
  have hunsigned : ∀ sign, sign ∈ ['+', '-'] → literal.digits.head? ≠ some sign := by
    intro sign hsign heq
    have hdigit := literal.isDigitOf_of_mem_digits (List.mem_of_mem_head? heq)
    have hnone : isIdentRest sign = false := by
      simp only [List.mem_cons, List.not_mem_nil, or_false] at hsign
      rcases hsign with rfl | rfl <;> rfl
    exact absurd (isDigitOf_cases hdigit).2.2.1 (by simp [hnone])
  have hrange : Number.isInt64 literal.magnitude = true :=
    Number.isInt64_iff.mpr ⟨by unfold Number.int64Min; omega, h⟩
  rw [Number.readInt64?, Number.readInt?_of_unsigned (hunsigned '+' (by decide))
    (hunsigned '-' (by decide)), readNat?_digits]
  exact Option.filter_some_pos hrange

/-- The number token of the literal is read as the value of the literal, unless only its zero is
part of the token. -/
theorem numberText?_number (hlow : -2 ^ 63 < literal.value) (hhigh : literal.value < 2 ^ 63) :
    numberText? (signedText literal.isNegative (String.ofList literal.number)) =
      some (Number.decimal literal.valueRead) := by
  have hbound : (literal.magnitude : Int) ≤ Number.int64Max := by
    unfold value at hlow hhigh
    unfold Number.int64Max
    by_cases hnegative : literal.isNegative = true
    · rw [if_pos hnegative] at hlow
      omega
    · rw [if_neg hnegative] at hhigh
      omega
  have hread := literal.readInt64?_digits hbound
  have hsigned : (if literal.isNegative then negateInt64 literal.magnitude
      else literal.magnitude) = literal.value := by
    rw [value, negateInt64_of_nonneg (Int.natCast_nonneg _)]
  rw [numberText?_signedText literal.isNegative literal.head?_number, filter_number, valueRead]
  by_cases hwhole : literal.IsWhole
  · have hvalue : unsignedNumber? literal.isNegative (literal.radix.lead ++ literal.digits) =
        some (Number.decimalChars literal.value) := by
      rw [← hsigned]
      rcases hwhole with hradix | hradix
      · have hchars : IsNumberText literal.digits := fun c hc => by
          have hkind := (isDigitOf_cases (literal.isDigitOf_of_mem_digits hc)).2.1
          rw [hradix, if_neg (by decide)] at hkind
          exact mem_numberChars_of_isDigit hkind
        rw [hradix] at hread ⊢
        simp only [Radix.lead, List.nil_append, unsignedNumber?, radixDigits?_of_isNumberText hchars]
        rw [show Number.readInt64? 10 literal.digits = _ from hread]
      · rw [hradix] at hread ⊢
        show (Number.readInt64? 16 literal.digits).map _ = _
        rw [show Number.readInt64? 16 literal.digits = _ from hread]
        rfl
    rw [if_pos hwhole, if_pos hwhole, hvalue]
    rfl
  · rw [if_neg hwhole, if_neg hwhole]
    cases literal.isNegative <;> rfl

end IntegerLiteral

end WireSchema.Swift
