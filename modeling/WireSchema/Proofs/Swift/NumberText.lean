import WireSchema.Proofs.Swift.LexemeEnds
import WireSchema.Proofs.Swift.Members

/-!
# Numbers in generated code as tokens

A tag that is a number is written as it is, so it need not be one token: an exponent
after a bare point, as in `1.e5`, is a name of its own. The parser takes the number that
the tag starts with, and its sign, for the raw value of a case and passes over the rest.
-/

namespace WireSchema.Swift

open Outcome (bind_eq_ok_iff)
open Text (isIdentStart isIdentRest isDecimalDigit)

def numberChars : List Char :=
  ['0', '1', '2', '3', '4', '5', '6', '7', '8', '9', '.', 'e', 'E', '-', '+']

def IsNumberText (cs : List Char) : Prop :=
  ∀ c ∈ cs, c ∈ numberChars

/-- What is checked of each of these characters holds of all of them. -/
theorem forall_numberChars {p : Char → Prop} [DecidablePred p]
    (h : numberChars.all (fun c => decide (p c)) = true) : ∀ c ∈ numberChars, p c := by
  intro c hc
  exact of_decide_eq_true (List.all_eq_true.mp h c hc)

theorem mem_numberChars_of_isDigit {c : Char} (h : c.isDigit = true) : c ∈ numberChars := by
  have hpoints : ∀ n ∈ List.range' 48 10, Char.ofNat n ∈ numberChars := by decide
  simp only [Char.isDigit, Bool.and_eq_true, decide_eq_true_eq, ge_iff_le] at h
  have hlow : 48 ≤ c.toNat := UInt32.le_iff_toNat_le.mp h.1
  have hhigh : c.toNat ≤ 57 := UInt32.le_iff_toNat_le.mp h.2
  have hpoint := hpoints c.toNat (List.mem_range'_1.mpr ⟨hlow, by omega⟩)
  rwa [Char.ofNat_toNat] at hpoint

/-! ## Lexemes at the end of a line -/

def leadingNumber (cs : List Char) : List Char :=
  cs.take ((decimalLength? cs).getD 0)

theorem hexLength?_numberText {d : Char} {cs : List Char} (h : IsNumberText cs)
    (rest : List Char) : hexLength? (d :: (cs ++ '\n' :: rest)) = none := by
  have hradix : ∀ c ∈ numberChars, (c == 'x' || c == 'X') = false :=
    forall_numberChars (by decide)
  cases cs with
  | nil =>
    rw [List.nil_append]
    unfold hexLength?
    split
    · next heq =>
      cases heq
      rfl
    · rfl
  | cons c later =>
    have hc := hradix c (h c List.mem_cons_self)
    unfold hexLength?
    split
    · next heq =>
      cases heq
      dsimp only
      rw [hc, Bool.false_and, if_neg (by simp)]
    · rfl

/-- Of the symbols in numbers only points make up a longer one, which takes three of them. -/
theorem lexemeAt?_numberSymbol {c : Char} (hc : c = '.' ∨ c = '-' ∨ c = '+') {cs : List Char}
    (h : IsNumberText cs) :
    ∃ n, n ≤ (c :: cs).length ∧
      ∀ rest, lexemeAt? (c :: cs ++ '\n' :: rest) = some (.symbol, n) := by
  have hbreaks : ∀ d ∈ numberChars, d ≠ '.' → breaksSymbol d = true :=
    forall_numberChars (by decide)
  have hless : '<' ∉ numberChars := by decide
  match cs with
  | [] =>
    refine ⟨1, by simp, fun rest => ?_⟩
    rcases hc with rfl | rfl | rfl <;> rfl
  | d :: later =>
    by_cases hd : d = '.'
    · subst hd
      rcases hc with rfl | rfl | rfl
      · match later with
        | [] => exact ⟨1, by simp, fun rest => rfl⟩
        | e :: more =>
          by_cases he : e = '.'
          · subst he
            exact ⟨3, by simp, fun rest => rfl⟩
          · have he' : e ≠ '<' := fun heq => hless (heq ▸ h e (by simp))
            refine ⟨1, by simp, fun rest => ?_⟩
            have hlength : symbolLength? ('.' :: '.' :: e :: (more ++ '\n' :: rest)) = some 1 := by
              simp [symbolLength?, longSymbols, List.isPrefixOf, Ne.symm he, Ne.symm he',
                shortSymbols]
            simp only [List.cons_append]
            rw [lexemeAt?_cons (by decide) (by decide) (by decide)]
            simp only [List.findSome?_cons, hlength]
            rfl
      · exact ⟨1, by simp, fun rest => rfl⟩
      · exact ⟨1, by simp, fun rest => rfl⟩
    · have hd' := hbreaks d (h d List.mem_cons_self) hd
      refine ⟨1, by simp, fun rest => ?_⟩
      rcases hc with rfl | rfl | rfl
      · exact lexemeAt?_openSymbol (by decide) hd'
      · exact lexemeAt?_openSymbol (by decide) hd'
      · exact lexemeAt?_plainSymbol (by decide) _

/-- Of the characters of numbers none starts a comment, a literal or a name in backticks, and
the digits start no names. -/
theorem numberChar_cases : ∀ c ∈ numberChars,
    ('/' ≠ c ∧ '"' ≠ c ∧ '\x60' ≠ c) ∧
      (isDecimalDigit c = true ∧ isIdentStart c = false ∨
        isDecimalDigit c = false ∧ isIdentStart c = true ∨
        isDecimalDigit c = false ∧ isIdentStart c = false ∧ (c = '.' ∨ c = '-' ∨ c = '+')) :=
  forall_numberChars (by decide)

theorem nameLength?_of_not_isIdentStart {c : Char} (h : isIdentStart c = false) (rest : List Char) :
    nameLength? (c :: rest) = none := by
  rw [nameLength?, h, if_neg (by simp)]

theorem length_leadingNumber_le (cs : List Char) : (leadingNumber cs).length ≤ cs.length := by
  rw [leadingNumber, List.length_take]
  exact Nat.min_le_right _ _

theorem isIdentStart_of_isDecimalDigit {c : Char} (h : c ∈ numberChars)
    (hc : isDecimalDigit c = true) : isIdentStart c = false := by
  obtain ⟨-, ⟨-, hstart⟩ | ⟨hdigit, -⟩ | ⟨hdigit, -, -⟩⟩ := numberChar_cases c h
  · exact hstart
  · exact absurd hc (by simp [hdigit])
  · exact absurd hc (by simp [hdigit])

/-- A number at the front of a run of characters of numbers. -/
theorem lexemeAt?_leadingNumber {c : Char} (hc : isDecimalDigit c = true) {cs : List Char}
    (h : IsNumberText (c :: cs)) (rest : List Char) :
    lexemeAt? (c :: cs ++ '\n' :: rest) = some (.number, (leadingNumber (c :: cs)).length) := by
  obtain ⟨⟨hslash, hquote, htick⟩, -⟩ := numberChar_cases c (h c List.mem_cons_self)
  have hstart := isIdentStart_of_isDecimalDigit (h c List.mem_cons_self) hc
  obtain ⟨n, hn⟩ : ∃ n, decimalLength? (c :: cs) = some n := by
    rw [decimalLength?, if_pos hc]
    exact ⟨_, rfl⟩
  have hlength : (leadingNumber (c :: cs)).length = n := by
    rw [leadingNumber, hn, Option.getD_some, List.length_take,
      Nat.min_eq_left (decimalLength?_le hn)]
  have hdecimal : decimalLength? (c :: cs ++ '\n' :: rest) = some n := by
    rw [decimalLength?_stop rfl, hn]
  rw [List.cons_append] at hdecimal ⊢
  rw [lexemeAt?_cons hslash hquote htick, hlength]
  simp only [List.findSome?_cons, nameLength?_of_not_isIdentStart hstart,
    hexLength?_numberText (fun d hd => h d (List.mem_cons_of_mem c hd)), hdecimal,
    Option.map_none, Option.map_some]

/-- The lexeme at the front of a run of characters of numbers is the same on every line that
ends with the run. -/
theorem lexemeAt?_numberText {c : Char} {cs : List Char} (h : IsNumberText (c :: cs)) :
    ∃ kind n, n ≤ (c :: cs).length ∧ kind ∈ [LexemeKind.name, .number, .symbol] ∧
      ∀ rest, lexemeAt? (c :: cs ++ '\n' :: rest) = some (kind, n) := by
  have hcs : IsNumberText cs := fun d hd => h d (List.mem_cons_of_mem c hd)
  obtain ⟨⟨hslash, hquote, htick⟩, ⟨hdigit, -⟩ | ⟨-, hstart⟩ | ⟨-, -, hsymbol⟩⟩ :=
    numberChar_cases c (h c List.mem_cons_self)
  · exact ⟨.number, _, length_leadingNumber_le _, by decide, lexemeAt?_leadingNumber hdigit h⟩
  · refine ⟨.name, 1 + runLength isIdentRest cs, ?_, by decide, fun rest => ?_⟩
    · have hle := runLength_le isIdentRest cs
      rw [List.length_cons]
      omega
    · have hlength : nameLength? (c :: (cs ++ '\n' :: rest)) =
          some (1 + runLength isIdentRest cs) := by
        rw [nameLength?, if_pos hstart, runLength_stop (by decide)]
      rw [List.cons_append, lexemeAt?_cons hslash hquote htick]
      simp only [List.findSome?_cons, hlength, Option.map_some]
  · obtain ⟨n, hn, hlength⟩ := lexemeAt?_numberSymbol hsymbol hcs
    exact ⟨.symbol, n, hn, by decide, hlength⟩

/-! ## Tokens of numbers -/

instance (cs : List Char) : Decidable (IsNumberText cs) :=
  List.decidableBAll (· ∈ numberChars) cs

structure IsNumeric (face : Face) : Prop where
  kind : face.1 ∈ [TokenKind.identifier, .number, .punctuation]
  chars : IsNumberText face.2.toList

theorem face?_numberLexeme {kind : LexemeKind} {cs : List Char}
    (hkind : kind ∈ [LexemeKind.name, .number, .symbol]) (h : IsNumberText cs) :
    ∃ face, Lexeme.face? ⟨kind, cs⟩ = some face ∧ IsNumeric face := by
  have htext : IsNumberText (String.ofList cs).toList := by rwa [String.toList_ofList]
  simp only [List.mem_cons, List.not_mem_nil, or_false] at hkind
  rcases hkind with rfl | rfl | rfl
  · exact ⟨(.identifier, String.ofList cs), rfl, by simp, htext⟩
  · refine ⟨(if cs.head?.any Char.isDigit then .number else .punctuation, String.ofList cs), rfl,
      ?_, htext⟩
    split <;> simp
  · exact ⟨(.punctuation, String.ofList cs), rfl, by simp, htext⟩

/-- A run of characters of numbers before the end of a line is made of numeric tokens. -/
theorem lexes_numberText {cs : List Char} (h : IsNumberText cs) :
    ∃ faces, (∀ face ∈ faces, IsNumeric face) ∧
      ∀ ⦃rest : List Char⦄ ⦃later : List Face⦄, Lexes ('\n' :: rest) later →
        Lexes (cs ++ '\n' :: rest) (faces ++ later) := by
  induction hlength : cs.length using Nat.strongRecOn generalizing cs with
  | _ length ih =>
    cases cs with
    | nil => exact ⟨[], by simp, fun _ _ hrest => hrest⟩
    | cons c tail =>
      obtain ⟨kind, n, hn, hkind, hlexeme⟩ := lexemeAt?_numberText h
      have hpos : 0 < n := lexemeAt?_pos (hlexeme [])
      have htake : IsNumberText ((c :: tail).take n) := fun d hd => h d (List.mem_of_mem_take hd)
      have hdrop : IsNumberText ((c :: tail).drop n) := fun d hd => h d (List.mem_of_mem_drop hd)
      have hshorter : ((c :: tail).drop n).length < length := by
        rw [List.length_drop, ← hlength]
        simp only [List.length_cons] at hn ⊢
        omega
      obtain ⟨faces, hfaces, hlater⟩ := ih _ hshorter hdrop rfl
      obtain ⟨face, hface, hnumeric⟩ := face?_numberLexeme hkind htake
      refine ⟨face :: faces, ?_, fun rest later hrest => ?_⟩
      · intro other hother
        rcases List.mem_cons.mp hother with rfl | hother
        · exact hnumeric
        · exact hfaces other hother
      · have hsplit : c :: tail ++ '\n' :: rest =
            (c :: tail).take n ++ ((c :: tail).drop n ++ '\n' :: rest) := by
          rw [← List.append_assoc, List.take_append_drop]
        have hfront := hlexeme rest
        rw [hsplit] at hfront ⊢
        have hlexed : lexemeAt? ((c :: tail).take n ++ ((c :: tail).drop n ++ '\n' :: rest)) =
            some (kind, ((c :: tail).take n).length) := by
          rw [hfront, List.length_take, Nat.min_eq_left hn]
        have happend := lexes_append hlexed (hlater hrest)
        rw [hface] at happend
        exact happend

theorem isDecimalDigit_of_isDigit {c : Char} (h : c.isDigit = true) : isDecimalDigit c = true := by
  have hdigits : ∀ c ∈ numberChars, c.isDigit = true → isDecimalDigit c = true :=
    forall_numberChars (by decide)
  exact hdigits c (mem_numberChars_of_isDigit h) h

theorem breaksSymbol_of_isDigit {c : Char} (h : c.isDigit = true) : breaksSymbol c = true := by
  have hdigits : ∀ c ∈ numberChars, c.isDigit = true → breaksSymbol c = true :=
    forall_numberChars (by decide)
  exact hdigits c (mem_numberChars_of_isDigit h) h

/-- A run of characters of numbers that starts with a digit is a number and numeric tokens. -/
theorem lexes_leadingNumber {c : Char} (hc : c.isDigit = true) {cs : List Char}
    (h : IsNumberText (c :: cs)) :
    ∃ skipped, (∀ face ∈ skipped, IsNumeric face) ∧
      ∀ ⦃rest : List Char⦄ ⦃later : List Face⦄, Lexes ('\n' :: rest) later →
        Lexes (c :: cs ++ '\n' :: rest)
          ((.number, String.ofList (leadingNumber (c :: cs))) :: skipped ++ later) := by
  have hlexeme := lexemeAt?_leadingNumber (isDecimalDigit_of_isDigit hc) h
  have hpos : 0 < (leadingNumber (c :: cs)).length := lexemeAt?_pos (hlexeme [])
  have hsplit : leadingNumber (c :: cs) ++ (c :: cs).drop (leadingNumber (c :: cs)).length =
      c :: cs := by
    have htake : leadingNumber (c :: cs) =
        (c :: cs).take (leadingNumber (c :: cs)).length := by
      rw [leadingNumber, List.length_take, List.take_eq_take_iff]
      omega
    rw [htake, List.length_take, Nat.min_eq_left (length_leadingNumber_le _),
      List.take_append_drop]
  obtain ⟨skipped, hskipped, hlater⟩ := lexes_numberText fun d hd =>
    h d (List.mem_of_mem_drop (i := (leadingNumber (c :: cs)).length) hd)
  have hface : Lexeme.face? ⟨.number, leadingNumber (c :: cs)⟩ =
      some (.number, String.ofList (leadingNumber (c :: cs))) := by
    obtain ⟨d, ds, hlead⟩ := List.exists_cons_of_length_pos hpos
    have hd : d = c := by
      rw [hlead] at hsplit
      exact (List.cons.inj hsplit).1
    show some ((if (leadingNumber (c :: cs)).head?.any Char.isDigit then TokenKind.number
      else .punctuation), _) = _
    rw [hlead, hd, List.head?_cons, Option.any_some, if_pos hc]
  refine ⟨skipped, hskipped, fun rest later hrest => ?_⟩
  have hfront := hlexeme rest
  rw [← hsplit, List.append_assoc] at hfront ⊢
  rw [hsplit] at hfront ⊢
  have happend := lexes_append hfront (hlater hrest)
  rw [hface] at happend
  exact happend

def signChars (negative : Bool) : List Char :=
  if negative then ['-'] else []

def signFaces (negative : Bool) : List Face :=
  if negative then [.symbol "-"] else []

/-- Characters of numbers that start with a digit, behind a minus sign or not. -/
structure IsSignedNumber (cs : List Char) (negative : Bool) (number : List Char) : Prop where
  eq : cs = signChars negative ++ number
  digit : number.head?.any Char.isDigit = true
  chars : IsNumberText number

/-- A number with or without a sign at the end of a line. -/
theorem spellsLines_number {front text : String} {faces : List Face}
    (hfront : Spells breaksSymbol front faces) {negative : Bool} {number : List Char}
    (h : IsSignedNumber text.toList negative number) :
    ∃ skipped, (∀ face ∈ skipped, IsNumeric face) ∧
      SpellsLines [front ++ text]
        (faces ++ (signFaces negative ++
          (.number, String.ofList (leadingNumber number)) :: skipped)) := by
  obtain ⟨htext, hdigit, hchars⟩ := h
  cases number with
  | nil => cases hdigit
  | cons c cs =>
    have hc : c.isDigit = true := hdigit
    obtain ⟨skipped, hskipped, hnumber⟩ := lexes_leadingNumber hc hchars
    refine ⟨skipped, hskipped, fun rest later hrest => ?_⟩
    have hunsigned := hnumber (lexes_blank (c := '\n') (by decide) hrest)
    have hsigned : Lexes (text.toList ++ '\n' :: rest) (signFaces negative ++
        ((.number, String.ofList (leadingNumber (c :: cs))) :: skipped ++ later)) := by
      rw [htext, List.append_assoc]
      cases negative with
      | false => exact hunsigned
      | true =>
        have hbreaks : (c :: cs ++ '\n' :: rest).head?.all breaksSymbol = true :=
          breaksSymbol_of_isDigit hc
        exact lexes_symbol (lexemeAt?_openSymbol (by decide) hbreaks) hunsigned
    have hbreaks : (text.toList ++ '\n' :: rest).head?.all breaksSymbol = true := by
      rw [htext]
      cases negative with
      | false => exact breaksSymbol_of_isDigit hc
      | true => rfl
    have hline := hfront hbreaks hsigned
    simpa [lineChars, List.append_assoc] using hline

/-! ## Tokens that a body passes over -/

/-- The words and symbols that mean something where an item of a body starts or ends. -/
def bodyWords : List String :=
  modifiers ++ DeclKind.all.map DeclKind.keyword ++
    ["case", "var", "let", "func", "init", "deinit", "subscript", "typealias", "extension", "@",
      "\x7d", ","]

/-- The face makes nothing in a body, and it does not introduce a further case. -/
structure IsPassedOver (face : Face) : Prop where
  item : ∀ (at_ : Position) (rest : List Token),
    nextBodyItem (face.token at_ :: rest) = .ok (.members [], rest)
  comma : face.isWord "," = false

/-- A body passes over every name, number or symbol that means nothing in it. -/
theorem isPassedOver_of_notMem {face : Face}
    (hface : face.1 ∈ [TokenKind.identifier, .number, .punctuation])
    (htext : face.2 ∉ bodyWords) : IsPassedOver face := by
  have hne : ∀ word ∈ bodyWords, (face.2 == word) = false := fun word hword =>
    beq_false_of_ne fun heq => htext (heq ▸ hword)
  have hword : ∀ word ∈ bodyWords, face.isWord word = false := fun word hmem => by
    rw [Face.isWord, hne word hmem, Bool.and_false]
  have hdoc : (face.1 == .doc) = false := by
    have hkinds : ∀ kind ∈ [TokenKind.identifier, .number, .punctuation],
        (kind == .doc) = false := by decide
    exact hkinds _ hface
  have hmodifier : modifiers.contains face.2 = false := by
    rw [Bool.eq_false_iff]
    exact fun hmem => htext (List.mem_append_left _ (List.mem_append_left _
      (List.contains_iff_mem.mp hmem)))
  refine ⟨fun at_ rest => ?_, hword _ (by decide)⟩
  have hpart : readHeadingPart? (face.token at_ :: rest) = .ok none := by
    rw [readHeadingPart?, Face.kind_token, hdoc, Face.isWord_token, hword _ (by decide),
      Face.text_token, hmodifier, Bool.and_false, Face.isWord_token, hword _ (by decide)]
    rfl
  have hheading : readHeading (face.token at_ :: rest) = .ok (.empty, face.token at_ :: rest) := by
    rw [readHeading_eq]
    exact bind_eq_ok_iff.mpr ⟨_, hpart, rfl⟩
  have hkind : DeclKind.ofKeyword? face.2 = none := by
    refine List.find?_eq_none.mpr fun kind hmem => ?_
    have hkeyword := hne kind.keyword (List.mem_append_left _ (List.mem_append_right _
      (List.mem_map_of_mem hmem)))
    rw [BEq.comm] at hkeyword
    simp [hkeyword]
  have hkeywordItem : readKeywordItem .empty (face.token at_) rest = .ok (.members [], rest) := by
    have hwords : ∀ word ∈ ["case", "var", "let", "func", "init", "deinit", "subscript",
        "typealias", "extension"], (face.2 == word) = false := fun word hmem =>
      hne word (List.mem_append_right _ (List.mem_append_left ["@", "\x7d", ","] hmem))
    simp only [readKeywordItem, Face.text_token, hwords, hkind, List.mem_cons, true_or, or_true,
      Bool.or_self, Bool.false_eq_true, if_false]
    rfl
  have hitem : readBodyItem .empty (face.token at_) rest = .ok (.members [], rest) := by
    rw [readBodyItem, Face.isWord_token, hword _ (by decide), if_neg (by simp)]
    split
    · exact hkeywordItem
    · rfl
  exact bind_eq_ok_iff.mpr ⟨_, hheading, hitem⟩

theorem IsNumeric.isPassedOver {face : Face} (h : IsNumeric face) : IsPassedOver face := by
  refine isPassedOver_of_notMem h.kind fun hmem => ?_
  have hwords : ∀ word ∈ bodyWords, ¬ IsNumberText word.toList := by decide
  exact hwords _ hmem h.chars

theorem readsBody_passedOver {faces : List Face} (h : ∀ face ∈ faces, IsPassedOver face) :
    ReadsBody faces .empty := by
  induction faces with
  | nil => exact .nil
  | cons face faces ih =>
    intro tokens rest after later htokens hrest hlater
    obtain ⟨at_, tail, rfl, htail⟩ := map_face_eq_cons.mp htokens
    obtain ⟨members, houtline, hread⟩ :=
      ih (fun other hother => h other (List.mem_cons_of_mem _ hother)) htail hrest hlater
    refine ⟨members, houtline, ?_⟩
    rw [List.cons_append, readBody_eq]
    refine bind_eq_ok_iff.mpr ⟨_, (h face List.mem_cons_self).item at_ _, ?_⟩
    exact bind_eq_ok_iff.mpr ⟨_, hread, rfl⟩

/-! ## Cases with a number -/

def signedText (negative : Bool) (number : String) : String :=
  String.ofList (signChars negative) ++ number

/-- The minus sign in front of a number, if there is one, and the rest. -/
def splitMinus : List Char → Bool × List Char
  | '-' :: cs => (true, cs)
  | cs => (false, cs)

theorem IsSignedNumber.splitMinus_eq {cs number : List Char} {negative : Bool}
    (h : IsSignedNumber cs negative number) : splitMinus cs = (negative, number) := by
  obtain ⟨rfl, hdigit, -⟩ := h
  cases negative with
  | true => rfl
  | false =>
    show splitMinus number = _
    unfold splitMinus
    split
    · cases hdigit
    · rfl

/-- What the parser takes for a raw value where a number is written. -/
def rawLiteralOf (text : String) : String :=
  signedText (splitMinus text.toList).1 (String.ofList (leadingNumber (splitMinus text.toList).2))

theorem IsSignedNumber.leadingNumber_ne {cs number : List Char} {negative : Bool}
    (h : IsSignedNumber cs negative number) : String.ofList (leadingNumber number) ≠ "-" := by
  intro hminus
  have hchars : leadingNumber number = ['-'] := by simpa using congrArg String.toList hminus
  have hhead : number.head? = some '-' := by
    have htake := congrArg List.head? hchars
    rw [leadingNumber, List.head?_take] at htake
    split at htake
    · cases htake
    · exact htake
  have hdigit := h.digit
  rw [hhead] at hdigit
  cases hdigit

/-! ## The values of numbers -/

/-- The sign of a number is read apart from its digits. -/
theorem numberText?_signedText (negative : Bool) {number : List Char}
    (h : number.head?.any Char.isDigit = true) :
    numberText? (signedText negative (String.ofList number)) =
      (unsignedNumber? negative (number.filter (· != '_'))).map String.ofList := by
  cases number with
  | nil => cases h
  | cons c cs =>
    have hc : c.isDigit = true := h
    have hkept : (c != '_') = true := bne_iff_ne.mpr (by rintro rfl; cases hc)
    have hchars : (signedText negative (String.ofList (c :: cs))).toList =
        signChars negative ++ c :: cs := by simp [signedText]
    rw [numberText?, hchars]
    cases negative with
    | true => rfl
    | false =>
      have hfilter : (c :: cs).filter (· != '_') = c :: cs.filter (· != '_') :=
        List.filter_cons_of_pos hkept
      rw [signChars, if_neg (by simp), List.nil_append, hfilter]
      split
      · next heq =>
        cases heq
        cases hc
      · rfl

/-- A decimal number announces no radix. -/
theorem radixDigits?_of_isNumberText {cs : List Char} (h : IsNumberText cs) :
    radixDigits? cs = none := by
  unfold radixDigits?
  split
  · exact absurd (h 'x' (by simp)) (by decide)
  · exact absurd (h 'o' (by simp)) (by decide)
  · exact absurd (h 'b' (by simp)) (by decide)
  · rfl

theorem negateInt64_of_nonneg {n : Int} (h : 0 ≤ n) : negateInt64 n = -n := by
  rw [negateInt64, if_neg]
  rintro rfl
  exact absurd h (by decide)

/-- The raw value is the number, and the minus sign before it if there is one. -/
theorem splitRawLiteral_number (negative : Bool) {number : String} (hnumber : number ≠ "-")
    {skipped : List Face} {tokens : List Token}
    (htokens : tokens.map Token.face = signFaces negative ++ (.number, number) :: skipped)
    (rest : List Token) :
    ∃ after, after.map Token.face = skipped ∧
      splitRawLiteral (tokens ++ rest) = (.number (signedText negative number), after ++ rest) := by
  cases negative with
  | false =>
    obtain ⟨at_, after, rfl, hafter⟩ := map_face_eq_cons.mp htokens
    have hword : Face.isWord (.number, number) "-" = false := beq_false_of_ne hnumber
    have htext : signedText false number = number := String.empty_append
    refine ⟨after, hafter, ?_⟩
    rw [List.cons_append, splitRawLiteral, Face.isWord_token, hword, htext]
    rfl
  | true =>
    obtain ⟨signAt, tail, rfl, htail⟩ := map_face_eq_cons.mp htokens
    obtain ⟨at_, after, rfl, hafter⟩ := map_face_eq_cons.mp htail
    exact ⟨after, hafter, rfl⟩

/-- A case with a raw value is read up to the end of the value, unless a comma comes next. -/
theorem readCases_rawLiteral (docs : List String) (name : String) {literal rest : List Token}
    {raw : RawLiteral} (hsplit : splitRawLiteral literal = (raw, rest))
    (hcomma : passWord? "," rest = none) (nameAt equalsAt : Position) :
    readCases docs ((Face.word name).token nameAt :: (Face.symbol "=").token equalsAt :: literal) =
      .ok ([{ enumCase docs name [] none with position := nameAt, rawValue := some raw }], rest) := by
  have hvalue : splitRawValue ((Face.symbol "=").token equalsAt :: literal) = (some raw, rest) := by
    show (some (splitRawLiteral literal).1, (splitRawLiteral literal).2) = _
    rw [hsplit]
  have hcase : readCase docs ((Face.word name).token nameAt ::
      (Face.symbol "=").token equalsAt :: literal) =
        .ok ({ enumCase docs name [] none with position := nameAt, rawValue := some raw }, rest) := by
    refine bind_eq_ok_iff.mpr ⟨_, readIdentifier_word name nameAt _, ?_⟩
    refine bind_eq_ok_iff.mpr ⟨([], (Face.symbol "=").token equalsAt :: literal), rfl, ?_⟩
    dsimp only
    rw [hvalue]
    rfl
  rw [readCases, readList_eq]
  refine bind_eq_ok_iff.mpr ⟨_, hcase, ?_⟩
  dsimp only
  rw [hcomma]
  rfl

/-- No comma comes next after a number, whatever is passed over behind it. -/
theorem passWord?_comma_passedOver {skipped : List Face}
    (hskipped : ∀ face ∈ skipped, IsPassedOver face) {tokens rest : List Token}
    (htokens : tokens.map Token.face = skipped) (hrest : StartsItem rest) :
    passWord? "," (tokens ++ rest) = none := by
  cases tokens with
  | nil => exact hrest.passWord? (by decide)
  | cons token more =>
    have htoken : IsPassedOver token.face := hskipped _ (by rw [← htokens]; simp)
    have hword : token.isWord "," = false := htoken.comma
    rw [List.cons_append, passWord?, hword, if_neg (by simp)]

/-- A case with a number is read as an item of a body, and what follows the number is passed
over. -/
theorem readsBody_numberCase (docs : List String) (name : String) (negative : Bool)
    {number : String} (hnumber : number ≠ "-") {skipped : List Face}
    (hskipped : ∀ face ∈ skipped, IsPassedOver face) :
    ReadsBody
      (headingFaces docs false ++ .word "case" :: .word name :: .symbol "=" ::
        (signFaces negative ++ (.number, number) :: skipped))
      (.ofCases [{ enumCase docs name [] none with
        rawValue := some (.number (signedText negative number)) }]) := by
  intro tokens rest after later htokens hrest hlater
  obtain ⟨caseAt, named, hnamed, hitem⟩ := nextBodyItem_headingFaces htokens (by decide) rest
  obtain ⟨nameAt, tail, rfl, htail⟩ := map_face_eq_cons.mp hnamed
  obtain ⟨equalsAt, literal, rfl, hliteral⟩ := map_face_eq_cons.mp htail
  obtain ⟨skippedTokens, hskippedTokens, hsplit⟩ :=
    splitRawLiteral_number negative hnumber hliteral rest
  have hcases := readCases_rawLiteral docs name hsplit
    (passWord?_comma_passedOver hskipped hskippedTokens hrest) nameAt equalsAt
  have hnext : nextBodyItem (tokens ++ rest) =
      .ok (.members [.cases [{ enumCase docs name [] none with
        position := nameAt, rawValue := some (.number (signedText negative number)) }]],
          skippedTokens ++ rest) := by
    rw [hitem]
    exact bind_eq_ok_iff.mpr ⟨_, hcases, rfl⟩
  obtain ⟨members, houtline, hmembers⟩ :=
    readsBody_passedOver hskipped hskippedTokens hrest hlater
  refine ⟨.cases [{ enumCase docs name [] none with
    position := nameAt, rawValue := some (.number (signedText negative number)) }] :: members, ?_, ?_⟩
  · rw [← List.singleton_append, outline_append, houtline]
    rfl
  · rw [readBody_eq]
    refine bind_eq_ok_iff.mpr ⟨_, hnext, ?_⟩
    exact bind_eq_ok_iff.mpr ⟨_, hmembers, rfl⟩

end WireSchema.Swift
