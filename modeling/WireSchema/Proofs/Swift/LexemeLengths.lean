import WireSchema.Proofs.Swift.LexemeEnds
import WireSchema.Proofs.Swift.LexicalGrammar

/-!
# Lengths of lexemes and the grammar

Each function that gives the length of a lexeme measures the words of one rule of the grammar:
it finds the word that counts, and a length wherever there is a word. So what is cut off the
front of a text is the lexeme that the grammar gives (`isFirstLexeme_of_lexemeAt?`), and
`splitLexemes` cuts a text as the grammar does (`cutInto_splitLexemes`).
-/

namespace WireSchema.Swift

open Computability
open Text (isIdentStart isIdentRest isIdentChars isDecimalDigit isBlank)

/-! ## Lengths of words -/

/-- The function gives the length of the word at the front of a text that counts. -/
structure Measures (length? : List Char → Option Nat) (words : Language Char) (extent : Extent) :
    Prop where
  isWord : ∀ {cs n}, length? cs = some n → n ≤ cs.length ∧ cs.take n ∈ words
  preferred : ∀ {word} (rest), word ∈ words →
    ∃ n, length? (word ++ rest) = some n ∧ extent.Prefers n word.length

namespace Measures

variable {length? : List Char → Option Nat} {words : Language Char} {extent : Extent}

theorem takes (h : Measures length? words extent) {cs : List Char} {n : Nat}
    (hn : length? cs = some n) : extent.Takes words cs (cs.take n) where
  isWord := (h.isWord hn).2
  isPrefix := List.take_prefix n cs
  preferred other hother := by
    rintro ⟨rest, rfl⟩
    obtain ⟨m, hm, hprefers⟩ := h.preferred rest hother
    cases hm.symm.trans hn
    rwa [List.length_take_of_le (h.isWord hn).1]

theorem not_isPrefix (h : Measures length? words extent) {cs : List Char}
    (hnone : length? cs = none) : ∀ word ∈ words, ¬ word <+: cs := by
  rintro word hword ⟨rest, rfl⟩
  obtain ⟨n, hn, -⟩ := h.preferred rest hword
  cases hn.symm.trans hnone

/-- A word by itself is taken as a whole, if the longest one counts. -/
theorem length?_eq (h : Measures length? words .longest) {word : List Char} (hword : word ∈ words) :
    length? word = some word.length := by
  obtain ⟨n, hn, hlong⟩ := h.preferred [] hword
  rw [List.append_nil] at hn
  rw [hn, Nat.le_antisymm (h.isWord hn).1 hlong]

end Measures

theorem Extent.Prefers.add {extent : Extent} {n m : Nat} (h : extent.Prefers n m) (k : Nat) :
    extent.Prefers (k + n) (k + m) := by
  cases extent with
  | longest => exact Nat.add_le_add_left h k
  | shortest => exact Nat.add_le_add_left h k

/-- A head of a word is followed by what the rest of the word is. -/
theorem Measures.headed {tailLength? : List Char → Option Nat} {words : Language Char}
    {extent : Extent} (h : Measures tailLength? words extent) (head : String) :
    Measures (headedLength? head.toList tailLength?) (Words.exactly head * words) extent where
  isWord hn := by
    obtain ⟨rest, m, rfl, hm, rfl⟩ := headedLength?_eq_some hn
    obtain ⟨hle, hword⟩ := h.isWord hm
    refine ⟨by rw [List.length_append]; omega, Words.mem_exactly_mul.mpr ⟨rest.take m, hword, ?_⟩⟩
    rw [List.take_append, List.take_of_length_le (by omega), Nat.add_sub_cancel_left]
  preferred rest hword := by
    obtain ⟨tail, htail, rfl⟩ := Words.mem_exactly_mul.mp hword
    obtain ⟨n, hn, hprefers⟩ := h.preferred rest htail
    refine ⟨head.toList.length + n, ?_, ?_⟩
    · rw [List.append_assoc, headedLength?_append, hn]
      rfl
    · rw [List.length_append]
      exact hprefers.add _

/-- Words of two parts are taken part by part if the first part ends where the second starts. -/
theorem Measures.mul {first? second? : List Char → Option Nat} {A B : Language Char}
    (hfirst : Measures first? A .longest) (hsecond : Measures second? B .longest) (hempty : [] ∈ B)
    (hends : ∀ word ∈ A, ∀ next ∈ B, next ≠ [] → ∀ rest,
      first? (word ++ (next ++ rest)) = some word.length) :
    Measures (fun cs => (first? cs).bind fun n => (second? (cs.drop n)).map (n + ·)) (A * B)
      .longest where
  isWord {cs _} hn := by
    obtain ⟨n, hfound, hlater⟩ := Option.bind_eq_some_iff.mp hn
    obtain ⟨m, hfound', rfl⟩ := Option.map_eq_some_iff.mp hlater
    obtain ⟨hle, hword⟩ := hfirst.isWord hfound
    obtain ⟨hle', hnext⟩ := hsecond.isWord hfound'
    rw [List.length_drop] at hle'
    rw [List.take_add]
    exact ⟨by omega, Language.append_mem_mul hword hnext⟩
  preferred {whole} rest hwhole := by
    obtain ⟨word, hword, next, hnext, rfl⟩ := Language.mem_mul.mp hwhole
    by_cases hnil : next = []
    · subst hnil
      obtain ⟨n, hn, hprefers⟩ := hfirst.preferred rest hword
      obtain ⟨m, hm, -⟩ := hsecond.preferred ((word ++ rest).drop n) hempty
      rw [List.nil_append] at hm
      refine ⟨n + m, by simp [hn, hm], ?_⟩
      have hle : word.length ≤ n := hprefers
      show (word ++ []).length ≤ n + m
      rw [List.append_nil]
      omega
    · obtain ⟨m, hm, hprefers⟩ := hsecond.preferred rest hnext
      refine ⟨word.length + m, ?_, ?_⟩
      · rw [List.append_assoc, hends word hword next hnext hnil, Option.bind_some, List.drop_left, hm]
        rfl
      · rw [List.length_append]
        exact hprefers.add _

/-! ### Runs -/

theorem length_le_runLength {p : Char → Bool} {word : List Char} (h : ∀ c ∈ word, p c = true)
    (rest : List Char) : word.length ≤ runLength p (word ++ rest) := by
  rw [runLength, List.takeWhile_append_of_pos h, List.length_append]
  exact Nat.le_add_right _ _

theorem take_runLength_mem_many (p : Char → Bool) (cs : List Char) :
    cs.take (runLength p cs) ∈ Words.many p := by
  rw [take_runLength]
  exact Words.mem_many.mpr (List.all_eq_true.mp List.all_takeWhile)

theorem take_runLength_mem_atLeastOne {p : Char → Bool} {cs : List Char} (h : 0 < runLength p cs) :
    cs.take (runLength p cs) ∈ Words.atLeastOne p := by
  refine Words.mem_atLeastOne.mpr ⟨?_, Words.mem_many.mp (take_runLength_mem_many p cs)⟩
  rw [← List.length_pos_iff, List.length_take_of_le (runLength_le p cs)]
  exact h

theorem measures_lineLength? : Measures lineLength? (Words.many (· != '\n')) .longest where
  isWord hn := by
    cases hn
    exact ⟨runLength_le _ _, take_runLength_mem_many _ _⟩
  preferred rest hword := ⟨_, rfl, length_le_runLength (Words.mem_many.mp hword) rest⟩

/-- One character of a kind, and a run of another kind. -/
theorem measures_run {p q : Char → Bool} {length? : List Char → Option Nat}
    (hnil : length? [] = none)
    (hcons : ∀ c rest, length? (c :: rest) = if p c then some (1 + runLength q rest) else none) :
    Measures length? (Words.oneOf p * Words.many q) .longest where
  isWord {cs n} hn := by
    cases cs with
    | nil => cases hnil.symm.trans hn
    | cons c rest =>
      rw [hcons] at hn
      split at hn
      · next hc =>
        cases hn
        have hle := runLength_le q rest
        rw [Nat.add_comm 1, List.take_succ_cons, List.length_cons]
        exact ⟨by omega, Words.mem_oneOf_mul.mpr ⟨c, hc, _, take_runLength_mem_many q rest, rfl⟩⟩
      · cases hn
  preferred rest hword := by
    obtain ⟨c, tail, hc, htail, rfl⟩ := Words.mem_oneOf_mul_many.mp hword
    refine ⟨1 + runLength q (tail ++ rest), ?_, ?_⟩
    · rw [List.cons_append, hcons, if_pos hc]
    · have hle := length_le_runLength htail rest
      show (c :: tail).length ≤ 1 + runLength q (tail ++ rest)
      rw [List.length_cons]
      omega

theorem measures_nameLength? : Measures nameLength? nameWords .longest :=
  measures_run rfl fun _ _ => rfl

theorem measures_blankLength? : Measures blankLength? (Words.atLeastOne isBlank) .longest :=
  measures_run rfl fun _ _ => rfl

/-! ### Comments and literals -/

theorem measures_lengthThrough? (close : String) (hclose : close.toList ≠ []) :
    Measures (lengthThrough? close.toList) (⊤ * Words.exactly close) .shortest where
  isWord {cs n} hn := by
    refine ⟨lengthThrough?_le hn, Words.mem_mul_exactly.mpr ?_⟩
    induction cs generalizing n with
    | nil => cases hn
    | cons c rest ih =>
      rw [lengthThrough?] at hn
      split at hn
      · next hprefix =>
        cases hn
        exact ⟨[], trivial, (List.prefix_iff_eq_take.mp (List.isPrefixOf_iff_prefix.mp hprefix)).symm⟩
      · obtain ⟨m, hm, rfl⟩ := Option.map_eq_some_iff.mp hn
        obtain ⟨front, -, hfront⟩ := ih hm
        exact ⟨c :: front, trivial, by rw [List.take_succ_cons, hfront, List.cons_append]⟩
  preferred rest hword := by
    obtain ⟨front, -, rfl⟩ := Words.mem_mul_exactly.mp hword
    clear hword
    induction front with
    | nil =>
      obtain ⟨c, later, hcons⟩ := List.exists_cons_of_ne_nil hclose
      have hprefix : close.toList.isPrefixOf (c :: (later ++ rest)) = true := by
        rw [List.isPrefixOf_iff_prefix, ← List.cons_append, ← hcons]
        exact List.prefix_append _ _
      refine ⟨close.toList.length, ?_, Nat.le_refl _⟩
      rw [List.nil_append, hcons, List.cons_append, lengthThrough?, ← hcons, if_pos hprefix]
    | cons c front ih =>
      obtain ⟨n, hn, hle⟩ := ih
      have hle' : n ≤ (front ++ close.toList).length := hle
      simp only [List.cons_append, List.length_append, List.length_cons] at hle' ⊢
      rw [lengthThrough?]
      split
      · exact ⟨_, rfl, show close.toList.length ≤ _ by omega⟩
      · rw [hn]
        exact ⟨_, rfl, show n + 1 ≤ _ by omega⟩

theorem mem_quotedItems {item : List Char} :
    item ∈ quotedItems ↔
      (∃ c, (c ≠ '"' ∧ c ≠ '\\' ∧ c ≠ '\n') ∧ item = [c]) ∨
        ∃ c, c ≠ '\n' ∧ item = ['\\', c] := by
  rw [quotedItems, Language.mem_add, Words.mem_oneOf, Words.mem_exactly_mul]
  refine or_congr ?_ ?_
  · simp [and_assoc]
  · constructor
    · rintro ⟨_, ⟨c, hc, rfl⟩, rfl⟩
      exact ⟨c, by simpa using hc, rfl⟩
    · rintro ⟨c, hc, rfl⟩
      exact ⟨[c], ⟨c, by simpa using hc, rfl⟩, rfl⟩

/-- The end of a literal is looked for behind each of its items. -/
theorem quotedLength?_item {item : List Char} (h : item ∈ quotedItems) (rest : List Char) :
    quotedLength? (item ++ rest) = (quotedLength? rest).map (· + item.length) := by
  rcases mem_quotedItems.mp h with ⟨c, ⟨hquote, hbackslash, hfeed⟩, rfl⟩ | ⟨c, hfeed, rfl⟩
  · exact quotedLength?.eq_6 c rest hquote hfeed (fun heq _ => hbackslash heq)
      fun _ _ heq _ => hbackslash heq
  · rw [List.cons_append, List.singleton_append, quotedLength?.eq_5]
    simp [hfeed]

theorem measures_quotedLength? :
    Measures quotedLength? (quotedItems∗ * Words.exactly "\"") .longest where
  isWord {cs n} hn := by
    refine ⟨quotedLength?_le hn, Words.mem_mul_exactly.mpr ?_⟩
    fun_induction quotedLength? cs generalizing n with
    | case1 => cases hn
    | case2 rest =>
      cases hn
      exact ⟨[], Language.nil_mem_kstar _, rfl⟩
    | case3 => cases hn
    | case4 => cases hn
    | case5 => cases hn
    | case6 c rest hfeed ih =>
      obtain ⟨m, hm, rfl⟩ := Option.map_eq_some_iff.mp hn
      obtain ⟨front, hitems, hfront⟩ := ih hm
      have hitem : ['\\', c] ∈ quotedItems :=
        mem_quotedItems.mpr (.inr ⟨c, by simpa using hfeed, rfl⟩)
      exact ⟨'\\' :: c :: front, Words.append_mem_kstar hitem hitems, by simp [hfront]⟩
    | case7 c rest hquote hfeed hend hescape ih =>
      obtain ⟨m, hm, rfl⟩ := Option.map_eq_some_iff.mp hn
      obtain ⟨front, hitems, hfront⟩ := ih hm
      have hbackslash : c ≠ '\\' := by
        rintro rfl
        cases rest with
        | nil => exact hend rfl rfl
        | cons d later => exact hescape d later rfl rfl
      have hitem : [c] ∈ quotedItems :=
        mem_quotedItems.mpr (.inl ⟨c, ⟨hquote, hbackslash, hfeed⟩, rfl⟩)
      exact ⟨c :: front, Words.append_mem_kstar hitem hitems, by simp [hfront]⟩
  preferred rest hword := by
    obtain ⟨_, ⟨items, rfl, hitems⟩, rfl⟩ := Words.mem_mul_exactly.mp hword
    refine ⟨(items.flatten ++ ['"']).length, ?_, Nat.le_refl _⟩
    clear hword
    induction items with
    | nil => rfl
    | cons item later ih =>
      have hlater := ih fun other hother => hitems other (List.mem_cons_of_mem item hother)
      have hfront : (item :: later).flatten ++ "\"".toList ++ rest =
          item ++ (later.flatten ++ "\"".toList ++ rest) := by simp
      rw [hfront, quotedLength?_item (hitems item List.mem_cons_self), hlater]
      simp [Nat.add_comm]

theorem isIdentChars_of_mem_nameWords {cs : List Char} (h : cs ∈ nameWords) :
    isIdentChars cs = true := by
  obtain ⟨c, rest, hc, hrest, rfl⟩ := Words.mem_oneOf_mul_many.mp h
  rw [isIdentChars, hc, Bool.true_and]
  exact List.all_eq_true.mpr hrest

theorem measures_backtickedLength? :
    Measures backtickedLength? (nameWords * Words.exactly "\x60") .longest where
  isWord {cs _} hn := by
    refine ⟨backtickedLength?_le hn, Words.mem_mul_exactly.mpr ?_⟩
    obtain ⟨m, hm, htick⟩ := Option.bind_eq_some_iff.mp hn
    split at htick
    · next hhead =>
      cases htick
      obtain ⟨later, hlater⟩ : ∃ later, cs.drop m = '\x60' :: later :=
        List.head?_eq_some_iff.mp (beq_iff_eq.mp hhead)
      refine ⟨cs.take m, (measures_nameLength?.isWord hm).2, ?_⟩
      rw [List.take_add, hlater]
      rfl
    · cases htick
  preferred rest hword := by
    obtain ⟨name, hname, rfl⟩ := Words.mem_mul_exactly.mp hword
    have hlength : nameLength? (name ++ '\x60' :: rest) = some name.length :=
      nameLength?_append (isIdentChars_of_mem_nameWords hname) rfl
    refine ⟨name.length + 1, ?_, by simp [Extent.Prefers]⟩
    rw [List.append_assoc, show "\x60".toList ++ rest = '\x60' :: rest from rfl, backtickedLength?,
      hlength]
    simp

/-! ### Numbers -/

theorem measures_hexLength? : Measures hexLength? hexWords .longest where
  isWord {cs _} hn := by
    refine ⟨hexLength?_le hn, ?_⟩
    unfold hexLength? at hn
    split at hn
    · next x rest =>
      dsimp only at hn
      split at hn
      · next hcond =>
        obtain ⟨hx, hdigits⟩ := (Bool.and_eq_true _ _).mp hcond
        cases hn
        have hword := take_runLength_mem_atLeastOne (of_decide_eq_true hdigits)
        rw [Nat.add_comm 2]
        exact Words.mem_exactly_mul.mpr ⟨_, Words.mem_oneOf_mul.mpr ⟨x, hx, _, hword, rfl⟩, rfl⟩
      · cases hn
    · cases hn
  preferred rest hword := by
    obtain ⟨_, htail, rfl⟩ := Words.mem_exactly_mul.mp hword
    obtain ⟨x, hx, digits, hdigits, rfl⟩ := Words.mem_oneOf_mul.mp htail
    obtain ⟨hne, hall⟩ := Words.mem_atLeastOne.mp hdigits
    have hle := length_le_runLength hall rest
    have hpos := List.length_pos_iff.mpr hne
    refine ⟨2 + runLength (fun c => isHexDigit c || c == '_') (digits ++ rest), ?_, ?_⟩
    · show hexLength? ('0' :: x :: (digits ++ rest)) = _
      rw [hexLength?, if_pos ((Bool.and_eq_true _ _).mpr ⟨hx, decide_eq_true (by omega)⟩)]
    · show ('0' :: x :: digits).length ≤ _
      simp only [List.length_cons]
      omega

def digitLength? : List Char → Option Nat
  | [] => none
  | d :: rest => if isDecimalDigit d then some (1 + runLength isDigitRest rest) else none

theorem measures_fractionLength :
    Measures (fun cs => some (fractionLength cs)) fractionWords .longest where
  isWord {cs _} hn := by
    cases hn
    refine ⟨fractionLength_le cs, ?_⟩
    fun_cases fractionLength cs with
    | case1 d rest hd =>
      have hdigits : d :: rest.take (runLength isDigitRest rest) ∈ digitWords :=
        Words.mem_oneOf_mul.mpr ⟨d, hd, _, take_runLength_mem_many isDigitRest rest, rfl⟩
      rw [Nat.add_comm 2]
      exact .inr (Words.mem_exactly_mul.mpr ⟨_, hdigits, rfl⟩)
    | case2 => exact .inl rfl
    | case3 => exact .inl rfl
  preferred rest hword := by
    refine ⟨_, rfl, ?_⟩
    rcases hword with rfl | hword
    · exact Nat.zero_le _
    · obtain ⟨_, hdigits, rfl⟩ := Words.mem_exactly_mul.mp hword
      obtain ⟨d, tail, hd, htail, rfl⟩ := Words.mem_oneOf_mul_many.mp hdigits
      have hle := length_le_runLength htail rest
      show ('.' :: d :: tail).length ≤ fractionLength ('.' :: d :: (tail ++ rest))
      rw [fractionLength, if_pos hd]
      simp only [List.length_cons]
      omega

/-- A sign is none of the digits behind it. -/
theorem isSign_of_isDecimalDigit {c : Char} (h : isDecimalDigit c = true) :
    (c == '+' || c == '-') = false := by
  rw [Bool.eq_false_iff]
  intro hsign
  rcases (Bool.or_eq_true _ _).mp hsign with heq | heq
  all_goals
    rw [beq_iff_eq.mp heq] at h
    exact absurd h (by decide)

/-- An exponent is a letter, perhaps a sign, and digits. -/
theorem exponentLength_cons {e : Char} (he : (e == 'e' || e == 'E') = true) {sign digits : List Char}
    (hsign : sign ∈ (1 + Words.oneOf fun c => c == '+' || c == '-' : Language Char))
    (hdigits : digits ∈ Words.atLeastOne isDecimalDigit) (rest : List Char) :
    exponentLength (e :: (sign ++ (digits ++ rest))) =
      1 + sign.length + runLength isDecimalDigit (digits ++ rest) := by
  obtain ⟨hne, hall⟩ := Words.mem_atLeastOne.mp hdigits
  have hlong : 0 < runLength isDecimalDigit (digits ++ rest) :=
    Nat.lt_of_lt_of_le (List.length_pos_iff.mpr hne) (length_le_runLength hall rest)
  rcases hsign with rfl | ⟨c, hc, rfl⟩
  · obtain ⟨d, later, rfl⟩ := List.exists_cons_of_ne_nil hne
    have hd := isSign_of_isDecimalDigit (hall d List.mem_cons_self)
    simp only [List.cons_append] at hlong
    simp [exponentLength, he, hd, hlong]
  · simp [exponentLength, he, hc, hlong]

theorem measures_exponentLength :
    Measures (fun cs => some (exponentLength cs)) exponentWords .longest where
  isWord {cs _} hn := by
    cases hn
    refine ⟨exponentLength_le cs, ?_⟩
    fun_cases exponentLength cs with
    | case1 e rest sign digits hcond =>
      obtain ⟨he, hdigits⟩ := (Bool.and_eq_true _ _).mp hcond
      have hword := take_runLength_mem_atLeastOne (of_decide_eq_true hdigits)
      have hsign : rest.take sign ∈ (1 + Words.oneOf fun c => c == '+' || c == '-' : Language Char) := by
        show rest.take (if _ then 1 else 0) ∈ _
        split
        · next hhead =>
          cases rest with
          | nil => cases hhead
          | cons c later => exact .inr ⟨c, hhead, rfl⟩
        · exact .inl rfl
      rw [Nat.add_assoc, Nat.add_comm 1, List.take_succ_cons, List.take_add]
      exact .inr (Words.mem_oneOf_mul.mpr
        ⟨e, he, _, Language.append_mem_mul hsign hword, rfl⟩)
    | case2 => exact .inl rfl
    | case3 => exact .inl rfl
  preferred rest hword := by
    refine ⟨_, rfl, ?_⟩
    rcases hword with rfl | hword
    · exact Nat.zero_le _
    · obtain ⟨e, he, _, htail, rfl⟩ := Words.mem_oneOf_mul.mp hword
      obtain ⟨sign, hsign, digits, hdigits, rfl⟩ := Language.mem_mul.mp htail
      have hle := length_le_runLength (Words.mem_atLeastOne.mp hdigits).2 rest
      show (e :: (sign ++ digits)).length ≤ exponentLength (e :: (sign ++ digits ++ rest))
      rw [List.append_assoc, exponentLength_cons he hsign hdigits]
      simp only [List.length_cons, List.length_append]
      omega

theorem head?_of_mem_exponentWords {word : List Char} (h : word ∈ exponentWords) (hne : word ≠ []) :
    word.head? = some 'e' ∨ word.head? = some 'E' := by
  rcases h with rfl | h
  · exact absurd rfl hne
  · obtain ⟨e, he, _, -, rfl⟩ := Words.mem_oneOf_mul.mp h
    simpa using he

theorem head?_of_mem_fractionWords {word : List Char} (h : word ∈ fractionWords) (hne : word ≠ []) :
    word.head? = some '.' := by
  rcases h with rfl | h
  · exact absurd rfl hne
  · obtain ⟨_, -, rfl⟩ := Words.mem_exactly_mul.mp h
    rfl

/-- The fraction ends where an exponent starts. -/
theorem fractionLength_append {word rest : List Char} (hword : word ∈ fractionWords)
    (hrest : rest.head? = some 'e' ∨ rest.head? = some 'E') :
    fractionLength (word ++ rest) = word.length := by
  have hstop : rest.head?.any isDigitRest = false := by
    rcases hrest with hrest | hrest <;> rw [hrest] <;> decide
  rcases hword with rfl | hword
  · obtain ⟨e, later, rfl⟩ : ∃ e later, rest = e :: later := by
      cases rest with
      | nil => simp at hrest
      | cons e later => exact ⟨e, later, rfl⟩
    have he : e ≠ '.' := by
      rintro rfl
      simp at hrest
    simp [fractionLength, he]
  · obtain ⟨_, hdigits, rfl⟩ := Words.mem_exactly_mul.mp hword
    obtain ⟨d, tail, hd, htail, rfl⟩ := Words.mem_oneOf_mul_many.mp hdigits
    show fractionLength ('.' :: d :: (tail ++ rest)) = ('.' :: d :: tail).length
    rw [fractionLength, if_pos hd, runLength_append htail hstop]
    simp only [List.length_cons]
    omega

/-- The digits in front end where a fraction or an exponent starts. -/
theorem digitLength?_append {word rest : List Char} (hword : word ∈ digitWords)
    (hrest : rest.head?.any isDigitRest = false) :
    digitLength? (word ++ rest) = some word.length := by
  obtain ⟨d, tail, hd, htail, rfl⟩ := Words.mem_oneOf_mul_many.mp hword
  rw [List.cons_append, digitLength?, if_pos hd, runLength_append htail hrest, List.length_cons,
    Nat.add_comm]

theorem head?_of_mem_tail {word : List Char} (h : word ∈ fractionWords * exponentWords)
    (hne : word ≠ []) : word.head?.any isDigitRest = false := by
  obtain ⟨fraction, hfraction, exponent, hexponent, rfl⟩ := Language.mem_mul.mp h
  by_cases hnil : fraction = []
  · subst hnil
    rcases head?_of_mem_exponentWords hexponent hne with hhead | hhead
    all_goals
      rw [List.nil_append, hhead]
      decide
  · rw [List.head?_append_of_ne_nil _ hnil, head?_of_mem_fractionWords hfraction hnil]
    decide

theorem decimalLength?_eq :
    decimalLength? = fun cs => (digitLength? cs).bind fun n =>
      ((some (fractionLength (cs.drop n))).bind fun m =>
        (some (exponentLength ((cs.drop n).drop m))).map (m + ·)).map (n + ·) := by
  funext cs
  cases cs with
  | nil => rfl
  | cons d rest =>
    rw [decimalLength?, digitLength?]
    split
    · simp [List.drop_drop, Nat.add_assoc]
    · rfl

theorem measures_decimalLength? :
    Measures decimalLength? (digitWords * (fractionWords * exponentWords)) .longest := by
  have hdigits : Measures digitLength? digitWords .longest := measures_run rfl fun _ _ => rfl
  have htail := measures_fractionLength.mul measures_exponentLength (.inl rfl)
    fun word hword next hnext hne rest => congrArg some <| fractionLength_append hword (by
      rw [List.head?_append_of_ne_nil _ hne]
      exact head?_of_mem_exponentWords hnext hne)
  rw [decimalLength?_eq]
  refine hdigits.mul htail ⟨[], .inl rfl, [], .inl rfl, rfl⟩ ?_
  intro word hword next hnext hne rest
  refine digitLength?_append hword ?_
  rw [List.head?_append_of_ne_nil _ hne]
  exact head?_of_mem_tail hnext hne

/-! ### Symbols -/

/-- No long symbol is the start of another. -/
theorem eq_of_isPrefix_longSymbols : ∀ a ∈ longSymbols, ∀ b ∈ longSymbols, a <+: b → a = b := by
  decide

theorem eq_of_isPrefix_of_mem_longSymbols {a b cs : List Char} (ha : a ∈ longSymbols)
    (hb : b ∈ longSymbols) (hacs : a <+: cs) (hbcs : b <+: cs) : a = b := by
  rcases List.prefix_or_prefix_of_prefix hacs hbcs with h | h
  · exact eq_of_isPrefix_longSymbols a ha b hb h
  · exact (eq_of_isPrefix_longSymbols b hb a ha h).symm

theorem measures_symbolLength? : Measures symbolLength? symbolWords .longest where
  isWord {cs _} hn := by
    refine ⟨symbolLength?_le hn, ?_⟩
    unfold symbolLength? at hn
    split at hn
    · next symbol hsymbol =>
      cases hn
      have hprefix : symbol.isPrefixOf cs = true :=
        List.find?_some (p := fun symbol : List Char => symbol.isPrefixOf cs) hsymbol
      rw [← List.prefix_iff_eq_take.mp (List.isPrefixOf_iff_prefix.mp hprefix)]
      exact .inl (List.mem_of_find?_eq_some hsymbol)
    · split at hn
      · next hshort =>
        cases hn
        cases cs with
        | nil => cases hshort
        | cons c rest => exact .inr ⟨c, hshort, rfl⟩
      · cases hn
  preferred {word} rest hword := by
    have hpos : ∀ symbol ∈ longSymbols, 1 ≤ symbol.length := by decide
    rw [symbolLength?]
    split
    · next symbol hsymbol =>
      have hmem := List.mem_of_find?_eq_some hsymbol
      have hprefix : symbol.isPrefixOf (word ++ rest) = true :=
        List.find?_some (p := fun symbol : List Char => symbol.isPrefixOf (word ++ rest)) hsymbol
      refine ⟨_, rfl, ?_⟩
      rcases hword with hlong | ⟨c, -, rfl⟩
      · rw [eq_of_isPrefix_of_mem_longSymbols hlong hmem (List.prefix_append word rest)
          (List.isPrefixOf_iff_prefix.mp hprefix)]
        exact Nat.le_refl _
      · exact hpos symbol hmem
    · next hnone =>
      rcases hword with hlong | ⟨c, hc, rfl⟩
      · have hprefix := List.find?_eq_none.mp hnone word hlong
        exact absurd (List.isPrefixOf_iff_prefix.mpr (List.prefix_append word rest)) hprefix
      · exact ⟨1, if_pos hc, Nat.le_refl 1⟩

/-! ## The first lexeme -/

/-- Each length function measures the words of the rule at its place in the grammar. -/
theorem forall₂_lexemeRules :
    List.Forall₂ (fun length rule => length.1 = rule.kind ∧
      Measures length.2 rule.words rule.extent) lexemeRules lexicalGrammar := by
  refine .cons ⟨rfl, measures_lineLength?.headed "///"⟩ <|
    .cons ⟨rfl, (measures_lengthThrough? "*/" (by decide)).headed "/**"⟩ <|
    .cons ⟨rfl, measures_lineLength?.headed "//"⟩ <|
    .cons ⟨rfl, (measures_lengthThrough? "*/" (by decide)).headed "/*"⟩ <|
    .cons ⟨rfl, (measures_lengthThrough? "\"\"\"" (by decide)).headed "\"\"\""⟩ <|
    .cons ⟨rfl, measures_quotedLength?.headed "\""⟩ <|
    .cons ⟨rfl, measures_backtickedLength?.headed "\x60"⟩ <|
    .cons ⟨rfl, measures_nameLength?⟩ <|
    .cons ⟨rfl, measures_hexLength?⟩ <|
    .cons ⟨rfl, measures_decimalLength?⟩ <|
    .cons ⟨rfl, measures_symbolLength?⟩ <|
    .cons ⟨rfl, measures_blankLength?⟩ .nil

/-- The first length that is found is the one of the first rule that has a word. -/
theorem exists_rule_of_findSome? {lengths : List (LexemeKind × (List Char → Option Nat))}
    {rules : List LexicalRule}
    (h : List.Forall₂ (fun length rule => length.1 = rule.kind ∧
      Measures length.2 rule.words rule.extent) lengths rules) {cs : List Char}
    {kind : LexemeKind} {n : Nat}
    (hfound : lengths.findSome? (fun length => (length.2 cs).map fun n => (length.1, n)) =
      some (kind, n)) :
    ∃ earlier rule later, rules = earlier ++ rule :: later ∧
      (∀ other ∈ earlier, ∀ word ∈ other.words, ¬ word <+: cs) ∧ rule.kind = kind ∧
        rule.extent.Takes rule.words cs (cs.take n) := by
  induction h with
  | nil => cases hfound
  | @cons length rule lengths rules hfirst hlater ih =>
    obtain ⟨hkind, hmeasures⟩ := hfirst
    rw [List.findSome?_cons] at hfound
    cases hlength : length.2 cs with
    | some m =>
      rw [hlength] at hfound
      cases hfound
      exact ⟨[], rule, rules, rfl, nofun, hkind.symm, hmeasures.takes hlength⟩
    | none =>
      rw [hlength] at hfound
      obtain ⟨earlier, found, later, rfl, hearlier, hfound⟩ := ih hfound
      exact ⟨rule :: earlier, found, later, rfl,
        List.forall_mem_cons.mpr ⟨hmeasures.not_isPrefix hlength, hearlier⟩, hfound⟩

theorem not_isPrefix_of_findSome? {lengths : List (LexemeKind × (List Char → Option Nat))}
    {rules : List LexicalRule}
    (h : List.Forall₂ (fun length rule => length.1 = rule.kind ∧
      Measures length.2 rule.words rule.extent) lengths rules) {cs : List Char}
    (hnone : lengths.findSome? (fun length => (length.2 cs).map fun n => (length.1, n)) = none) :
    ∀ rule ∈ rules, ∀ word ∈ rule.words, ¬ word <+: cs := by
  induction h with
  | nil => exact nofun
  | @cons length rule lengths rules hfirst hlater ih =>
    obtain ⟨hlength, hnone⟩ := List.forall_mem_cons.mp (List.findSome?_eq_none_iff.mp hnone)
    exact List.forall_mem_cons.mpr
      ⟨hfirst.2.not_isPrefix (Option.map_eq_none_iff.mp hlength),
        ih (List.findSome?_eq_none_iff.mpr hnone)⟩

/-- What is cut off the front of a text is the lexeme that the grammar gives. -/
theorem isFirstLexeme_of_lexemeAt? {cs : List Char} {kind : LexemeKind} {n : Nat}
    (h : lexemeAt? cs = some (kind, n)) : IsFirstLexeme cs ⟨kind, cs.take n⟩ :=
  exists_rule_of_findSome? forall₂_lexemeRules h

/-- Where nothing is cut off the grammar has no lexeme. -/
theorem noLexeme_of_lexemeAt? {cs : List Char} (h : lexemeAt? cs = none) : NoLexeme cs :=
  not_isPrefix_of_findSome? forall₂_lexemeRules h

theorem cutInto_splitLexemes (cs : List Char) :
    CutInto cs (splitLexemes cs).1 (splitLexemes cs).2 := by
  fun_induction splitLexemes cs with
  | case1 cs kind n hat lexemes rest hsplit ih =>
    rw [hsplit] at ih
    have hfirst : IsFirstLexeme (Lexeme.chars ⟨kind, cs.take n⟩ ++ cs.drop n) ⟨kind, cs.take n⟩ := by
      rw [List.take_append_drop]
      exact isFirstLexeme_of_lexemeAt? hat
    have hcut := CutInto.cut hfirst ih
    rwa [List.take_append_drop] at hcut
  | case2 cs hat => exact .stop (noLexeme_of_lexemeAt? hat)

theorem chars_ne_nil_of_mem_splitLexemes {cs : List Char} {lexeme : Lexeme}
    (h : lexeme ∈ (splitLexemes cs).1) : lexeme.chars ≠ [] := by
  fun_induction splitLexemes cs with
  | case1 cs kind n hat lexemes rest hsplit ih =>
    rcases List.mem_cons.mp h with rfl | hlater
    · rw [← List.length_pos_iff, List.length_take_of_le (lexemeAt?_le hat)]
      exact lexemeAt?_pos hat
    · exact ih (by rwa [hsplit])
  | case2 => cases h

end WireSchema.Swift
