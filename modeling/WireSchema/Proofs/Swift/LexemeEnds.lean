import WireSchema.Proofs.Swift.Spelling

/-!
# Where lexemes end

A lexeme does not go on over white space, unless it is white space itself or a comment up to
the end of the line. So a text that is made of lexemes may be followed by a space and a
closing brace: the brace is one more token.
-/

namespace WireSchema.Swift

open Text (isIdentRest isDecimalDigit isBlank)

/-! ## Lengths in front of a blank -/

section

variable {p : Char → Bool} {stop : Char}

theorem runLength_stop (h : p stop = false) (cs rest : List Char) :
    runLength p (cs ++ stop :: rest) = runLength p cs := by
  induction cs with
  | nil => simp [runLength, h]
  | cons c later ih =>
    simp only [runLength, List.cons_append, List.takeWhile_cons] at ih ⊢
    split
    · simpa using ih
    · rfl

theorem runLength_le (p : Char → Bool) (cs : List Char) : runLength p cs ≤ cs.length :=
  (List.takeWhile_sublist p).length_le

/-- A run that ends within a text is not made longer by what follows the text. -/
theorem runLength_of_lt {cs : List Char} (h : runLength p cs < cs.length) (rest : List Char) :
    runLength p (cs ++ rest) = runLength p cs := by
  induction cs with
  | nil => simp [runLength] at h
  | cons c later ih =>
    simp only [runLength, List.cons_append, List.takeWhile_cons, List.length_cons] at ih h ⊢
    by_cases hc : p c = true
    · simp only [hc, if_true, List.length_cons, Nat.add_lt_add_iff_right] at h ⊢
      rw [ih h]
    · simp [hc]

/-- A run over the whole of a text goes on in what follows. -/
theorem runLength_append_of_length {cs : List Char} (h : runLength p cs = cs.length) (rest : List Char) :
    runLength p (cs ++ rest) = cs.length + runLength p rest := by
  have hwhole : (cs.takeWhile p).length = cs.length := h
  rw [runLength, List.takeWhile_append, if_pos hwhole, List.length_append]
  rfl

theorem isPrefixOf_stop {front : List Char} (h : stop ∉ front) (cs rest : List Char) :
    front.isPrefixOf (cs ++ stop :: rest) = front.isPrefixOf cs := by
  induction cs generalizing front with
  | nil =>
    cases front with
    | nil => rfl
    | cons c front =>
      have hc : c ≠ stop := fun heq => h (by simp [heq])
      simp [List.isPrefixOf, hc]
  | cons c cs ih =>
    cases front with
    | nil => rfl
    | cons d front =>
      have hlater := ih fun hmem => h (List.mem_cons_of_mem d hmem)
      simp [List.isPrefixOf, hlater]

theorem find?_isPrefixOf_stop {symbols : List (List Char)} (h : ∀ symbol ∈ symbols, stop ∉ symbol)
    (cs rest : List Char) :
    symbols.find? (fun symbol => symbol.isPrefixOf (cs ++ stop :: rest)) =
      symbols.find? fun symbol => symbol.isPrefixOf cs := by
  induction symbols with
  | nil => rfl
  | cons symbol later ih =>
    rw [List.find?_cons, List.find?_cons, isPrefixOf_stop (h symbol List.mem_cons_self),
      ih fun other hother => h other (List.mem_cons_of_mem symbol hother)]

end

/-- White space that ends what stands on a line. -/
def isStop (c : Char) : Bool :=
  c == ' ' || c == '\n'

theorem isStop_cases {c : Char} (h : isStop c = true) : c = ' ' ∨ c = '\n' := by
  simpa [isStop] using h

theorem fractionLength_le (cs : List Char) : fractionLength cs ≤ cs.length := by
  fun_cases fractionLength cs with
  | case1 d later _ =>
    have hle := runLength_le isDigitRest later
    simp only [List.length_cons]
    omega
  | case2 => exact Nat.zero_le _
  | case3 => exact Nat.zero_le _

theorem exponentLength_le (cs : List Char) : exponentLength cs ≤ cs.length := by
  fun_cases exponentLength cs with
  | case1 e later sign digits hexponent =>
    have hle := runLength_le isDecimalDigit (later.drop sign)
    rw [List.length_drop] at hle
    have hdigits : 0 < digits := by
      simp only [Bool.and_eq_true, decide_eq_true_eq] at hexponent
      exact hexponent.2
    rw [List.length_cons]
    omega
  | case2 => exact Nat.zero_le _
  | case3 => exact Nat.zero_le _

section

variable {stop : Char} (hstop : isStop stop = true)

include hstop

theorem fractionLength_stop (cs rest : List Char) :
    fractionLength (cs ++ stop :: rest) = fractionLength cs := by
  have hdigit : isDecimalDigit stop = false ∧ isDigitRest stop = false ∧ stop ≠ '.' := by
    rcases isStop_cases hstop with rfl | rfl <;> decide
  obtain ⟨hdecimal, hrest, hdot⟩ := hdigit
  have hdigits := runLength_stop hrest
  match cs with
  | [] => cases rest <;> simp [fractionLength, hdot]
  | [c] =>
    by_cases hpoint : c = '.'
    · subst hpoint
      simp [fractionLength, hdecimal]
    · simp [fractionLength, hpoint]
  | c :: d :: later =>
    by_cases hpoint : c = '.'
    · subst hpoint
      simp only [List.cons_append, fractionLength, hdigits]
    · simp [fractionLength, hpoint]

theorem exponentLength_stop (cs rest : List Char) :
    exponentLength (cs ++ stop :: rest) = exponentLength cs := by
  have hchar : isDecimalDigit stop = false ∧ stop ≠ 'e' ∧ stop ≠ 'E' ∧ stop ≠ '+' ∧ stop ≠ '-' := by
    rcases isStop_cases hstop with rfl | rfl <;> decide
  obtain ⟨hdecimal, he, hE, hplus, hminus⟩ := hchar
  have hdigits := runLength_stop hdecimal
  match cs with
  | [] => simp [exponentLength, he, hE]
  | [c] =>
    have hnone : runLength isDecimalDigit (stop :: rest) = 0 := hdigits [] rest
    have hempty : runLength isDecimalDigit [] = 0 := rfl
    simp [exponentLength, hnone, hempty, hplus, hminus]
  | c :: d :: later =>
    have hlater := hdigits later rest
    have hboth : runLength isDecimalDigit (d :: (later ++ stop :: rest)) =
        runLength isDecimalDigit (d :: later) := hdigits (d :: later) rest
    by_cases hsign : d = '+' ∨ d = '-'
    · simp [exponentLength, hsign, hlater]
    · simp [exponentLength, hsign, hboth]

theorem decimalLength?_stop (cs rest : List Char) :
    decimalLength? (cs ++ stop :: rest) = decimalLength? cs := by
  have hdigit : isDecimalDigit stop = false ∧ isDigitRest stop = false := by
    rcases isStop_cases hstop with rfl | rfl <;> decide
  cases cs with
  | nil => simp [decimalLength?, hdigit.1]
  | cons d later =>
    have hwhole : 1 + runLength isDigitRest later ≤ (d :: later).length := by
      have hle := runLength_le isDigitRest later
      rw [List.length_cons]
      omega
    have hfraction : 1 + runLength isDigitRest later +
        fractionLength ((d :: later).drop (1 + runLength isDigitRest later)) ≤
          (d :: later).length := by
      have hle := fractionLength_le ((d :: later).drop (1 + runLength isDigitRest later))
      rw [List.length_drop] at hle
      omega
    rw [List.cons_append, decimalLength?, decimalLength?, runLength_stop hdigit.2,
      ← List.cons_append]
    dsimp only
    rw [List.drop_append_of_le_length hwhole, fractionLength_stop hstop,
      List.drop_append_of_le_length hfraction, exponentLength_stop hstop]

theorem hexLength?_stop (cs rest : List Char) :
    hexLength? (cs ++ stop :: rest) = hexLength? cs := by
  have hchar : (isHexDigit stop || stop == '_') = false ∧ stop ≠ '0' ∧ stop ≠ 'x' ∧ stop ≠ 'X' := by
    rcases isStop_cases hstop with rfl | rfl <;> decide
  obtain ⟨hhex, hzero, hx, hX⟩ := hchar
  match cs with
  | [] => cases rest <;> simp [hexLength?, hzero]
  | [c] =>
    by_cases hc : c = '0'
    · subst hc
      simp [hexLength?, hx, hX]
    · simp [hexLength?, hc]
  | c :: d :: later =>
    by_cases hc : c = '0'
    · subst hc
      simp only [List.cons_append, hexLength?,
        runLength_stop (p := fun c => isHexDigit c || c == '_') hhex]
    · simp [hexLength?, hc]

theorem nameLength?_stop (cs rest : List Char) :
    nameLength? (cs ++ stop :: rest) = nameLength? cs := by
  have hchar : Text.isIdentStart stop = false ∧ isIdentRest stop = false := by
    rcases isStop_cases hstop with rfl | rfl <;> decide
  cases cs with
  | nil => simp [nameLength?, hchar.1]
  | cons c later => rw [List.cons_append, nameLength?, nameLength?, runLength_stop hchar.2]

theorem symbolLength?_stop (cs rest : List Char) :
    symbolLength? (cs ++ stop :: rest) = symbolLength? cs := by
  have hchar : stop ∉ shortSymbols ∧ ∀ symbol ∈ longSymbols, stop ∉ symbol := by
    rcases isStop_cases hstop with rfl | rfl <;> decide
  rw [symbolLength?, symbolLength?, find?_isPrefixOf_stop hchar.2]
  cases cs with
  | nil => simp [hchar.1]
  | cons c later => rfl

end

theorem nameLength?_le {cs : List Char} {n : Nat} (h : nameLength? cs = some n) :
    n ≤ cs.length := by
  unfold nameLength? at h
  split at h
  · cases h
  · next c rest =>
    split at h
    · cases h
      have hle := runLength_le isIdentRest rest
      rw [List.length_cons]
      omega
    · cases h

theorem hexLength?_le {cs : List Char} {n : Nat} (h : hexLength? cs = some n) :
    n ≤ cs.length := by
  unfold hexLength? at h
  split at h
  · next x rest =>
    dsimp only at h
    split at h
    · cases h
      have hle := runLength_le (fun c => isHexDigit c || c == '_') rest
      simp only [List.length_cons]
      omega
    · cases h
  · cases h

theorem decimalLength?_le {cs : List Char} {n : Nat} (h : decimalLength? cs = some n) :
    n ≤ cs.length := by
  unfold decimalLength? at h
  split at h
  · cases h
  · next d rest =>
    split at h
    · cases h
      have hdigits := runLength_le isDigitRest rest
      have hfraction := fractionLength_le ((d :: rest).drop (1 + runLength isDigitRest rest))
      have hexponent := exponentLength_le ((d :: rest).drop (1 + runLength isDigitRest rest +
        fractionLength ((d :: rest).drop (1 + runLength isDigitRest rest))))
      simp only [List.length_drop, List.length_cons] at hfraction hexponent ⊢
      omega
    · cases h

theorem symbolLength?_le {cs : List Char} {n : Nat} (h : symbolLength? cs = some n) :
    n ≤ cs.length := by
  unfold symbolLength? at h
  split at h
  · next symbol hsymbol =>
    cases h
    have hprefix : symbol.isPrefixOf cs = true :=
      List.find?_some (p := fun symbol : List Char => symbol.isPrefixOf cs) hsymbol
    exact (List.isPrefixOf_iff_prefix.mp hprefix).length_le
  · split at h
    · next hshort =>
      cases h
      cases cs with
      | nil => simp at hshort
      | cons c rest => simp
    · cases h

theorem blankLength?_le {cs : List Char} {n : Nat} (h : blankLength? cs = some n) :
    n ≤ cs.length := by
  unfold blankLength? at h
  split at h
  · cases h
  · next c rest =>
    split at h
    · cases h
      have hle := runLength_le isBlank rest
      rw [List.length_cons]
      omega
    · cases h

/-! ## Lexemes with a head -/

theorem headedLength?_eq_some {head cs : List Char} {tailLength? : List Char → Option Nat} {n : Nat}
    (h : headedLength? head tailLength? cs = some n) :
    ∃ rest m, cs = head ++ rest ∧ tailLength? rest = some m ∧ n = head.length + m := by
  obtain ⟨rest, hstrip, htail⟩ := Option.bind_eq_some_iff.mp h
  obtain ⟨m, hm, rfl⟩ := Option.map_eq_some_iff.mp htail
  exact ⟨rest, m, Text.eq_append_of_stripStart? hstrip, hm, rfl⟩

theorem headedLength?_le {head cs : List Char} {tailLength? : List Char → Option Nat} {n : Nat}
    (htail : ∀ {rest m}, tailLength? rest = some m → m ≤ rest.length)
    (h : headedLength? head tailLength? cs = some n) : n ≤ cs.length := by
  obtain ⟨rest, m, rfl, hm, rfl⟩ := headedLength?_eq_some h
  have hle := htail hm
  rw [List.length_append]
  omega

theorem lineLength?_le {cs : List Char} {n : Nat} (h : lineLength? cs = some n) :
    n ≤ cs.length := by
  cases h
  exact runLength_le _ cs

theorem lengthThrough?_le {close cs : List Char} {n : Nat}
    (h : lengthThrough? close cs = some n) : n ≤ cs.length := by
  induction cs generalizing n with
  | nil => cases h
  | cons c rest ih =>
    rw [lengthThrough?] at h
    split at h
    · next hprefix =>
      cases h
      exact (List.isPrefixOf_iff_prefix.mp hprefix).length_le
    · obtain ⟨m, hm, rfl⟩ := Option.map_eq_some_iff.mp h
      have hle := ih hm
      rw [List.length_cons]
      omega

theorem quotedLength?_le {cs : List Char} {n : Nat} (h : quotedLength? cs = some n) :
    n ≤ cs.length := by
  fun_induction quotedLength? cs generalizing n with
  | case1 => cases h
  | case2 rest =>
    cases h
    simp
  | case3 => cases h
  | case4 => cases h
  | case5 => cases h
  | case6 c rest hc ih =>
    obtain ⟨m, hm, rfl⟩ := Option.map_eq_some_iff.mp h
    have hle := ih hm
    simp only [List.length_cons]
    omega
  | case7 c rest _ _ _ _ ih =>
    obtain ⟨m, hm, rfl⟩ := Option.map_eq_some_iff.mp h
    have hle := ih hm
    rw [List.length_cons]
    omega

theorem backtickedLength?_le {cs : List Char} {n : Nat} (h : backtickedLength? cs = some n) :
    n ≤ cs.length := by
  obtain ⟨m, hm, htick⟩ := Option.bind_eq_some_iff.mp h
  split at htick
  · next hhead =>
    cases htick
    have hne : cs.drop m ≠ [] := by
      intro hnil
      simp [hnil] at hhead
    have hlength := List.length_pos_iff.mpr hne
    rw [List.length_drop] at hlength
    omega
  · cases htick

theorem lexemeRule_le {rule : LexemeKind × (List Char → Option Nat)} (h : rule ∈ lexemeRules)
    {cs : List Char} {n : Nat} (hn : rule.2 cs = some n) : n ≤ cs.length := by
  simp only [lexemeRules, List.mem_cons, List.not_mem_nil, or_false] at h
  rcases h with rfl | rfl | rfl | rfl | rfl | rfl | rfl | rfl | rfl | rfl | rfl | rfl
  all_goals first
    | exact headedLength?_le lineLength?_le hn
    | exact headedLength?_le lengthThrough?_le hn
    | exact headedLength?_le quotedLength?_le hn
    | exact headedLength?_le backtickedLength?_le hn
    | exact nameLength?_le hn
    | exact hexLength?_le hn
    | exact decimalLength?_le hn
    | exact symbolLength?_le hn
    | exact blankLength?_le hn

theorem lexemeAt?_le {cs : List Char} {kind : LexemeKind} {n : Nat}
    (h : lexemeAt? cs = some (kind, n)) : n ≤ cs.length := by
  obtain ⟨rule, hmem, hrule⟩ := List.exists_of_findSome?_eq_some h
  obtain ⟨m, hm, hpair⟩ := Option.map_eq_some_iff.mp hrule
  cases hpair
  exact lexemeRule_le hmem hm

/-! ## A closing brace -/

def closing : List Char := [' ', '\x7d']

theorem lengthThrough?_closing {close : List Char} (hspace : ' ' ∉ close)
    (hnone : lengthThrough? close closing = none) (cs : List Char) :
    lengthThrough? close (cs ++ closing) = lengthThrough? close cs := by
  induction cs with
  | nil => exact hnone
  | cons c rest ih =>
    have hprefix : close.isPrefixOf (c :: rest ++ closing) = close.isPrefixOf (c :: rest) :=
      isPrefixOf_stop hspace (c :: rest) ['\x7d']
    rw [List.cons_append] at hprefix ⊢
    rw [lengthThrough?, lengthThrough?, hprefix, ih]

theorem quotedLength?_closing (cs : List Char) :
    quotedLength? (cs ++ closing) = quotedLength? cs := by
  fun_induction quotedLength? cs with
  | case1 => rfl
  | case2 rest => rfl
  | case3 => rfl
  | case4 => rfl
  | case5 c rest hline =>
    have hc : c = '\n' := by simpa using hline
    simp [quotedLength?, hc]
  | case6 c rest hline ih =>
    have hc : c ≠ '\n' := by simpa using hline
    simp [quotedLength?, hc, ih]
  | case7 c rest hquote hline hend hescape ih =>
    have hbackslash : c ≠ '\\' := by
      intro hc
      cases rest with
      | nil => exact hend hc rfl
      | cons d later => exact hescape d later hc rfl
    have hstep (later : List Char) :
        quotedLength? (c :: later) = (quotedLength? later).map (· + 1) :=
      quotedLength?.eq_6 c later hquote hline (fun hc _ => hbackslash hc)
        fun _ _ hc _ => hbackslash hc
    rw [List.cons_append, hstep, ih]

theorem backtickedLength?_closing (cs : List Char) :
    backtickedLength? (cs ++ closing) = backtickedLength? cs := by
  have hname : nameLength? (cs ++ closing) = nameLength? cs := nameLength?_stop rfl cs ['\x7d']
  rw [backtickedLength?, backtickedLength?, hname]
  cases hlength : nameLength? cs with
  | none => rfl
  | some n =>
    rw [Option.bind_some, Option.bind_some, List.drop_append_of_le_length (nameLength?_le hlength)]
    cases cs.drop n <;> rfl

theorem headedLength?_closing {head : List Char} (hspace : ' ' ∉ head)
    {tailLength? : List Char → Option Nat}
    (htail : ∀ cs, tailLength? (cs ++ closing) = tailLength? cs) (cs : List Char) :
    headedLength? head tailLength? (cs ++ closing) = headedLength? head tailLength? cs := by
  have hprefix : head.isPrefixOf (cs ++ closing) = head.isPrefixOf cs :=
    isPrefixOf_stop hspace cs ['\x7d']
  rw [headedLength?, headedLength?, Text.stripStart?, Text.stripStart?, hprefix]
  split
  · next hhead =>
    have hle := (List.isPrefixOf_iff_prefix.mp hhead).length_le
    rw [Option.bind_some, Option.bind_some, List.drop_append_of_le_length hle, htail]
  · rfl

/-- A comment up to the end of the line ends within a text that goes on behind it. -/
theorem headedLength?_lineLength?_closing {head cs : List Char} (hspace : ' ' ∉ head) :
    (headedLength? head lineLength? cs = none →
        headedLength? head lineLength? (cs ++ closing) = none) ∧
      ∀ n, headedLength? head lineLength? cs = some n → n < cs.length →
        headedLength? head lineLength? (cs ++ closing) = some n := by
  have hprefix : head.isPrefixOf (cs ++ closing) = head.isPrefixOf cs :=
    isPrefixOf_stop hspace cs ['\x7d']
  constructor
  · intro hnone
    rw [headedLength?, Text.stripStart?, hprefix]
    split
    · next hhead => simp [headedLength?, Text.stripStart?, hhead, lineLength?] at hnone
    · rfl
  · intro n hn hlt
    obtain ⟨rest, m, rfl, hm, rfl⟩ := headedLength?_eq_some hn
    cases hm
    rw [List.length_append, Nat.add_lt_add_iff_left] at hlt
    rw [List.append_assoc, headedLength?_append, lineLength?, runLength_of_lt hlt]
    rfl

theorem blankLength?_closing {cs : List Char} (hne : cs ≠ []) :
    (blankLength? cs = none → blankLength? (cs ++ closing) = none) ∧
      ∀ n, blankLength? cs = some n → n < cs.length → blankLength? (cs ++ closing) = some n := by
  obtain ⟨c, rest, rfl⟩ := List.exists_cons_of_ne_nil hne
  constructor
  · intro hnone
    rw [blankLength?] at hnone
    split at hnone
    · cases hnone
    · next hblank => rw [List.cons_append, blankLength?, if_neg hblank]
  · intro n hn hlt
    rw [blankLength?] at hn
    split at hn
    · next hblank =>
      cases hn
      have hrun : runLength isBlank rest < rest.length := by
        rw [List.length_cons] at hlt
        omega
      rw [List.cons_append, blankLength?, if_pos hblank, runLength_of_lt hrun]
    · cases hn

/-- What a rule finds it finds also before a closing brace, unless it is white space or a
comment that goes on to the end. -/
theorem lexemeRule_closing {rule : LexemeKind × (List Char → Option Nat)}
    (h : rule ∈ lexemeRules) {cs : List Char} (hne : cs ≠ []) :
    (rule.2 cs = none → rule.2 (cs ++ closing) = none) ∧
      ∀ n, rule.2 cs = some n →
        n < cs.length ∨ rule.1 ≠ .blank ∧ ¬ ['/', '/'] <+: cs →
          rule.2 (cs ++ closing) = some n := by
  have hsame {f : List Char → Option Nat} (hf : f (cs ++ closing) = f cs) :
      (f cs = none → f (cs ++ closing) = none) ∧
        ∀ n, f cs = some n → n < cs.length ∨ rule.1 ≠ .blank ∧ ¬ ['/', '/'] <+: cs →
          f (cs ++ closing) = some n := by
    rw [hf]
    exact ⟨id, fun n hn _ => hn⟩
  have hline {head : List Char} (hspace : ' ' ∉ head) (hslash : ['/', '/'] <+: head) :
      (headedLength? head lineLength? cs = none →
          headedLength? head lineLength? (cs ++ closing) = none) ∧
        ∀ n, headedLength? head lineLength? cs = some n →
          n < cs.length ∨ rule.1 ≠ .blank ∧ ¬ ['/', '/'] <+: cs →
            headedLength? head lineLength? (cs ++ closing) = some n := by
    refine ⟨(headedLength?_lineLength?_closing hspace).1, fun n hn hcond => ?_⟩
    refine (headedLength?_lineLength?_closing hspace).2 n hn (hcond.resolve_right fun hno => ?_)
    obtain ⟨rest, -, rfl, -⟩ := headedLength?_eq_some hn
    exact hno.2 (hslash.trans (List.prefix_append head rest))
  simp only [lexemeRules, List.mem_cons, List.not_mem_nil, or_false] at h
  rcases h with rfl | rfl | rfl | rfl | rfl | rfl | rfl | rfl | rfl | rfl | rfl | rfl
  · exact hline (by decide) (by decide)
  · exact hsame (headedLength?_closing (by decide) (lengthThrough?_closing (by decide) rfl) cs)
  · exact hline (by decide) (by decide)
  · exact hsame (headedLength?_closing (by decide) (lengthThrough?_closing (by decide) rfl) cs)
  · exact hsame (headedLength?_closing (by decide) (lengthThrough?_closing (by decide) rfl) cs)
  · exact hsame (headedLength?_closing (by decide) quotedLength?_closing cs)
  · exact hsame (headedLength?_closing (by decide) backtickedLength?_closing cs)
  · exact hsame (nameLength?_stop rfl cs _)
  · exact hsame (hexLength?_stop rfl cs _)
  · exact hsame (decimalLength?_stop rfl cs _)
  · exact hsame (symbolLength?_stop rfl cs _)
  · refine ⟨(blankLength?_closing hne).1, fun n hn hcond => ?_⟩
    exact (blankLength?_closing hne).2 n hn (hcond.resolve_right fun hno => hno.1 rfl)

theorem lexemeAt?_closing {cs : List Char} {kind : LexemeKind} {n : Nat}
    (h : lexemeAt? cs = some (kind, n)) (hne : cs ≠ [])
    (hcond : n < cs.length ∨ kind ≠ .blank ∧ ¬ ['/', '/'] <+: cs) :
    lexemeAt? (cs ++ closing) = some (kind, n) := by
  obtain ⟨earlier, rule, later, hrules, hrule, hearlier⟩ := List.findSome?_eq_some_iff.mp h
  obtain ⟨m, hm, hpair⟩ := Option.map_eq_some_iff.mp hrule
  cases hpair
  refine List.findSome?_eq_some_iff.mpr ⟨earlier, rule, later, hrules, ?_, fun other hother => ?_⟩
  · have hmem : rule ∈ lexemeRules := by rw [hrules]; simp
    rw [(lexemeRule_closing hmem hne).2 n hm hcond]
    rfl
  · have hmem : other ∈ lexemeRules := by rw [hrules]; simp [hother]
    have hnone : other.2 cs = none := Option.map_eq_none_iff.mp (hearlier other hother)
    rw [(lexemeRule_closing hmem hne).1 hnone]
    rfl

/-- Is the last thing in the text a comment up to the end of the line? -/
def endsInLineComment (cs : List Char) : Bool :=
  (splitLexemes cs).1.getLast?.any fun lexeme => ['/', '/'].isPrefixOf lexeme.chars

theorem lexes_closing : Lexes closing [.symbol "\x7d"] :=
  lexes_blank (by decide) (lexes_symbol (c := '\x7d') (lexemeAt?_plainSymbol (by decide) []) lexes_nil)

theorem lexes_blanks {cs rest : List Char} {faces : List Face} (hcs : ∀ c ∈ cs, isBlank c = true)
    (hrest : Lexes rest faces) : Lexes (cs ++ rest) faces := by
  induction cs with
  | nil => exact hrest
  | cons c cs ih =>
    exact lexes_blank (hcs c List.mem_cons_self) (ih fun d hd => hcs d (List.mem_cons_of_mem c hd))

theorem isBlank_of_blankLength? {cs : List Char} (h : blankLength? cs = some cs.length) :
    ∀ c ∈ cs, isBlank c = true := by
  cases cs with
  | nil => cases h
  | cons c rest =>
    rw [blankLength?] at h
    split at h
    · next hblank =>
      have hlength : (rest.takeWhile isBlank).length = rest.length := by
        have heq := Option.some.inj h
        rw [runLength, List.length_cons] at heq
        omega
      have hrest : rest.takeWhile isBlank = rest :=
        (List.takeWhile_prefix isBlank).eq_of_length hlength
      have hall : rest.all isBlank = true := hrest ▸ List.all_takeWhile
      intro d hd
      rcases List.mem_cons.mp hd with rfl | hd
      · exact hblank
      · exact List.all_eq_true.mp hall d hd
    · cases h

/-- White space is found by the rule for it alone. -/
theorem blankLength?_of_lexemeAt? {cs : List Char} {n : Nat}
    (h : lexemeAt? cs = some (.blank, n)) : blankLength? cs = some n := by
  obtain ⟨rule, hmem, hrule⟩ := List.exists_of_findSome?_eq_some h
  obtain ⟨m, hm, hpair⟩ := Option.map_eq_some_iff.mp hrule
  obtain ⟨hkind, rfl⟩ := Prod.mk.inj hpair
  have hblank : ∀ rule ∈ lexemeRules, rule.1 = .blank → rule.2 = blankLength? := by
    simp [lexemeRules]
  rwa [hblank rule hmem hkind] at hm

/-- The first lexeme of a text, and what comes after it. -/
theorem Lexes.exists_first {cs : List Char} {faces : List Face} (h : Lexes cs faces)
    (hne : cs ≠ []) :
    ∃ kind n later, lexemeAt? cs = some (kind, n) ∧ Lexes (cs.drop n) later ∧
      faces = (Lexeme.face? ⟨kind, cs.take n⟩).toList ++ later := by
  cases hat : lexemeAt? cs with
  | none =>
    rw [Lexes, splitLexemes_of_none hat] at h
    exact absurd h.1 hne
  | some found =>
    obtain ⟨kind, n⟩ := found
    rw [Lexes, splitLexemes_eq hat] at h
    refine ⟨kind, n, _, rfl, ⟨h.1, rfl⟩, ?_⟩
    rw [← h.2]
    cases hface : Lexeme.face? ⟨kind, cs.take n⟩ with
    | none => rw [List.filterMap_cons_none hface]; rfl
    | some face => rw [List.filterMap_cons_some hface]; rfl

theorem endsInLineComment_of_last {cs : List Char} {kind : LexemeKind} {n : Nat}
    (hat : lexemeAt? cs = some (kind, n)) (hdrop : cs.drop n = []) :
    endsInLineComment cs = ['/', '/'].isPrefixOf cs := by
  have htake : cs.take n = cs := by
    have happend := List.take_append_drop n cs
    rwa [hdrop, List.append_nil] at happend
  rw [endsInLineComment, splitLexemes_eq hat, hdrop, splitLexemes_of_none lexemeAt?_nil, htake]
  rfl

theorem endsInLineComment_of_drop {cs : List Char} {kind : LexemeKind} {n : Nat}
    {later : List Face} (hat : lexemeAt? cs = some (kind, n)) (hdrop : cs.drop n ≠ [])
    (hlater : Lexes (cs.drop n) later) :
    endsInLineComment cs = endsInLineComment (cs.drop n) := by
  obtain ⟨nextKind, m, -, hnext, -⟩ := hlater.exists_first hdrop
  rw [endsInLineComment, endsInLineComment, splitLexemes_eq hat, splitLexemes_eq hnext,
    List.getLast?_cons_cons]

theorem lexemeAt?_slashes (cs : List Char) :
    lexemeAt? ('/' :: '/' :: cs) =
      some (if cs.head? = some '/' then .docLine else .comment, 2 + runLength (· != '\n') cs) := by
  cases cs with
  | nil => decide
  | cons c later =>
    by_cases hc : c = '/'
    · subst hc
      simp [lexemeAt?, lexemeRules, headedLength?, Text.stripStart?, lineLength?, runLength]
      omega
    · simp [lexemeAt?, lexemeRules, headedLength?, Text.stripStart?, lineLength?, Ne.symm hc, hc]

/-- A comment that goes on to the end goes on over the brace. -/
theorem lexes_comment_closing {cs : List Char} {kind : LexemeKind}
    (hslashes : ['/', '/'] <+: cs) (hat : lexemeAt? cs = some (kind, cs.length))
    (hdoc : kind ≠ .docLine) :
    Lexes (cs ++ closing) (Lexeme.face? ⟨kind, cs⟩).toList := by
  obtain ⟨later, rfl⟩ := hslashes
  rw [List.cons_append, List.cons_append, List.nil_append, lexemeAt?_slashes] at hat
  have hpair := Prod.mk.inj (Option.some.inj hat)
  have hhead : later.head? ≠ some '/' := by
    intro hhead
    rw [if_pos hhead] at hpair
    exact hdoc hpair.1.symm
  rw [if_neg hhead] at hpair
  obtain ⟨rfl, hlength⟩ := hpair
  have hrun : runLength (· != '\n') later = later.length := by
    simp only [List.length_cons] at hlength
    omega
  have hhead' : (later ++ closing).head? ≠ some '/' := by
    cases later with
    | nil => decide
    | cons c more => exact hhead
  have hrun' : runLength (· != '\n') (later ++ closing) = (later ++ closing).length := by
    rw [runLength_append_of_length hrun, List.length_append]
    rfl
  have hlexeme : lexemeAt? (('/' :: '/' :: (later ++ closing)) ++ []) =
      some (.comment, ('/' :: '/' :: (later ++ closing)).length) := by
    rw [List.append_nil, lexemeAt?_slashes, if_neg hhead', hrun']
    simp only [List.length_cons]
    rw [Nat.add_comm]
  have hcomment := lexes_append hlexeme lexes_nil
  rw [List.append_nil] at hcomment
  exact hcomment

/-- The brace follows the last lexeme, or the white space or the comment that it is goes on. -/
theorem lexes_last_closing {cs : List Char} {kind : LexemeKind} (hne : cs ≠ [])
    (hat : lexemeAt? cs = some (kind, cs.length)) (hdoc : ['/', '/'] <+: cs → kind ≠ .docLine) :
    Lexes (cs ++ closing) ((Lexeme.face? ⟨kind, cs⟩).toList ++
      if ['/', '/'].isPrefixOf cs then [] else [.symbol "\x7d"]) := by
  by_cases hslashes : ['/', '/'] <+: cs
  · rw [if_pos (List.isPrefixOf_iff_prefix.mpr hslashes), List.append_nil]
    exact lexes_comment_closing hslashes hat (hdoc hslashes)
  · rw [if_neg (mt List.isPrefixOf_iff_prefix.mp hslashes)]
    by_cases hblank : kind = .blank
    · subst hblank
      exact lexes_blanks (isBlank_of_blankLength? (blankLength?_of_lexemeAt? hat)) lexes_closing
    · exact lexes_append (lexemeAt?_closing hat hne (.inr ⟨hblank, hslashes⟩)) lexes_closing

/-- A text made of lexemes is closed by a brace, unless the brace is part of a comment. -/
theorem Lexes.append_closing {cs : List Char} {faces : List Face} (h : Lexes cs faces)
    (hdoc : endsInLineComment cs = true → ∀ face ∈ faces, face.1 ≠ .doc) :
    Lexes (cs ++ closing)
      (faces ++ if endsInLineComment cs then [] else [.symbol "\x7d"]) := by
  induction hlength : cs.length using Nat.strongRecOn generalizing cs faces with
  | ind length ih =>
    by_cases hne : cs = []
    · subst hne
      cases h.2.symm.trans lexes_nil.2
      have hline : endsInLineComment [] = false := by
        rw [endsInLineComment, splitLexemes_of_none lexemeAt?_nil]
        rfl
      rw [hline]
      exact lexes_closing
    · obtain ⟨kind, n, later, hat, hlater, rfl⟩ := h.exists_first hne
      have hpos := lexemeAt?_pos hat
      have hle := lexemeAt?_le hat
      by_cases hdrop : cs.drop n = []
      · rw [endsInLineComment_of_last hat hdrop] at hdoc ⊢
        rw [hdrop] at hlater
        cases hlater.2.symm.trans lexes_nil.2
        have hn : n = cs.length := Nat.le_antisymm hle (List.drop_eq_nil_iff.mp hdrop)
        subst hn
        rw [List.take_length, List.append_nil] at hdoc ⊢
        refine lexes_last_closing hne hat fun hslashes => ?_
        rintro rfl
        have hface : Face.doc (String.ofList (docLineText (cs.drop 3))) ∈
            (Lexeme.face? ⟨.docLine, cs⟩).toList := by
          simp [Lexeme.face?, Lexeme.content?, Face.doc]
        exact hdoc (List.isPrefixOf_iff_prefix.mpr hslashes) _ hface rfl
      · rw [endsInLineComment_of_drop hat hdrop hlater] at hdoc ⊢
        have hlt : n < cs.length := by
          have hlong := List.length_pos_iff.mpr hdrop
          rw [List.length_drop] at hlong
          omega
        have hrest := ih (cs.drop n).length (by rw [List.length_drop]; omega) hlater
          (fun hline face hface => hdoc hline face (List.mem_append_right _ hface)) rfl
        have hclosed := lexemeAt?_closing hat hne (.inl hlt)
        have htake : (cs.take n).length = n := List.length_take_of_le hle
        have happend : cs ++ closing = cs.take n ++ (cs.drop n ++ closing) := by
          rw [← List.append_assoc, List.take_append_drop]
        rw [happend] at hclosed ⊢
        rw [List.append_assoc]
        refine lexes_append ?_ hrest
        rw [htake]
        exact hclosed

end WireSchema.Swift
