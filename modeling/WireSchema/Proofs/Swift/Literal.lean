import WireSchema.Proofs.Text.Blank
import WireSchema.Swift.Lexeme
import WireSchema.Swift.Literal

/-!
# String literals read back

Any text written as a string literal is one lexeme, and the literal stands for the
text. Both rest on the escapes one character at a time.
-/

namespace WireSchema.Swift

/-! ## What an escape looks like -/

/-- A character is escaped by a backslash and a letter, by its code point, or not at all. -/
theorem escapeChar_cases (c : Char) :
    (∃ letter, escapeChar c = ['\\', letter] ∧ escapeText letter = [c] ∧ letter ≠ 'u' ∧
        letter ≠ '\n') ∨
      (isControl c = true ∧ escapeChar c = Text.codePointEscape c) ∨
      (escapeChar c = [c] ∧ c ≠ '"' ∧ c ≠ '\\' ∧ c ≠ '\n') := by
  unfold escapeChar
  split
  · exact .inl ⟨'"', rfl, by decide, by decide, by decide⟩
  · exact .inl ⟨'\\', rfl, by decide, by decide, by decide⟩
  · exact .inl ⟨'n', rfl, by decide, by decide, by decide⟩
  · exact .inl ⟨'r', rfl, by decide, by decide, by decide⟩
  · exact .inl ⟨'t', rfl, by decide, by decide, by decide⟩
  · exact .inl ⟨'0', rfl, by decide, by decide, by decide⟩
  · next hquote hbackslash hfeed _ _ _ =>
    cases hcontrol : isControl c with
    | true => exact .inr (.inl ⟨rfl, rfl⟩)
    | false => exact .inr (.inr ⟨rfl, hquote, hbackslash, hfeed⟩)

theorem toNat_mem_range_of_isControl {c : Char} (h : isControl c = true) :
    c.toNat ∈ List.range 160 := by
  rw [List.mem_range]
  simp only [isControl, Bool.or_eq_true, Bool.and_eq_true, decide_eq_true_eq] at h
  omega

/-- Does the character mean nothing inside an escape? -/
def isInsideEscape (c : Char) : Bool :=
  c != '\x7d' && c != '"' && c != '\\' && c != '\n'

theorem isInsideEscape_eq {c : Char} (h : isInsideEscape c = true) :
    (c != '\x7d') = true ∧ c ≠ '"' ∧ c ≠ '\\' ∧ c ≠ '\n' := by
  simpa [isInsideEscape, and_assoc] using h

/-- Code points of control characters are read back from their digits. -/
theorem hexDigits_of_mem_range : ∀ n ∈ List.range 160,
    Number.readNat? 16 (Text.hexDigits n) = some n ∧
      (Text.hexDigits n).head? ≠ some '+' ∧
      (Text.hexDigits n).all isInsideEscape = true := by
  decide +kernel

theorem isInsideEscape_of_mem_hexDigits {c d : Char} (h : isControl c = true)
    (hd : d ∈ Text.hexDigits c.toNat) :
    (d != '\x7d') = true ∧ d ≠ '"' ∧ d ≠ '\\' ∧ d ≠ '\n' := by
  obtain ⟨-, -, hinside⟩ := hexDigits_of_mem_range c.toNat (toNat_mem_range_of_isControl h)
  exact isInsideEscape_eq (List.all_eq_true.mp hinside d hd)

theorem charOfNat?_toNat (c : Char) : charOfNat? c.toNat = some c := by
  have hvalid : c.toNat.isValidChar := c.valid
  rw [charOfNat?, dif_pos hvalid]
  exact congrArg some (Char.ext rfl)

theorem codePointText_hexDigits {c : Char} (h : isControl c = true) :
    codePointText (Text.hexDigits c.toNat) = [c] := by
  obtain ⟨hread, hplus, -⟩ := hexDigits_of_mem_range c.toNat (toNat_mem_range_of_isControl h)
  have hstrip : Text.stripStart? ['+'] (Text.hexDigits c.toNat) = none := by
    cases hdigits : Text.hexDigits c.toNat with
    | nil => rfl
    | cons d rest =>
      have hd : '+' ≠ d := fun hd => hplus (by rw [hdigits, hd]; rfl)
      simp [Text.stripStart?, hd]
  simp [codePointText, readCodePoint?, hstrip, hread, charOfNat?_toNat]

/-- Does the character stand for itself in a literal? -/
def isUnescaped (c : Char) : Bool :=
  escapeChar c == [c]

theorem flatMap_escapeChar_of_all {cs : List Char} (h : cs.all isUnescaped = true) :
    cs.flatMap escapeChar = cs := by
  induction cs with
  | nil => rfl
  | cons c rest ih =>
    obtain ⟨hc, hrest⟩ := (Bool.and_eq_true _ _).mp h
    rw [List.flatMap_cons, ih hrest, beq_iff_eq.mp hc]
    rfl

theorem stringLiteral_of_all {text : String} (h : text.toList.all isUnescaped = true) :
    stringLiteral text = "\"" ++ text ++ "\"" := by
  apply String.toList_inj.mp
  rw [stringLiteral, literalChars, flatMap_escapeChar_of_all h]
  simp

/-! ## Unescaping -/

theorem takeWhile_hexDigits {c : Char} (h : isControl c = true) (rest : List Char) :
    (Text.hexDigits c.toNat ++ '\x7d' :: rest).takeWhile (· != '\x7d') =
      Text.hexDigits c.toNat := by
  rw [List.takeWhile_append_of_pos fun d hd => (isInsideEscape_of_mem_hexDigits h hd).1]
  simp

theorem dropWhile_hexDigits {c : Char} (h : isControl c = true) (rest : List Char) :
    (Text.hexDigits c.toNat ++ '\x7d' :: rest).dropWhile (· != '\x7d') = '\x7d' :: rest := by
  rw [List.dropWhile_append_of_pos fun d hd => (isInsideEscape_of_mem_hexDigits h hd).1]
  simp

/-- What an escape is written for is read back, whatever comes after it. -/
theorem unescape_escapeChar (c : Char) (rest : List Char) :
    unescape (escapeChar c ++ rest) = c :: unescape rest := by
  rcases escapeChar_cases c with ⟨letter, hescape, htext, hu, -⟩ | ⟨hcontrol, hescape⟩ |
    ⟨hescape, -, hbackslash, -⟩
  · have hletter : ∀ rest', letter = 'u' → rest = '\x7b' :: rest' → False :=
      fun _ heq _ => hu heq
    rw [hescape, List.cons_append, List.singleton_append, unescape.eq_3 _ _ hletter, htext]
    rfl
  · rw [hescape, Text.codePointEscape]
    simp only [List.cons_append, List.append_assoc, List.nil_append]
    rw [unescape.eq_2, takeWhile_hexDigits hcontrol, dropWhile_hexDigits hcontrol,
      codePointText_hexDigits hcontrol]
    rfl
  · rw [hescape, List.singleton_append, unescape.eq_4]
    · intro _ heq
      exact absurd heq hbackslash
    · intro _ _ heq
      exact absurd heq hbackslash

theorem unescape_flatMap_escapeChar (cs : List Char) : unescape (cs.flatMap escapeChar) = cs := by
  induction cs with
  | nil => exact unescape.eq_1
  | cons c rest ih => rw [List.flatMap_cons, unescape_escapeChar, ih]

/-! ## The end of a literal -/

/-- Characters that mean nothing to a literal are passed over. -/
theorem quotedLength?_append {cs : List Char}
    (h : ∀ c ∈ cs, c ≠ '"' ∧ c ≠ '\\' ∧ c ≠ '\n') (rest : List Char) :
    quotedLength? (cs ++ rest) = (quotedLength? rest).map (· + cs.length) := by
  induction cs with
  | nil => simp
  | cons c later ih =>
    obtain ⟨hquote, hbackslash, hfeed⟩ := h c List.mem_cons_self
    have hlater := ih fun d hd => h d (List.mem_cons_of_mem c hd)
    rw [List.cons_append, quotedLength?.eq_6 _ _ hquote hfeed
      (fun heq _ => hbackslash heq) (fun _ _ heq _ => hbackslash heq), hlater, Option.map_map]
    rfl

/-- Escapes hold no quote that could end the literal, and no line feed. -/
theorem quotedLength?_escapeChar (c : Char) (rest : List Char) :
    quotedLength? (escapeChar c ++ rest) =
      (quotedLength? rest).map (· + (escapeChar c).length) := by
  rcases escapeChar_cases c with ⟨letter, hescape, -, -, hfeed⟩ | ⟨hcontrol, hescape⟩ |
    ⟨hescape, hquote, hbackslash, hfeed⟩
  · rw [hescape, List.cons_append, List.singleton_append, quotedLength?.eq_5]
    simp [hfeed]
  · have htail : ∀ d ∈ '\x7b' :: (Text.hexDigits c.toNat ++ ['\x7d']),
        d ≠ '"' ∧ d ≠ '\\' ∧ d ≠ '\n' := by
      intro d hd
      rcases List.mem_cons.mp hd with rfl | hd
      · decide
      · rcases List.mem_append.mp hd with hd | hd
        · exact (isInsideEscape_of_mem_hexDigits hcontrol hd).2
        · cases List.mem_singleton.mp hd
          decide
    rw [hescape, Text.codePointEscape, List.cons_append, List.cons_append, quotedLength?.eq_5,
      quotedLength?_append htail, Option.map_map, Function.comp_def]
    simp [Nat.add_assoc]
  · rw [hescape, List.singleton_append, quotedLength?.eq_6 _ _ hquote hfeed
      (fun heq _ => hbackslash heq) (fun _ _ heq _ => hbackslash heq)]
    rfl

/-- The quote after the escapes is the one that ends the literal. -/
theorem quotedLength?_flatMap_escapeChar (cs rest : List Char) :
    quotedLength? (cs.flatMap escapeChar ++ '"' :: rest) =
      some ((cs.flatMap escapeChar).length + 1) := by
  induction cs with
  | nil => rfl
  | cons c later ih =>
    rw [List.flatMap_cons, List.append_assoc, quotedLength?_escapeChar, ih, Option.map_some,
      List.length_append]
    congr 1
    omega

/-- A literal starts with three quotes only if it has no text and a quote behind it. -/
theorem head?_flatMap_escapeChar (cs : List Char) : (cs.flatMap escapeChar).head? ≠ some '"' := by
  cases cs with
  | nil => exact nofun
  | cons c later =>
    rcases escapeChar_cases c with ⟨letter, hescape, -⟩ | ⟨-, hescape⟩ | ⟨hescape, hquote, -⟩
    · rw [List.flatMap_cons, hescape]
      exact fun h => absurd (Option.some.inj h) (by decide)
    · rw [List.flatMap_cons, hescape]
      exact fun h => absurd (Option.some.inj h) (by decide)
    · rw [List.flatMap_cons, hescape]
      exact fun h => hquote (Option.some.inj h)

/-! ## Literals -/

theorem literalBody_literalChars (cs : List Char) :
    literalBody (literalChars cs) = cs.flatMap escapeChar := by
  have hhead := head?_flatMap_escapeChar cs
  unfold literalBody literalChars
  generalize cs.flatMap escapeChar = body at hhead
  have hthree : (Text.stripStart? ['"', '"', '"'] ('"' :: (body ++ ['"']))).bind
      (Text.stripEnd? ['"', '"', '"']) = none := by
    cases body with
    | nil => rfl
    | cons d later =>
      have hd : '"' ≠ d := fun hd => hhead (by rw [hd]; rfl)
      simp [Text.stripStart?, hd]
  have hone : (Text.stripStart? ['"'] ('"' :: (body ++ ['"']))).bind (Text.stripEnd? ['"']) =
      some body := by
    rw [show '"' :: (body ++ ['"']) = ['"'] ++ (body ++ ['"']) from rfl, Text.stripStart?_append,
      Option.bind_some, Text.stripEnd?, if_pos (by simp)]
    simp
  dsimp only
  rw [hthree, hone]
  rfl

/-- A string literal stands for the text it was written for. -/
theorem stringValue_stringLiteral (text : String) : stringValue (stringLiteral text) = text := by
  rw [stringValue, stringLiteral, String.toList_ofList, literalBody_literalChars,
    unescape_flatMap_escapeChar, String.ofList_toList]

end WireSchema.Swift
