import WireSchema.Proofs.Generation.NumberEnum
import WireSchema.Proofs.Number.Decimal
import WireSchema.Proofs.Swift.LexemeLengths

/-!
# Tags that last

A tag that is a number is written as it is and read back as the number that it starts with, an
integer of 64 bits in plain decimal. So a tag comes back changed if its exponent stands right
behind the point, which ends the number, and if it is such an integer in another form, with
a zero in front or the sign of a zero.
-/

namespace WireSchema

namespace Swift

open Number (HasParts IsPoint IsExponent)
open Text (isDecimalDigit)

/-! ## The number that a literal starts with -/

theorem mem_digitWords {cs : List Char} (hcs : cs ≠ []) (h : ∀ c ∈ cs, c.isDigit = true) :
    cs ∈ digitWords := by
  obtain ⟨c, later, rfl⟩ := List.exists_cons_of_ne_nil hcs
  rw [List.forall_mem_cons] at h
  refine Words.mem_oneOf_mul_many.mpr ⟨c, later, isDecimalDigit_of_isDigit h.1, fun d hd => ?_, rfl⟩
  rw [isDigitRest, isDecimalDigit_of_isDigit (h.2 d hd), Bool.true_or]

theorem mem_exponentWords {cs : List Char} (h : IsExponent cs) : cs ∈ exponentWords := by
  rcases h with rfl | ⟨letter, sign, digits, rfl, hletter, hsign, hne, hdigits⟩
  · exact .inl rfl
  · have hsigned : sign ∈ (1 + Words.oneOf fun c => c == '+' || c == '-' : Language Char) := by
      rcases hsign with rfl | rfl | rfl
      · exact .inl rfl
      · exact .inr ⟨'+', rfl, rfl⟩
      · exact .inr ⟨'-', rfl, rfl⟩
    have hdecimal : digits ∈ Words.atLeastOne isDecimalDigit :=
      Words.mem_atLeastOne.mpr ⟨hne, fun c hc => isDecimalDigit_of_isDigit (hdigits c hc)⟩
    exact .inr (Words.mem_oneOf_mul.mpr
      ⟨letter, by simpa using hletter, _, Language.append_mem_mul hsigned hdecimal, rfl⟩)

variable {cs whole point exponent : List Char}

/-- The number goes up to the end, unless there is a point without digits behind it. -/
theorem leadingNumber_of_hasParts (h : HasParts cs whole point exponent) (hpoint : point ≠ ['.']) :
    leadingNumber cs = cs := by
  have hfraction : point ∈ fractionWords := by
    rcases h.point with rfl | ⟨fraction, rfl, hdigits⟩
    · exact .inl rfl
    · have hne : fraction ≠ [] := fun hnil => hpoint (by rw [hnil])
      exact .inr (Words.mem_exactly_mul.mpr ⟨fraction, mem_digitWords hne hdigits, rfl⟩)
  have hword : cs ∈ digitWords * (fractionWords * exponentWords) := by
    rw [h.eq]
    exact Language.append_mem_mul (mem_digitWords h.nonempty h.whole)
      (Language.append_mem_mul hfraction (mem_exponentWords h.exponent))
  rw [leadingNumber, measures_decimalLength?.length?_eq hword, Option.getD_some, List.take_length]

/-- A point without digits behind it ends the number. -/
theorem leadingNumber_of_barePoint (h : HasParts cs whole ['.'] exponent) :
    leadingNumber cs = whole := by
  have hcs : cs = whole ++ '.' :: exponent := h.eq
  have hdigits := digitLength?_append (mem_digitWords h.nonempty h.whole)
    (show ('.' :: exponent).head?.any isDigitRest = false from rfl)
  have hfraction : fractionLength ('.' :: exponent) = 0 := by
    rcases h.exponent with rfl | ⟨letter, sign, digits, rfl, hletter, -⟩
    · rfl
    · rw [fractionLength, if_neg]
      rcases hletter with rfl | rfl <;> decide
  have hexponent : exponentLength ('.' :: exponent) = 0 := by simp [exponentLength]
  have hlength : decimalLength? cs = some whole.length := by
    rw [decimalLength?_eq, hcs]
    simp only [hdigits, Option.bind_some, List.drop_left, hfraction, List.drop_zero, hexponent,
      Option.map_some, Nat.add_zero]
  rw [leadingNumber, hlength, Option.getD_some, hcs, List.take_left]

/-! ## Numbers read as raw values -/

theorem head?_leadingNumber {number : List Char} (h : number.head?.any Char.isDigit = true) :
    (leadingNumber number).head? = number.head? := by
  cases number with
  | nil => cases h
  | cons c later =>
    have hlength : (decimalLength? (c :: later)).getD 0 ≠ 0 := by
      rw [decimalLength?, if_pos (isDecimalDigit_of_isDigit h)]
      simp only [Option.getD_some]
      omega
    rw [leadingNumber, List.head?_take, if_neg hlength]

theorem isNumberText_leadingNumber {number : List Char} (h : IsNumberText number) :
    IsNumberText (leadingNumber number) :=
  fun c hc => h c (List.mem_of_mem_take hc)

/-- What is read where a number is written. -/
theorem numberText?_rawLiteralOf {text : String} {negative : Bool} {number : List Char}
    (h : IsSignedNumber text.toList negative number) :
    numberText? (rawLiteralOf text) =
      (unsignedNumber? negative (leadingNumber number)).map String.ofList := by
  have hkept : (leadingNumber number).filter (· != '_') = leadingNumber number := by
    have hchars : ∀ c ∈ numberChars, (c != '_') = true := forall_numberChars (by decide)
    exact List.filter_eq_self.mpr fun c hc => hchars c (isNumberText_leadingNumber h.chars c hc)
  rw [rawLiteralOf, h.splitMinus_eq,
    numberText?_signedText negative (by rw [head?_leadingNumber h.digit]; exact h.digit), hkept]

theorem unsignedNumber?_of_isNumberText (negative : Bool) (h : IsNumberText cs) :
    unsignedNumber? negative cs =
      match Number.readInt64? 10 cs with
      | some n => some (Number.decimalChars (if negative then negateInt64 n else n))
      | none => (Number.readFinite? cs).map fun _ => signChars negative ++ cs := by
  unfold unsignedNumber?
  rw [radixDigits?_of_isNumberText h]
  cases negative <;> rfl

/-- The sign of an integer is read with it. -/
theorem readInt64?_signed {negative : Bool} {number : List Char}
    (h : number.head?.any Char.isDigit = true) {n : Int}
    (hread : Number.readInt64? 10 number = some n) :
    Number.readInt64? 10 (signChars negative ++ number) =
      some (if negative then negateInt64 n else n) := by
  have hunsigned : ∀ sign, sign.isDigit = false → number.head? ≠ some sign := by
    intro sign hsign heq
    rw [heq, Option.any_some, hsign] at h
    cases h
  have hrange := Number.isInt64_of_readInt64? hread
  cases negative with
  | false => exact hread
  | true =>
    rw [Number.readInt64?, Number.readInt?_of_unsigned (hunsigned '+' rfl) (hunsigned '-' rfl)]
      at hread
    obtain ⟨k, hk, rfl⟩ := Option.map_eq_some_iff.mp (Option.filter_eq_some_iff.mp hread).1
    have hneg : Number.isInt64 (-Int.ofNat k) = true := by
      obtain ⟨hlow, hhigh⟩ := Number.isInt64_iff.mp hrange
      unfold Number.int64Max at hhigh
      exact Number.isInt64_iff.mpr ⟨by unfold Number.int64Min; omega, by
        unfold Number.int64Max
        simp only [Int.ofNat_eq_natCast]
        omega⟩
    show ((Number.readNat? 10 number).map fun n => -Int.ofNat n).filter Number.isInt64 = _
    rw [hk, Option.map_some, Option.filter_some_pos hneg, if_pos rfl,
      Int.ofNat_eq_natCast, negateInt64_of_nonneg (Int.natCast_nonneg k)]

end Swift

namespace Generation

open Swift
open Number (HasParts)

/-! ## Tags -/

/-- The tag is not changed when it is written as a raw value and read again: it has no exponent
right behind the point, and it is in plain decimal if it is a 64-bit integer beside its sign. -/
structure IsLasting (tag : String) : Prop where
  point : ∀ letter ∈ ['e', 'E'], ¬ ['.', letter] <:+: tag.toList
  plain : (Number.readInt64? 10 (splitMinus tag.toList).2).isSome = true →
    RawKind.isIntTag tag = true

-- both letters are written out, since the kernel would evaluate a quantifier over them too deeply
instance (tag : String) : Decidable (IsLasting tag) :=
  decidable_of_iff (¬ ['.', 'e'] <:+: tag.toList ∧ ¬ ['.', 'E'] <:+: tag.toList ∧
      ((Number.readInt64? 10 (splitMinus tag.toList).2).isSome = true →
        RawKind.isIntTag tag = true))
    ⟨fun h => ⟨by simp [h.1, h.2.1], h.2.2⟩,
      fun h => ⟨h.point 'e' (by simp), h.point 'E' (by simp), h.plain⟩⟩

theorem isLasting_decimal {n : Int} (h : Number.isInt64 n = true) :
    IsLasting (Number.decimal n) where
  point letter _ hpoint := by
    rw [Number.decimal, String.toList_ofList] at hpoint
    exact Number.point_notMem_decimalChars n (hpoint.subset List.mem_cons_self)
  plain _ := RawKind.isIntTag_iff.mpr ⟨n, h, rfl⟩

theorem getLast?_of_digits {cs : List Char} (hcs : cs ≠ []) (h : ∀ c ∈ cs, c.isDigit = true) :
    cs.getLast?.any Char.isDigit = true := by
  rw [List.getLast?_eq_some_getLast hcs, Option.any_some]
  exact h _ (List.getLast_mem hcs)

theorem getLast?_decimalChars (n : Int) :
    (Number.decimalChars n).getLast?.any Char.isDigit = true := by
  have hdigits (m : Nat) := getLast?_of_digits (Number.natDigits_ne_nil m)
    fun _ => Number.isDigit_of_mem_natDigits
  cases n with
  | ofNat n => exact hdigits n
  | negSucc n =>
    have happend : (['-'] ++ Number.natDigits (n + 1)).getLast? =
        (Number.natDigits (n + 1)).getLast? :=
      List.getLast?_append_of_ne_nil _ (Number.natDigits_ne_nil (n + 1))
    exact (congrArg (Option.any Char.isDigit) happend).trans (hdigits (n + 1))

/-- A tag that is a number is finite and ends in a digit. -/
theorem finite_of_ofTag? {tag : String} (h : (RawKind.ofTag? tag).isSome = true) :
    (Number.readFinite? tag.toList).isSome = true ∧ tag.toList.getLast?.any Char.isDigit = true := by
  unfold RawKind.ofTag? at h
  split at h
  · next hint =>
    obtain ⟨n, hn, rfl⟩ := RawKind.isIntTag_iff.mp hint
    rw [Number.decimal, String.toList_ofList, Number.readFinite?_decimalChars hn]
    exact ⟨rfl, getLast?_decimalChars n⟩
  · split at h
    · next hfloat =>
      simp only [RawKind.isFloatTag, Bool.and_eq_true] at hfloat
      obtain ⟨⟨⟨hhead, hlast⟩, -⟩, hfinite⟩ := hfloat
      refine ⟨hfinite, ?_⟩
      cases hstrip : Text.stripStart? ['-'] tag.toList with
      | none =>
        rw [hstrip] at hlast
        exact hlast
      | some digits =>
        rw [hstrip, Option.getD_some] at hhead hlast
        have hne : digits ≠ [] := by
          rintro rfl
          cases hhead
        rw [Text.eq_append_of_stripStart? hstrip, List.getLast?_append_of_ne_nil _ hne]
        exact hlast
    · cases h

section

variable {tag : String} {negative : Bool} {number whole point exponent : List Char}

/-- A finite number is one beside its sign too, and it falls into parts. -/
theorem exists_parts_of_finite (hnumber : IsSignedNumber tag.toList negative number)
    (hfinite : (Number.readFinite? tag.toList).isSome = true) :
    (Number.readFinite? number).isSome = true ∧
      ∃ whole point exponent, HasParts number whole point exponent := by
  obtain ⟨htag, hdigit, -⟩ := hnumber
  cases number with
  | nil => cases hdigit
  | cons c later =>
    have hunsigned : (Number.readFinite? (c :: later)).isSome = true := by
      rw [htag] at hfinite
      cases negative with
      | false => exact hfinite
      | true => rwa [signChars, if_pos rfl, List.singleton_append,
          Number.isSome_readFinite?_minus hdigit] at hfinite
    refine ⟨hunsigned, ?_⟩
    obtain ⟨x, hx⟩ := Option.isSome_iff_exists.mp hunsigned
    obtain ⟨d, hd, -⟩ := Option.map_eq_some_iff.mp (Option.filter_eq_some_iff.mp hx).1
    exact Number.exists_hasParts hdigit hd

/-- A number that is cut off at its point does not last. -/
theorem numberText?_ne_of_barePoint (hnumber : IsSignedNumber tag.toList negative number)
    (hparts : HasParts number whole ['.'] exponent) :
    numberText? (rawLiteralOf tag) ≠ some tag := by
  intro hsame
  rw [numberText?_rawLiteralOf hnumber, leadingNumber_of_barePoint hparts] at hsame
  obtain ⟨chars, hchars, htag⟩ := Option.map_eq_some_iff.mp hsame
  have hpoint : '.' ∈ chars := by
    rw [← String.toList_ofList (l := chars), htag, hnumber.eq, hparts.eq]
    simp
  have hwhole : IsNumberText whole := fun c hc => mem_numberChars_of_isDigit (hparts.whole c hc)
  rw [unsignedNumber?_of_isNumberText negative hwhole] at hchars
  split at hchars
  · cases hchars
    exact Number.point_notMem_decimalChars _ hpoint
  · obtain ⟨_, -, rfl⟩ := Option.map_eq_some_iff.mp hchars
    have hnone := Number.notMem_of_digits hparts.whole (show '.'.isDigit = false from rfl)
    cases negative <;> simp [signChars, hnone] at hpoint

theorem not_isLasting_of_barePoint (hnumber : IsSignedNumber tag.toList negative number)
    (hparts : HasParts number whole ['.'] exponent)
    (hlast : tag.toList.getLast?.any Char.isDigit = true) : ¬ IsLasting tag := by
  intro hlasting
  have hchars : tag.toList = signChars negative ++ whole ++ '.' :: exponent := by
    rw [hnumber.eq, hparts.eq, List.append_assoc]
    rfl
  rcases hparts.exponent with rfl | ⟨letter, sign, digits, rfl, hletter, -⟩
  · rw [hchars, List.getLast?_concat] at hlast
    cases hlast
  · refine hlasting.point letter (by simpa using hletter)
      ⟨signChars negative ++ whole, sign ++ digits, ?_⟩
    rw [hchars, List.append_assoc]
    rfl

/-- Behind a point come digits, so no exponent. -/
theorem not_isInfix_of_hasParts (hnumber : IsSignedNumber tag.toList negative number)
    (hparts : HasParts number whole point exponent) (hpoint : point ≠ ['.']) :
    ∀ letter ∈ ['e', 'E'], ¬ ['.', letter] <:+: tag.toList := by
  rintro letter hletter ⟨front, back, hsplit⟩
  have hsplit : front ++ '.' :: (letter :: back) = tag.toList := by simpa using hsplit
  have hfront : '.' ∉ signChars negative ++ whole := by
    have hnone := Number.notMem_of_digits hparts.whole (show '.'.isDigit = false from rfl)
    cases negative <;> simp [signChars, hnone]
  have hexponent := hparts.exponent.point_notMem
  rw [hnumber.eq, hparts.eq, ← List.append_assoc] at hsplit
  rcases hparts.point with rfl | ⟨fraction, rfl, hdigits⟩
  · have hmem : '.' ∈ signChars negative ++ whole ++ ([] ++ exponent) := by
      rw [← hsplit]
      simp
    rcases List.mem_append.mp hmem with hmem | hmem
    · exact hfront hmem
    · exact hexponent hmem
  · have hbehind : '.' ∉ fraction ++ exponent := by
      have hnone := Number.notMem_of_digits hdigits (show '.'.isDigit = false from rfl)
      simp [hnone, hexponent]
    obtain ⟨-, -, hsame⟩ := (List.append_cons_inj_of_notMem hfront hbehind).mp hsplit.symm
    obtain ⟨d, later, rfl⟩ :=
      List.exists_cons_of_ne_nil (show fraction ≠ [] from fun hnil => hpoint (by rw [hnil]))
    have hd : letter.isDigit = true :=
      (List.cons.inj hsame).1 ▸ hdigits d List.mem_cons_self
    simp only [List.mem_cons, List.not_mem_nil, or_false] at hletter
    rcases hletter with rfl | rfl <;> cases hd

/-- A tag is written as it is read exactly if it lasts. -/
theorem numberText?_rawLiteralOf_eq_iff (h : (RawKind.ofTag? tag).isSome = true) :
    numberText? (rawLiteralOf tag) = some tag ↔ IsLasting tag := by
  obtain ⟨negative, number, hnumber⟩ := exists_isSignedNumber_of_ofTag? h
  obtain ⟨hfinite, hlast⟩ := finite_of_ofTag? h
  obtain ⟨hunsigned, whole, point, exponent, hparts⟩ := exists_parts_of_finite hnumber hfinite
  -- only a point without digits behind it ends a number before the tag does
  by_cases hpoint : point = ['.']
  · subst hpoint
    exact iff_of_false (numberText?_ne_of_barePoint hnumber hparts)
      (not_isLasting_of_barePoint hnumber hparts hlast)
  have hlasting : IsLasting tag ↔
      ((Number.readInt64? 10 number).isSome = true → RawKind.isIntTag tag = true) := by
    constructor
    · intro hlasting
      simpa [hnumber.splitMinus_eq] using hlasting.plain
    · intro hplain
      exact ⟨not_isInfix_of_hasParts hnumber hparts hpoint, by rwa [hnumber.splitMinus_eq]⟩
  rw [hlasting, numberText?_rawLiteralOf hnumber, leadingNumber_of_hasParts hparts hpoint,
    unsignedNumber?_of_isNumberText negative hnumber.chars]
  cases hread : Number.readInt64? 10 number with
  | none =>
    obtain ⟨x, hx⟩ := Option.isSome_iff_exists.mp hunsigned
    have hsame : String.ofList (signChars negative ++ number) = tag := by
      rw [← hnumber.eq, String.ofList_toList]
    simp [hx, hsame]
  | some n =>
    have hint : RawKind.isIntTag tag =
        (Number.decimal (if negative then negateInt64 n else n) == tag) := by
      rw [RawKind.isIntTag, hnumber.eq, readInt64?_signed hnumber.digit hread]
    simp [hint, Number.decimal]

end

end Generation

end WireSchema
