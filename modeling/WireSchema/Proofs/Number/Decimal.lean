import Mathlib.Data.List.TakeWhile
import WireSchema.Proofs.Number.NearestDouble

/-!
# Decimal literals read back

A literal that is digits alone denotes a whole number, and one that starts with a digit falls
into digits, a point with more of them, and an exponent. An integer in plain decimal is read
as the double nearest to it.
-/

namespace WireSchema.Number

/-! ## The parts of a literal -/

/-- The end of a literal from its point on: nothing, or the point and digits. -/
def IsPoint (cs : List Char) : Prop :=
  cs = [] ∨ ∃ fraction, cs = '.' :: fraction ∧ ∀ c ∈ fraction, c.isDigit = true

/-- The exponent of a literal: nothing, or its letter, perhaps a sign, and digits. -/
def IsExponent (cs : List Char) : Prop :=
  cs = [] ∨ ∃ letter sign digits, cs = letter :: (sign ++ digits) ∧
    (letter = 'e' ∨ letter = 'E') ∧ (sign = [] ∨ sign = ['+'] ∨ sign = ['-']) ∧ digits ≠ [] ∧
      ∀ c ∈ digits, c.isDigit = true

/-- The parts of a literal that starts with a digit. -/
structure HasParts (cs whole point exponent : List Char) : Prop where
  eq : cs = whole ++ (point ++ exponent)
  nonempty : whole ≠ []
  whole : ∀ c ∈ whole, c.isDigit = true
  point : IsPoint point
  exponent : IsExponent exponent

theorem isDigit_of_digitValue? {c : Char} {value : Nat} (h : digitValue? 10 c = some value) :
    c.isDigit = true := by
  unfold digitValue? at h
  obtain ⟨hvalue, hlt⟩ := Option.filter_eq_some_iff.mp h
  simp only [decide_eq_true_eq] at hlt
  split at hvalue
  · assumption
  · split at hvalue
    · cases hvalue
      omega
    · split at hvalue
      · cases hvalue
        omega
      · cases hvalue

theorem digits_of_continueNat? {cs : List Char} {read n : Nat}
    (h : continueNat? 10 read cs = some n) : ∀ c ∈ cs, c.isDigit = true := by
  induction cs generalizing read with
  | nil => simp
  | cons c rest ih =>
    rw [continueNat?] at h
    split at h
    · next value hvalue => exact List.forall_mem_cons.mpr ⟨isDigit_of_digitValue? hvalue, ih h⟩
    · cases h

theorem digits_of_readNat? {cs : List Char} {n : Nat} (h : readNat? 10 cs = some n) :
    cs ≠ [] ∧ ∀ c ∈ cs, c.isDigit = true := by
  unfold readNat? at h
  split at h
  · cases h
  · next hcs => exact ⟨by simpa using hcs, digits_of_continueNat? h⟩

theorem isExponent_of_readExponent? {cs : List Char} {exponent : Int}
    (h : readExponent? cs = some exponent) : IsExponent cs := by
  cases cs with
  | nil => exact .inl rfl
  | cons letter rest =>
    unfold readExponent? at h
    simp only [Bool.or_eq_true, beq_iff_eq, Option.ite_none_right_eq_some] at h
    obtain ⟨hletter, hrest⟩ := h
    unfold readInt? at hrest
    split at hrest
    · next digits =>
      obtain ⟨n, hn, -⟩ := Option.map_eq_some_iff.mp hrest
      obtain ⟨hne, hdigits⟩ := digits_of_readNat? hn
      exact .inr ⟨letter, ['+'], digits, rfl, hletter, by simp, hne, hdigits⟩
    · next digits =>
      obtain ⟨n, hn, -⟩ := Option.map_eq_some_iff.mp hrest
      obtain ⟨hne, hdigits⟩ := digits_of_readNat? hn
      exact .inr ⟨letter, ['-'], digits, rfl, hletter, by simp, hne, hdigits⟩
    · obtain ⟨n, hn, -⟩ := Option.map_eq_some_iff.mp hrest
      obtain ⟨hne, hdigits⟩ := digits_of_readNat? hn
      exact .inr ⟨letter, [], rest, rfl, hletter, by simp, hne, hdigits⟩

theorem splitSign_of_isDigit {c : Char} (hc : c.isDigit = true) (rest : List Char) :
    splitSign (c :: rest) = (false, c :: rest) := by
  unfold splitSign
  split
  · next heq => cases heq; cases hc
  · next heq => cases heq; cases hc
  · rfl

/-- A literal that starts with a digit has parts. -/
theorem exists_hasParts {c : Char} {cs : List Char} {d : Decimal} (hc : c.isDigit = true)
    (h : Decimal.read? (c :: cs) = some d) :
    ∃ whole point exponent, HasParts (c :: cs) whole point exponent := by
  unfold Decimal.read? at h
  rw [splitSign_of_isDigit hc] at h
  dsimp only at h
  have hsplit : (c :: cs).takeWhile Char.isDigit ++ (c :: cs).dropWhile Char.isDigit = c :: cs :=
    List.takeWhile_append_dropWhile
  have hdigits : ∀ x ∈ (c :: cs).takeWhile Char.isDigit, x.isDigit = true :=
    fun x hx => List.mem_takeWhile_imp hx
  have hnonempty : (c :: cs).takeWhile Char.isDigit ≠ [] := by simp [hc]
  generalize (c :: cs).takeWhile Char.isDigit = whole at *
  generalize (c :: cs).dropWhile Char.isDigit = later at *
  split at h
  · next hexponent =>
    have hexp := isExponent_of_readExponent? hexponent
    unfold splitFraction at hexp
    split at hexp
    · rename_i rest _
      refine ⟨whole, '.' :: rest.takeWhile Char.isDigit, rest.dropWhile Char.isDigit, ?_,
        hnonempty, hdigits, .inr ⟨_, rfl, fun x hx => List.mem_takeWhile_imp hx⟩, hexp⟩
      rw [List.cons_append, List.takeWhile_append_dropWhile, hsplit]
    · exact ⟨whole, [], later, by rw [List.nil_append, hsplit], hnonempty, hdigits, .inl rfl, hexp⟩
  · cases h

theorem notMem_of_digits {cs : List Char} (h : ∀ c ∈ cs, c.isDigit = true) {c : Char}
    (hc : c.isDigit = false) : c ∉ cs := by
  intro hmem
  rw [h c hmem] at hc
  cases hc

/-- There is no point in an exponent. -/
theorem IsExponent.point_notMem {cs : List Char} (h : IsExponent cs) : '.' ∉ cs := by
  rcases h with rfl | ⟨letter, sign, digits, rfl, hletter, hsign, -, hdigits⟩
  · exact List.not_mem_nil
  · have hpoint := notMem_of_digits hdigits (show '.'.isDigit = false from rfl)
    rcases hletter with rfl | rfl <;> rcases hsign with rfl | rfl | rfl <;> simp [hpoint]

theorem point_notMem_decimalChars (n : Int) : '.' ∉ decimalChars n := by
  have hdigits (m : Nat) : '.' ∉ natDigits m :=
    notMem_of_digits (fun _ => isDigit_of_mem_natDigits) rfl
  cases n with
  | ofNat n => exact hdigits n
  | negSucc n => simp [decimalChars, hdigits]

/-! ## Integers -/

theorem Decimal.read?_of_digits {cs : List Char} (hcs : cs ≠ [])
    (h : ∀ c ∈ cs, c.isDigit = true) :
    Decimal.read? cs = some ⟨false, Nat.ofDigitChars 10 cs 0, 0⟩ := by
  obtain ⟨c, rest, rfl⟩ := List.exists_cons_of_ne_nil hcs
  have htake : (c :: rest).takeWhile Char.isDigit = c :: rest := List.takeWhile_eq_self_iff.mpr h
  have hdrop : (c :: rest).dropWhile Char.isDigit = [] := List.dropWhile_eq_nil_iff.mpr h
  unfold Decimal.read?
  rw [splitSign_of_isDigit (h c List.mem_cons_self)]
  simp only [htake, hdrop, splitFraction, List.append_nil, readNat?_of_digits hcs h]
  rfl

/-- The number with a minus sign in front. -/
theorem Decimal.read?_minus {c : Char} (hc : c.isDigit = true) (cs : List Char) :
    Decimal.read? ('-' :: c :: cs) =
      (Decimal.read? (c :: cs)).map fun d => { d with negative := true } := by
  unfold Decimal.read?
  rw [splitSign_of_isDigit hc, splitSign]
  dsimp only
  split <;> rfl

theorem isFinite_toBinary64_negative (d : Decimal) :
    (Decimal.toBinary64 { d with negative := true }).isFinite = (Decimal.toBinary64 d).isFinite := by
  have hfinite (negative : Bool) (units : Nat) : (Binary64.finite negative units).isFinite = true :=
    rfl
  have hinfinite (negative : Bool) : (Binary64.infinite negative).isFinite = false := rfl
  unfold Decimal.toBinary64
  simp only [apply_ite Binary64.isFinite, hfinite, hinfinite]

/-- A number is as finite as its opposite. -/
theorem isSome_readFinite?_minus {c : Char} (hc : c.isDigit = true) (cs : List Char) :
    (readFinite? ('-' :: c :: cs)).isSome = (readFinite? (c :: cs)).isSome := by
  rw [readFinite?, readFinite?, Decimal.read?_minus hc]
  cases Decimal.read? (c :: cs) with
  | none => rfl
  | some d =>
    have hsame := isFinite_toBinary64_negative d
    simp only [Option.map_some, Option.filter_some, hsame]
    split
    · rw [Option.isSome_some, Option.isSome_some]
    · rw [Option.isSome_none]

theorem Decimal.read?_decimalChars (n : Int) :
    Decimal.read? (decimalChars n) = some ⟨decide (n < 0), n.natAbs, 0⟩ := by
  have hdigits (m : Nat) : Decimal.read? (natDigits m) = some ⟨false, m, 0⟩ := by
    rw [Decimal.read?_of_digits (natDigits_ne_nil m) fun _ => isDigit_of_mem_natDigits, natDigits,
      Nat.ofDigitChars_ten_toDigits]
  cases n with
  | ofNat n => exact hdigits n
  | negSucc n =>
    obtain ⟨c, rest, hchars⟩ := List.exists_cons_of_ne_nil (natDigits_ne_nil (n + 1))
    have hc : c.isDigit = true :=
      isDigit_of_mem_natDigits (n := n + 1) (hchars ▸ List.mem_cons_self)
    rw [decimalChars, hchars, Decimal.read?_minus hc, ← hchars, hdigits, Option.map_some,
      decide_eq_true (Int.negSucc_lt_zero n)]
    rfl

/-- Whole numbers of 64 bits are far below the greatest double. -/
theorem mul_lt_overflowUnits {n : Nat} (h : n ≤ 2 ^ 63) :
    n * 2 ^ unitExponent < overflowUnits := by
  -- the exponents stay variables, so that no power of that size is worked out
  have hless (high low : Nat) (hhigh : 63 < high) : n * 2 ^ low < Nat.pow 2 (high + low) := by
    rw [Nat.pow_eq, Nat.pow_add]
    exact Nat.mul_lt_mul_of_pos_right (h.trans_lt (Nat.pow_lt_pow_right (by decide) hhigh))
      (Nat.two_pow_pos low)
  unfold overflowUnits
  exact hless 1024 unitExponent (by decide)

/-- A whole number of 64 bits is rounded to 53 of them. -/
theorem Decimal.toBinary64_whole (negative : Bool) {n : Nat} (h : n ≤ 2 ^ 63) :
    Decimal.toBinary64 ⟨negative, n, 0⟩ =
      .finite negative (roundUnits n 1 * 2 ^ unitExponent) := by
  by_cases hn : n = 0
  · rw [hn, roundUnits_one_of_lt (by decide), Nat.zero_mul]
    rfl
  have hlength : (natDigits n).length ≤ 20 :=
    (Nat.length_toDigits_le_iff (by decide) (by decide)).mpr (by omega)
  have hround : roundUnits n 1 ≤ 2 ^ 63 := by
    have hmono := nearestDouble_le (show (n : Int) ≤ 2 ^ 63 by exact_mod_cast h)
    have hpower : nearestDouble (2 ^ 63) = 2 ^ 63 :=
      nearestDouble_of_fits ⟨1, 63, by decide, by decide⟩
    have hself := natAbs_nearestDouble n
    simp only [Int.natAbs_natCast] at hself
    have hnonneg : 0 ≤ nearestDouble n := by
      unfold nearestDouble
      rw [if_neg (by omega)]
      exact Int.natCast_nonneg _
    omega
  have hfinite := mul_lt_overflowUnits hround
  have hscaled : roundUnits (n * 2 ^ unitExponent) 1 = roundUnits n 1 * 2 ^ unitExponent :=
    roundUnits_mul_two_pow (by decide)
  unfold Decimal.toBinary64
  dsimp only
  rw [if_neg hn, if_neg (by omega), if_neg (by omega)]
  simp only [Int.toNat_zero, neg_zero, Nat.pow_eq, Nat.pow_zero, Nat.mul_one, hscaled,
    if_pos hfinite]

/-- An integer in plain decimal is read as the double nearest to it. -/
theorem readFinite?_decimalChars {n : Int} (h : isInt64 n = true) :
    readFinite? (decimalChars n) =
      some (.finite (decide (n < 0)) (roundUnits n.natAbs 1 * 2 ^ unitExponent)) := by
  obtain ⟨hlow, hhigh⟩ := isInt64_iff.mp h
  have hsize : n.natAbs ≤ 2 ^ 63 := by
    unfold int64Min at hlow
    unfold int64Max at hhigh
    omega
  rw [readFinite?, Decimal.read?_decimalChars, Option.map_some,
    Decimal.toBinary64_whole _ hsize]
  rfl

end WireSchema.Number
