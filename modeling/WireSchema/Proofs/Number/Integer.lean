import Mathlib.Data.Nat.Digits.Lemmas
import WireSchema.Number.Decimal

/-!
# Integers read back

Digits read as the number they write in their radix, and an integer in plain decimal reads
as itself.
-/

namespace WireSchema.Number

/-! ## Digits -/

theorem digitValue?_of_isDigit {c : Char} (h : c.isDigit = true) :
    digitValue? 10 c = some (c.toNat - '0'.toNat) := by
  have hbounds : '0'.toNat ≤ c.toNat ∧ c.toNat ≤ '9'.toNat := by
    simpa [Char.isDigit, Char.le_def, UInt32.le_iff_toNat_le] using h
  have hlt : c.toNat - '0'.toNat < 10 := by
    have hzero : '0'.toNat = 48 := rfl
    have hnine : '9'.toNat = 57 := rfl
    omega
  rw [digitValue?, if_pos h]
  simp only [Option.filter_some, hlt, decide_true, if_true]

theorem continueNat?_of_digits {cs : List Char} (h : ∀ c ∈ cs, c.isDigit = true) (read : Nat) :
    continueNat? 10 read cs = some (Nat.ofDigitChars 10 cs read) := by
  induction cs generalizing read with
  | nil => rfl
  | cons c rest ih =>
    rw [List.forall_mem_cons] at h
    rw [continueNat?, digitValue?_of_isDigit h.1, Nat.ofDigitChars_cons, Nat.mul_comm 10 read]
    exact ih h.2 _

theorem readNat?_of_digits {cs : List Char} (hcs : cs ≠ []) (h : ∀ c ∈ cs, c.isDigit = true) :
    readNat? 10 cs = some (Nat.ofDigitChars 10 cs 0) := by
  rw [readNat?, if_neg (by simpa using hcs), continueNat?_of_digits h]

theorem isDigit_of_mem_natDigits {n : Nat} {c : Char} (h : c ∈ natDigits n) : c.isDigit = true :=
  Nat.isDigit_of_mem_toDigits (by decide) (by decide) h

theorem natDigits_ne_nil (n : Nat) : natDigits n ≠ [] :=
  Nat.toDigits_ne_nil

theorem readNat?_natDigits (n : Nat) : readNat? 10 (natDigits n) = some n := by
  rw [readNat?_of_digits (natDigits_ne_nil n) fun _ => isDigit_of_mem_natDigits, natDigits,
    Nat.ofDigitChars_ten_toDigits]

/-! ## Integers -/

/-- A text that starts with neither sign is read as a natural number. -/
theorem readInt?_of_unsigned {radix : Nat} {cs : List Char} (hplus : cs.head? ≠ some '+')
    (hminus : cs.head? ≠ some '-') : readInt? radix cs = (readNat? radix cs).map Int.ofNat := by
  unfold readInt?
  split
  · exact absurd rfl hplus
  · exact absurd rfl hminus
  · rfl

theorem readInt?_of_digits {cs : List Char} (hcs : cs ≠ []) (h : ∀ c ∈ cs, c.isDigit = true) :
    readInt? 10 cs = some (Int.ofNat (Nat.ofDigitChars 10 cs 0)) := by
  have hunsigned : ∀ sign, sign.isDigit = false → cs.head? ≠ some sign := fun sign hsign heq => by
    have hdigit := h sign (List.mem_of_mem_head? heq)
    rw [hsign] at hdigit
    cases hdigit
  rw [readInt?_of_unsigned (hunsigned '+' rfl) (hunsigned '-' rfl), readNat?_of_digits hcs h]
  rfl

theorem readInt?_natDigits (n : Nat) : readInt? 10 (natDigits n) = some (Int.ofNat n) := by
  rw [readInt?_of_digits (natDigits_ne_nil n) fun _ => isDigit_of_mem_natDigits, natDigits,
    Nat.ofDigitChars_ten_toDigits]

theorem readInt?_decimalChars (n : Int) : readInt? 10 (decimalChars n) = some n := by
  cases n with
  | ofNat n => exact readInt?_natDigits n
  | negSucc n =>
    rw [decimalChars, readInt?, readNat?_natDigits]
    rfl

theorem readInt64?_decimalChars {n : Int} (h : isInt64 n = true) :
    readInt64? 10 (decimalChars n) = some n := by
  rw [readInt64?, readInt?_decimalChars, Option.filter_some, if_pos h]

theorem isInt64_of_readInt64? {radix : Nat} {cs : List Char} {n : Int}
    (h : readInt64? radix cs = some n) : isInt64 n = true :=
  (Option.filter_eq_some_iff.mp h).2

theorem isInt64_iff {n : Int} : isInt64 n = true ↔ int64Min ≤ n ∧ n ≤ int64Max := by
  simp [isInt64]

theorem isInt64_clampInt64 (n : Int) : isInt64 (clampInt64 n) = true := by
  unfold clampInt64
  split
  · rfl
  · split
    · rfl
    · exact isInt64_iff.mpr ⟨by omega, by omega⟩

theorem isInt64_nextInt64 {n : Int} (h : isInt64 n = true) : isInt64 (nextInt64 n) = true := by
  obtain ⟨hlow, hhigh⟩ := isInt64_iff.mp h
  unfold nextInt64
  split
  · rfl
  · exact isInt64_iff.mpr ⟨by omega, by omega⟩

/-- Integers with the same decimal form are the same. -/
theorem decimal_injective : Function.Injective decimal := by
  intro m n h
  have hchars : decimalChars m = decimalChars n := by simpa [decimal] using congrArg String.toList h
  exact Option.some.inj ((readInt?_decimalChars m).symm.trans
    ((congrArg (readInt? 10) hchars).trans (readInt?_decimalChars n)))

end WireSchema.Number
