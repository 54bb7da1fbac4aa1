import Mathlib.Algebra.Order.Field.Power
import Mathlib.Data.Rat.Cast.Order
import Mathlib.Tactic.FieldSimp
import WireSchema.Proofs.Number.NearestDouble

/-!
# Decimals that denote the same number

A decimal is reduced if no zero is at the end of its coefficient, and zero has one reduced
form. Every decimal has the reduced form of its number, so two of them denote the same number
exactly if they have the same one; and then the same double is nearest to them.
-/

namespace WireSchema.Number

namespace Decimal

def signed (d : Decimal) : Int :=
  if d.negative then -d.coefficient else d.coefficient

def value (d : Decimal) : ℚ :=
  d.signed * 10 ^ d.exponent

/-- The same number without zeros at the end of the coefficient. -/
def reduced (d : Decimal) : Decimal :=
  if d.coefficient = 0 then ⟨false, 0, 0⟩
  else if 10 ∣ d.coefficient then reduced ⟨d.negative, d.coefficient / 10, d.exponent + 1⟩
  else d
termination_by d.coefficient
decreasing_by exact Nat.div_lt_self (Nat.pos_of_ne_zero ‹_›) (by decide)

/-- No zero is at the end of the coefficient; zero is written in one way. -/
structure IsReduced (d : Decimal) : Prop where
  ofDvd : 10 ∣ d.coefficient → d.coefficient = 0
  ofZero : d.coefficient = 0 → d = ⟨false, 0, 0⟩

theorem isReduced_reduced (d : Decimal) : d.reduced.IsReduced := by
  fun_induction reduced d with
  | case1 d hzero => exact ⟨fun _ => rfl, fun _ => rfl⟩
  | case2 d hne hdvd ih => exact ih
  | case3 d hne hdvd => exact ⟨fun h => absurd h hdvd, fun h => absurd h hne⟩

theorem signed_eq_zero_iff {d : Decimal} : d.signed = 0 ↔ d.coefficient = 0 := by
  unfold signed
  split <;> omega

/-- Dropping a zero and counting it in the exponent gives the same number. -/
theorem value_of_dvd {d : Decimal} (hdvd : 10 ∣ d.coefficient) :
    value ⟨d.negative, d.coefficient / 10, d.exponent + 1⟩ = d.value := by
  obtain ⟨k, hk⟩ := hdvd
  have hsigned : d.signed = 10 * signed ⟨d.negative, d.coefficient / 10, d.exponent + 1⟩ := by
    unfold signed
    dsimp only
    split <;> omega
  rw [value, value, hsigned, zpow_add_one₀ (by norm_num)]
  push_cast
  ring

theorem value_reduced (d : Decimal) : d.reduced.value = d.value := by
  fun_induction reduced d with
  | case1 d hzero => rw [value, value, signed_eq_zero_iff.mpr hzero]; simp [signed]
  | case2 d hne hdvd ih => rw [ih, value_of_dvd hdvd]
  | case3 d hne hdvd => rfl

/-- With the lower exponent a number has the greater coefficient, which then ends in a zero. -/
theorem signed_eq_of_value_eq {a b : Decimal} (h : a.value = b.value)
    (hexponent : a.exponent ≤ b.exponent) :
    a.signed = b.signed * 10 ^ (b.exponent - a.exponent).toNat := by
  obtain ⟨k, hk⟩ := Int.le.dest hexponent
  have hpow : (10 : ℚ) ^ b.exponent = 10 ^ a.exponent * 10 ^ k := by
    rw [← hk, zpow_add₀ (by norm_num), zpow_natCast]
  have hpos : (10 : ℚ) ^ a.exponent ≠ 0 := zpow_ne_zero _ (by norm_num)
  have hdiff : (b.exponent - a.exponent).toNat = k := by omega
  have hcast : (a.signed : ℚ) = b.signed * 10 ^ k := by
    rw [value, value, hpow] at h
    refine mul_right_cancel₀ hpos ?_
    rw [h]
    ring
  rw [hdiff]
  exact_mod_cast hcast

theorem ten_dvd_signed {d : Decimal} (h : (10 : Int) ∣ d.signed) : 10 ∣ d.coefficient := by
  unfold signed at h
  split at h <;> omega

theorem IsReduced.exponent_le {a b : Decimal} (ha : a.IsReduced) (hne : a.coefficient ≠ 0)
    (h : a.value = b.value) : b.exponent ≤ a.exponent := by
  by_contra hlt
  have hsigned := signed_eq_of_value_eq h (by omega)
  have hpow : (10 : Int) ∣ 10 ^ (b.exponent - a.exponent).toNat :=
    dvd_pow_self 10 (by omega)
  exact hne (ha.ofDvd (ten_dvd_signed (hsigned ▸ hpow.mul_left b.signed)))

/-- A number has one reduced form. -/
theorem IsReduced.eq_of_value_eq {a b : Decimal} (ha : a.IsReduced) (hb : b.IsReduced)
    (h : a.value = b.value) : a = b := by
  have hzero : a.coefficient = 0 ↔ b.coefficient = 0 := by
    have hpow : ∀ d : Decimal, d.value = 0 ↔ d.coefficient = 0 := by
      intro d
      rw [value, mul_eq_zero, or_iff_left (zpow_ne_zero _ (by norm_num)), Int.cast_eq_zero,
        signed_eq_zero_iff]
    rw [← hpow, ← hpow, h]
  by_cases hcoefficient : a.coefficient = 0
  · rw [ha.ofZero hcoefficient, hb.ofZero (hzero.mp hcoefficient)]
  · have hexponent : a.exponent = b.exponent :=
      le_antisymm (hb.exponent_le (fun hb => hcoefficient (hzero.mpr hb)) h.symm)
        (ha.exponent_le hcoefficient h)
    have hsigned := signed_eq_of_value_eq h hexponent.le
    rw [hexponent, Int.sub_self, Int.toNat_zero, pow_zero, mul_one] at hsigned
    obtain ⟨negative, coefficient, exponent⟩ := a
    obtain ⟨negative', coefficient', exponent'⟩ := b
    cases negative <;> cases negative' <;> simp_all [signed]

/-- Two decimals denote the same number exactly if they have the same reduced form. -/
theorem value_eq_iff {a b : Decimal} : a.value = b.value ↔ a.reduced = b.reduced := by
  constructor
  · intro h
    refine (isReduced_reduced a).eq_of_value_eq (isReduced_reduced b) ?_
    rw [value_reduced, value_reduced, h]
  · intro h
    rw [← value_reduced a, h, value_reduced]

end Decimal

/-! ## The nearest double -/

/-- Rounding depends on the quotient alone. -/
theorem roundUnits_congr {num den num' den' : Nat} (hden : 0 < den) (hden' : 0 < den')
    (h : num * den' = num' * den) : roundUnits num den = roundUnits num' den' := by
  have hwhole : num / den = num' / den' := by
    rw [← Nat.mul_div_mul_right num den hden', h, Nat.mul_comm den den',
      Nat.mul_div_mul_right num' den' hden]
  unfold roundUnits
  dsimp only
  rw [hwhole]
  generalize Nat.pow 2 ((num' / den').log2 - 52) = step
  have hround : divRoundEven num (den * step) = divRoundEven num' (den' * step) :=
    calc divRoundEven num (den * step)
        = divRoundEven (num * den') (den * step * den') := (divRoundEven_mul_mul _ _ hden').symm
      _ = divRoundEven (num' * den) (den' * step * den) := by rw [h]; congr 1; ring
      _ = divRoundEven num' (den' * step) := divRoundEven_mul_mul _ _ hden
  rw [hround]

theorem length_natDigits_mul_ten {n : Nat} (hn : n ≠ 0) :
    (natDigits (10 * n)).length = (natDigits n).length + 1 := by
  have hdigits := Nat.toDigits_append_toDigits (by decide : 1 < 10) (Nat.pos_of_ne_zero hn)
    (by decide : 0 < 10)
  rw [Nat.add_zero] at hdigits
  rw [natDigits, ← hdigits, List.length_append]
  rfl

namespace Decimal

/-- A zero at the end of the coefficient makes no difference to the nearest double. -/
theorem toBinary64_of_dvd {d : Decimal} (hne : d.coefficient ≠ 0) (hdvd : 10 ∣ d.coefficient) :
    toBinary64 ⟨d.negative, d.coefficient / 10, d.exponent + 1⟩ = d.toBinary64 := by
  obtain ⟨negative, coefficient, exponent⟩ := d
  obtain ⟨n, rfl⟩ : ∃ n, coefficient = 10 * n := hdvd
  have hn : n ≠ 0 := by
    rintro rfl
    exact hne rfl
  have hquotient : 10 * n / 10 = n := by omega
  have hround : roundUnits (n * Nat.pow 10 (exponent + 1).toNat * Nat.pow 2 unitExponent)
      (Nat.pow 10 (-(exponent + 1)).toNat) =
      roundUnits (10 * n * Nat.pow 10 exponent.toNat * Nat.pow 2 unitExponent)
        (Nat.pow 10 (-exponent).toNat) := by
    refine roundUnits_congr (Nat.pow_pos (by decide)) (Nat.pow_pos (by decide)) ?_
    have hpowers : 10 ^ (exponent + 1).toNat * 10 ^ (-exponent).toNat =
        10 * 10 ^ exponent.toNat * 10 ^ (-(exponent + 1)).toNat := by
      rw [← pow_add, mul_assoc, ← pow_add, ← pow_succ']
      congr 1
      omega
    generalize Nat.pow 2 unitExponent = unit
    simp only [Nat.pow_eq]
    calc n * 10 ^ (exponent + 1).toNat * unit * 10 ^ (-exponent).toNat
        = n * unit * (10 ^ (exponent + 1).toNat * 10 ^ (-exponent).toNat) := by ring
      _ = 10 * n * 10 ^ exponent.toNat * unit * 10 ^ (-(exponent + 1)).toNat := by
        rw [hpowers]
        ring
  have hdigits : ((natDigits n).length : Int) + (exponent + 1) =
      ((natDigits (10 * n)).length : Int) + exponent := by
    rw [length_natDigits_mul_ten hn]
    push_cast
    ring
  unfold toBinary64
  dsimp only at hdigits ⊢
  rw [hquotient, if_neg hn, if_neg hne, hround, hdigits]

/-- Decimals of one number are rounded to one double, up to the sign of zero. -/
theorem units?_reduced (d : Decimal) : d.reduced.toBinary64.units? = d.toBinary64.units? := by
  fun_induction reduced d with
  | case1 d hzero =>
    unfold toBinary64
    dsimp only
    rw [if_pos rfl, if_pos hzero]
    cases d.negative <;> rfl
  | case2 d hne hdvd ih => rw [ih, toBinary64_of_dvd hne hdvd]
  | case3 d hne hdvd => rfl

theorem units?_eq_of_value_eq {a b : Decimal} (h : a.value = b.value) :
    a.toBinary64.units? = b.toBinary64.units? := by
  rw [← units?_reduced a, value_eq_iff.mp h, units?_reduced]

end Decimal

end WireSchema.Number
