import Mathlib.Data.Nat.Dist
import Mathlib.Tactic.Positivity
import Mathlib.Tactic.Ring
import WireSchema.Number.Binary64
import WireSchema.Proofs.Number.Integer

/-!
# The double nearest to an integer

A double has 53 significant bits, so it holds an integer of more bits only if the last ones
are zero. Every other integer is rounded to the nearest one that a double holds, a tie to
the even neighbour. Rounding keeps the order of integers but may bring different ones
together.
-/

namespace WireSchema.Number

/-! ## Rounded quotients -/

/-- The rounded quotient gives the multiple of `den` that is nearest to `num`; if another
one is as near, both are half of `den` away, and the quotient is even. -/
theorem dist_divRoundEven (num : Nat) {den : Nat} (hden : 0 < den) {k : Nat}
    (hk : k ≠ divRoundEven num den) :
    Nat.dist num (divRoundEven num den * den) < Nat.dist num (k * den) ∨
      Nat.dist num (divRoundEven num den * den) = Nat.dist num (k * den) ∧
        2 * Nat.dist num (divRoundEven num den * den) = den ∧ 2 ∣ divRoundEven num den := by
  have hnum : num = num / den * den + num % den := (Nat.div_add_mod' num den).symm
  have hrem : num % den < den := Nat.mod_lt _ hden
  generalize hq : num / den = q at hnum
  generalize hr : num % den = r at hnum hrem
  have hsucc : (q + 1) * den = q * den + den := Nat.succ_mul q den
  have hmultiple : k < q ∧ k * den + den ≤ q * den ∨ k = q ∧ k * den = q * den ∨
      k = q + 1 ∧ k * den = q * den + den ∨ q + 1 < k ∧ q * den + den + den ≤ k * den := by
    rcases Nat.lt_trichotomy k q with hlt | rfl | hgt
    · exact .inl ⟨hlt, Nat.succ_mul k den ▸ Nat.mul_le_mul_right den hlt⟩
    · exact .inr (.inl ⟨rfl, rfl⟩)
    · rcases (Nat.succ_le_of_lt hgt).eq_or_lt with rfl | hlt
      · exact .inr (.inr (.inl ⟨rfl, hsucc⟩))
      · refine .inr (.inr (.inr ⟨hlt, ?_⟩))
        rw [← hsucc, ← Nat.succ_mul]
        exact Nat.mul_le_mul_right den hlt
  have hrounded : 2 * r < den ∧ divRoundEven num den = q ∨
      den < 2 * r ∧ divRoundEven num den = q + 1 ∨
      2 * r = den ∧ divRoundEven num den = q + q % 2 := by
    unfold divRoundEven
    simp only [hq, hr]
    split_ifs <;> omega
  unfold Nat.dist
  obtain ⟨hlow, heq⟩ | ⟨hhigh, heq⟩ | ⟨htie, heq⟩ := hrounded
  · rw [heq] at hk ⊢
    omega
  · rw [heq] at hk ⊢
    omega
  · -- both neighbours are equally near, and the even one was taken
    rcases Nat.mod_two_eq_zero_or_one q with heven | hodd
    · rw [heven, Nat.add_zero] at heq
      rw [heq] at hk ⊢
      omega
    · rw [hodd] at heq
      rw [heq] at hk ⊢
      omega

theorem divRoundEven_mul (k : Nat) {den : Nat} (hden : 0 < den) :
    divRoundEven (k * den) den = k := by
  unfold divRoundEven
  simp only [Nat.mul_div_cancel k hden, Nat.mul_mod_left, Nat.mul_zero, if_pos hden]

theorem divRoundEven_mul_mul (num den : Nat) {scale : Nat} (hscale : 0 < scale) :
    divRoundEven (num * scale) (den * scale) = divRoundEven num den := by
  have hmod : num * scale % (den * scale) = num % den * scale := Nat.mul_mod_mul_right ..
  have htwice : 2 * (num % den * scale) = 2 * (num % den) * scale := (Nat.mul_assoc ..).symm
  unfold divRoundEven
  simp only [Nat.mul_div_mul_right num den hscale, hmod, htwice,
    Nat.mul_lt_mul_right hscale]

/-! ## Whole numbers -/

/-- Can a double hold the whole number, that is, are 53 bits of it enough? -/
def FitsDouble (n : Nat) : Prop :=
  ∃ significand shift, significand < 2 ^ 53 ∧ n = significand * 2 ^ shift

theorem fitsDouble_of_lt {n : Nat} (h : n < 2 ^ 53) : FitsDouble n :=
  ⟨n, 0, h, by simp⟩

/-- A whole number of more than 53 bits is rounded to a multiple of `2 ^ shift`. -/
theorem roundUnits_one_of_lt_log2 {n shift : Nat} (h : n.log2 = 52 + shift) :
    roundUnits n 1 = divRoundEven n (2 ^ shift) * 2 ^ shift := by
  have hshift : n.log2 - 52 = shift := by omega
  simp only [roundUnits, Nat.div_one, hshift, Nat.one_mul, Nat.pow_eq]

theorem roundUnits_one_of_lt {n : Nat} (h : n < 2 ^ 53) : roundUnits n 1 = n := by
  have hlog : n.log2 - 52 = 0 := by
    by_cases hn : n = 0
    · simp [hn]
    · have hlt := (Nat.log2_lt hn).mpr h
      omega
  have hexact := divRoundEven_mul n Nat.one_pos
  rw [Nat.mul_one] at hexact
  simp only [roundUnits, Nat.div_one, hlog, Nat.pow_eq, Nat.pow_zero, Nat.mul_one, hexact]

theorem le_log2_of_le {n : Nat} (h : 2 ^ 53 ≤ n) : ∃ shift, n.log2 = 52 + shift :=
  Nat.exists_eq_add_of_le ((Nat.le_log2 (by omega)).mpr (by omega))

/-- What a double holds is a multiple of `2 ^ shift` from `2 ^ (52 + shift)` on. -/
theorem dvd_of_fitsDouble {s shift : Nat} (hs : FitsDouble s) (hlow : 2 ^ (52 + shift) ≤ s) :
    2 ^ shift ∣ s := by
  obtain ⟨significand, e, hsignificand, rfl⟩ := hs
  have he : shift ≤ e := by
    by_contra hlt
    have hpow : 2 ^ 53 * 2 ^ e ≤ 2 ^ (52 + shift) := by
      rw [← Nat.pow_add]
      exact Nat.pow_le_pow_right (by decide) (by omega)
    have hsmall := Nat.mul_lt_mul_of_pos_right hsignificand (Nat.two_pow_pos e)
    omega
  exact Nat.dvd_trans (Nat.pow_dvd_pow 2 he) (Nat.dvd_mul_left ..)

theorem fitsDouble_roundUnits (n : Nat) : FitsDouble (roundUnits n 1) := by
  rcases Nat.lt_or_ge n (2 ^ 53) with hlt | hge
  · rw [roundUnits_one_of_lt hlt]
    exact fitsDouble_of_lt hlt
  · obtain ⟨shift, hlog⟩ := le_log2_of_le hge
    rw [roundUnits_one_of_lt_log2 hlog]
    have hquotient : n / 2 ^ shift < 2 ^ 53 := by
      rw [Nat.div_lt_iff_lt_mul (Nat.two_pow_pos shift), ← Nat.pow_add]
      have hself : n < 2 ^ (n.log2 + 1) := Nat.lt_log2_self
      rw [hlog] at hself
      exact lt_of_lt_of_eq hself (by congr 1; omega)
    have hle : divRoundEven n (2 ^ shift) ≤ n / 2 ^ shift + 1 := by
      simp only [divRoundEven]
      split_ifs <;> omega
    rcases Nat.lt_or_ge (divRoundEven n (2 ^ shift)) (2 ^ 53) with hfits | hcarry
    · exact ⟨_, shift, hfits, rfl⟩
    · -- the significand has become one bit longer
      have hpower : divRoundEven n (2 ^ shift) = 2 ^ 53 := by omega
      exact ⟨1, 53 + shift, by decide, by rw [hpower, Nat.pow_add, Nat.one_mul]⟩

/-- No other number that a double holds is nearer than the rounded one; if one is as near,
the rounded one has an even significand. -/
theorem dist_roundUnits (n : Nat) {s : Nat} (hs : FitsDouble s) (hne : s ≠ roundUnits n 1) :
    Nat.dist n (roundUnits n 1) < Nat.dist n s ∨
      Nat.dist n (roundUnits n 1) = Nat.dist n s ∧
        4 * Nat.dist n (roundUnits n 1) ∣ roundUnits n 1 := by
  rcases Nat.lt_or_ge n (2 ^ 53) with hlt | hge
  · rw [roundUnits_one_of_lt hlt] at hne ⊢
    unfold Nat.dist
    omega
  obtain ⟨shift, hlog⟩ := le_log2_of_le hge
  rw [roundUnits_one_of_lt_log2 hlog] at hne ⊢
  have hstep := Nat.two_pow_pos shift
  have hself : 2 ^ (52 + shift) ≤ n := hlog ▸ Nat.log2_self_le (by omega)
  rcases Nat.lt_or_ge s (2 ^ (52 + shift)) with hlow | hhigh
  · -- numbers below the greatest power of two in `n` are farther off than that power
    have hpower : 2 ^ 52 * 2 ^ shift = 2 ^ (52 + shift) := (Nat.pow_add ..).symm
    have hnear : Nat.dist n (divRoundEven n (2 ^ shift) * 2 ^ shift) ≤
        Nat.dist n (2 ^ (52 + shift)) := by
      by_cases hk : 2 ^ 52 = divRoundEven n (2 ^ shift)
      · rw [← hk, hpower]
      · rw [← hpower]
        rcases dist_divRoundEven n hstep hk with hless | ⟨heq, -⟩
        · exact hless.le
        · exact heq.le
    have hfar : Nat.dist n (2 ^ (52 + shift)) < Nat.dist n s := by
      unfold Nat.dist
      omega
    exact .inl (hnear.trans_lt hfar)
  · obtain ⟨k, rfl⟩ := dvd_of_fitsDouble hs hhigh
    rw [Nat.mul_comm (2 ^ shift) k] at hne ⊢
    have hk : k ≠ divRoundEven n (2 ^ shift) := by
      rintro rfl
      exact hne rfl
    rcases dist_divRoundEven n hstep hk with hless | ⟨heq, hhalf, heven⟩
    · exact .inl hless
    · refine .inr ⟨heq, ?_⟩
      generalize Nat.dist n (divRoundEven n (2 ^ shift) * 2 ^ shift) = d at hhalf ⊢
      have hfour : 4 * d = 2 * 2 ^ shift := by omega
      rw [hfour]
      exact Nat.mul_dvd_mul heven (Nat.dvd_refl _)

theorem log2_mul_two_pow {n : Nat} (hn : n ≠ 0) (k : Nat) : (n * 2 ^ k).log2 = n.log2 + k := by
  induction k with
  | zero => simp
  | succ k ih =>
    have hdouble : n * 2 ^ (k + 1) = 2 * (n * 2 ^ k) := by rw [Nat.pow_succ]; ring
    rw [hdouble, Nat.log2_two_mul (by positivity), ih, Nat.add_assoc]

/-- Rounding does not depend on the unit that whole numbers are counted in. -/
theorem roundUnits_mul_two_pow {n k : Nat} (hk : 52 ≤ k) :
    roundUnits (n * 2 ^ k) 1 = roundUnits n 1 * 2 ^ k := by
  by_cases hn : n = 0
  · subst hn
    rw [Nat.zero_mul, roundUnits_one_of_lt (by decide), Nat.zero_mul]
  have hlog : (n * 2 ^ k).log2 = 52 + (n.log2 + k - 52) := by
    rw [log2_mul_two_pow hn]
    omega
  rw [roundUnits_one_of_lt_log2 hlog]
  rcases Nat.lt_or_ge n (2 ^ 53) with hlt | hge
  · -- the step divides the number, which stays as it is
    have hsmall := (Nat.log2_lt hn).mpr hlt
    have hsplit : 2 ^ k = 2 ^ (52 - n.log2) * 2 ^ (n.log2 + k - 52) := by
      rw [← Nat.pow_add]
      congr 1
      omega
    rw [roundUnits_one_of_lt hlt, hsplit, ← Nat.mul_assoc, divRoundEven_mul _ (Nat.two_pow_pos _)]
  · obtain ⟨shift, hshift⟩ := le_log2_of_le hge
    have hstep : 2 ^ (n.log2 + k - 52) = 2 ^ shift * 2 ^ k := by
      rw [← Nat.pow_add]
      congr 1
      omega
    rw [roundUnits_one_of_lt_log2 hshift, hstep,
      divRoundEven_mul_mul n _ (Nat.two_pow_pos k), Nat.mul_assoc]

/-! ## Integers -/

/-- `r` is the double nearest to `n`, and of two that are equally near the one with the even
significand. -/
structure IsNearestDouble (n r : Int) : Prop where
  fits : FitsDouble r.natAbs
  nearest : ∀ s : Int, FitsDouble s.natAbs → (n - r).natAbs ≤ (n - s).natAbs
  even : ∀ s : Int, FitsDouble s.natAbs → s ≠ r → (n - s).natAbs = (n - r).natAbs →
    4 * (n - r).natAbs ∣ r.natAbs

def nearestDouble (n : Int) : Int :=
  if n < 0 then -Int.ofNat (roundUnits n.natAbs 1) else Int.ofNat (roundUnits n.natAbs 1)

theorem natAbs_nearestDouble (n : Int) :
    (nearestDouble n).natAbs = roundUnits n.natAbs 1 := by
  unfold nearestDouble
  split <;> simp

theorem natAbs_sub_nearestDouble (n : Int) :
    (n - nearestDouble n).natAbs = Nat.dist n.natAbs (roundUnits n.natAbs 1) := by
  unfold nearestDouble Nat.dist
  split <;> simp only [Int.ofNat_eq_natCast] <;> omega

theorem isNearestDouble_nearestDouble (n : Int) : IsNearestDouble n (nearestDouble n) where
  fits := natAbs_nearestDouble n ▸ fitsDouble_roundUnits n.natAbs
  nearest s hs := by
    have hdist : Nat.dist n.natAbs s.natAbs ≤ (n - s).natAbs := by
      unfold Nat.dist
      omega
    rw [natAbs_sub_nearestDouble]
    refine le_trans ?_ hdist
    by_cases hne : s.natAbs = roundUnits n.natAbs 1
    · rw [hne]
    · rcases dist_roundUnits n.natAbs hs hne with hless | ⟨heq, -⟩
      · exact hless.le
      · exact heq.le
  even s hs hne htie := by
    have hdist : Nat.dist n.natAbs s.natAbs ≤ (n - s).natAbs := by
      unfold Nat.dist
      omega
    rw [natAbs_sub_nearestDouble] at htie ⊢
    rw [natAbs_nearestDouble]
    by_cases heq : s.natAbs = roundUnits n.natAbs 1
    · -- only the opposite of the rounded number is left, and is as near only if both are zero
      have hzero : roundUnits n.natAbs 1 = 0 := by
        have habs := natAbs_nearestDouble n
        have hsub := natAbs_sub_nearestDouble n
        unfold Nat.dist at hsub htie
        unfold nearestDouble at hne habs
        simp only [Int.ofNat_eq_natCast] at hne habs
        split at hne
        all_goals
          have hn : n.natAbs = 0 → roundUnits n.natAbs 1 = 0 := fun h => by
            rw [h, roundUnits_one_of_lt (by decide)]
          omega
      rw [hzero]
      exact Nat.dvd_zero _
    · rcases dist_roundUnits n.natAbs hs heq with hless | ⟨-, hdvd⟩
      · omega
      · exact hdvd

theorem nearestDouble_le {m n : Int} (h : m ≤ n) : nearestDouble m ≤ nearestDouble n := by
  rcases h.eq_or_lt with rfl | hlt
  · exact le_rfl
  have hm := (isNearestDouble_nearestDouble m).nearest _ (isNearestDouble_nearestDouble n).fits
  have hn := (isNearestDouble_nearestDouble n).nearest _ (isNearestDouble_nearestDouble m).fits
  omega

theorem nearestDouble_of_fits {n : Int} (h : FitsDouble n.natAbs) : nearestDouble n = n := by
  have hnear := (isNearestDouble_nearestDouble n).nearest n h
  omega

/-- Up to `2 ^ 53` nothing is rounded. -/
theorem nearestDouble_of_natAbs_le {n : Int} (h : n.natAbs ≤ 2 ^ 53) : nearestDouble n = n := by
  rcases h.eq_or_lt with heq | hlt
  · exact nearestDouble_of_fits ⟨1, 53, by decide, by rw [heq, Nat.one_mul]⟩
  · exact nearestDouble_of_fits (fitsDouble_of_lt hlt)

/-- A signed 64-bit integer is rounded to one, or to the first one past them. -/
theorem nearestDouble_bounds {n : Int} (h : isInt64 n = true) :
    int64Min ≤ nearestDouble n ∧ nearestDouble n ≤ int64Max + 1 := by
  obtain ⟨hlow, hhigh⟩ := isInt64_iff.mp h
  have hmin : nearestDouble int64Min = int64Min :=
    nearestDouble_of_fits ⟨1, 63, by decide, by decide⟩
  have hmax : nearestDouble (int64Max + 1) = int64Max + 1 :=
    nearestDouble_of_fits ⟨1, 63, by decide, by decide⟩
  exact ⟨hmin ▸ nearestDouble_le hlow, hmax ▸ nearestDouble_le (by omega)⟩

end WireSchema.Number
