/-
  EdgeFields/Proofs/DoubleValue.lean
  ==================================
  **What doubles denote.**

  A double denotes a rational number, a whole number of units of `2 ^ (-1074)`
  (`Double.value`). From one magnitude code to the next the units grow, also where the scale
  changes (`Double.strictMono_unitsOf`), so the order of the keys is the order of the values
  (`Double.compare_lt_iff`, `Double.compare_gt_iff`). A value is an integer if the units divide
  (`Double.isIntegral_iff`), and the double next to an integer always is one
  (`Double.isIntegral_ofInt`).
-/
import Mathlib
import EdgeFields.Number.Double

namespace EdgeFields.Double

/-! ### Codes -/

/-- The absolute value of a magnitude code, in units of `2 ^ (-1074)`. -/
def unitsOf (code : Nat) : Nat :=
  (if code < 2 ^ 52 then code else 2 ^ 52 + code % 2 ^ 52) * 2 ^ (code / 2 ^ 52 - 1)

theorem units_eq (x : Double) : x.units = unitsOf x.magnitude := rfl

/-- A scale and a significand that belong together: below `2 ^ 52` only the significands of the
    least scale are. The significand `2 ^ 53` stands for `2 ^ 52` at the next scale. -/
structure Scaled (k q : Nat) : Prop where
  normal : k = 0 ∨ 2 ^ 52 ≤ q
  le : q ≤ 2 ^ 53

theorem Scaled.unitsOf {k q : Nat} (h : Scaled k q) : unitsOf (k * 2 ^ 52 + q) = q * 2 ^ k := by
  obtain ⟨hnormal, hle⟩ := h
  have hpos : 0 < 2 ^ 52 := Nat.two_pow_pos 52
  unfold Double.unitsOf
  by_cases hsmall : q < 2 ^ 52
  · obtain rfl : k = 0 := hnormal.resolve_right (Nat.not_le_of_lt hsmall)
    rw [Nat.zero_mul, Nat.zero_add, if_pos hsmall, Nat.div_eq_of_lt hsmall]
  · rcases Nat.eq_or_lt_of_le hle with heq | hlt
    · have hcode : k * 2 ^ 52 + q = 2 ^ 52 * (k + 2) := by omega
      have hlarge : ¬ 2 ^ 52 * (k + 2) < 2 ^ 52 := by omega
      have hscale : k + 2 - 1 = k + 1 := by omega
      have hpow : 2 ^ 52 * 2 ^ (k + 1) = q * 2 ^ k := by
        rw [heq, Nat.pow_succ]
        ring
      rw [hcode, if_neg hlarge, Nat.mul_mod_right, Nat.mul_div_cancel_left _ hpos, hscale,
        Nat.add_zero, hpow]
    · have hcode : k * 2 ^ 52 + q = 2 ^ 52 * (k + 1) + (q - 2 ^ 52) := by omega
      have hrest : q - 2 ^ 52 < 2 ^ 52 := by omega
      have hlarge : ¬ 2 ^ 52 * (k + 1) + (q - 2 ^ 52) < 2 ^ 52 := by omega
      rw [hcode, if_neg hlarge, Nat.mul_add_mod, Nat.mod_eq_of_lt hrest,
        Nat.mul_add_div hpos, Nat.div_eq_of_lt hrest, Nat.add_zero, Nat.add_sub_cancel,
        Nat.add_sub_cancel' (Nat.le_of_not_lt hsmall)]

theorem exists_scaled (code : Nat) :
    ∃ k q, Scaled k q ∧ q < 2 ^ 53 ∧ code = k * 2 ^ 52 + q := by
  by_cases hsmall : code < 2 ^ 52
  · exact ⟨0, code, ⟨.inl rfl, by omega⟩, by omega, by omega⟩
  · exact ⟨code / 2 ^ 52 - 1, 2 ^ 52 + code % 2 ^ 52, ⟨.inr (by omega), by omega⟩, by omega,
      by omega⟩

/-- **Codes are ordered as their values.** -/
theorem strictMono_unitsOf : StrictMono unitsOf := by
  refine strictMono_nat_of_lt_succ fun code => ?_
  obtain ⟨k, q, hscaled, hlt, rfl⟩ := exists_scaled code
  have hnext : Scaled k (q + 1) := ⟨hscaled.normal.imp_right (by omega), hlt⟩
  rw [Nat.add_assoc, hscaled.unitsOf, hnext.unitsOf]
  exact Nat.mul_lt_mul_of_pos_right (Nat.lt_succ_self q) (Nat.two_pow_pos k)

theorem unitsOf_infinityCode : unitsOf infinityCode = 2 ^ 2098 := by
  have hscaled : Scaled 2046 (2 ^ 52) := ⟨.inr (Nat.le_refl _), by decide⟩
  have hcode : infinityCode = 2046 * 2 ^ 52 + 2 ^ 52 := by decide +kernel
  have hpow : 2 ^ 52 * 2 ^ 2046 = 2 ^ 2098 := by decide +kernel
  rw [hcode, hscaled.unitsOf, hpow]

/-! ### Values -/

/-- One, in units. -/
def one : Nat := 2 ^ 1074

theorem one_pos : 0 < one := by decide +kernel

theorem one_dvd_two_pow {k : Nat} (h : 1074 ≤ k) : one ∣ 2 ^ k := by
  rw [one, Nat.pow_dvd_pow_iff_le_right']
  exact h

theorem two_pow_dvd_one {k : Nat} (h : k ≤ 1074) : 2 ^ k ∣ one := by
  rw [one, Nat.pow_dvd_pow_iff_le_right']
  exact h

/-- The units with their sign. -/
def signed (x : Double) : Int := if x.negative then -(x.units : Int) else x.units

/-- The number that a double denotes. -/
def value (x : Double) : ℚ := x.signed / one

theorem key_lt_iff (x y : Double) : x.key < y.key ↔ x.value < y.value := by
  have hlt : x.value < y.value ↔ x.signed < y.signed := by
    rw [value, value, div_lt_div_iff_of_pos_right (Nat.cast_pos.2 one_pos), Int.cast_lt]
  have hxy : x.magnitude < y.magnitude ↔ x.units < y.units := strictMono_unitsOf.lt_iff_lt.symm
  have hyx : y.magnitude < x.magnitude ↔ y.units < x.units := strictMono_unitsOf.lt_iff_lt.symm
  have hx : 0 < x.magnitude ↔ 0 < x.units := strictMono_unitsOf.lt_iff_lt.symm
  have hy : 0 < y.magnitude ↔ 0 < y.units := strictMono_unitsOf.lt_iff_lt.symm
  rw [hlt]
  unfold key signed
  cases x.negative <;> cases y.negative <;> simp only [if_true, if_false, Bool.false_eq_true] <;>
    omega

theorem compare_lt_iff (x y : Double) : Ord.compare x y = .lt ↔ x.value < y.value := by
  rw [← key_lt_iff]
  exact Int.compare_eq_lt

theorem compare_gt_iff (x y : Double) : Ord.compare x y = .gt ↔ y.value < x.value := by
  rw [← key_lt_iff]
  exact Int.compare_eq_gt

/-! ### Integers -/

theorem isIntegral_iff_dvd (x : Double) : x.isIntegral = true ↔ one ∣ x.units := by
  have hmod : x.isIntegral = (x.units % one == 0) := by
    simp only [isIntegral, one, Nat.pow_eq]
  rw [hmod, beq_iff_eq, Nat.dvd_iff_mod_eq_zero]

theorem isIntegral_iff (x : Double) : x.isIntegral = true ↔ ∃ i : Int, x.value = i := by
  have hsigned : one ∣ x.units ↔ (one : Int) ∣ x.signed := by
    unfold signed
    split
    · rw [dvd_neg, Int.natCast_dvd_natCast]
    · rw [Int.natCast_dvd_natCast]
  have hne : (one : ℚ) ≠ 0 := Nat.cast_ne_zero.2 one_pos.ne'
  rw [isIntegral_iff_dvd, hsigned]
  refine exists_congr fun i => ?_
  rw [value, div_eq_iff hne, mul_comm]
  exact_mod_cast Iff.rfl

/-! ### Rounded quotients -/

theorem log2_mul_two_pow {q : Nat} (hq : q ≠ 0) (k : Nat) : (q * 2 ^ k).log2 = q.log2 + k := by
  have hne : q * 2 ^ k ≠ 0 := (Nat.mul_pos (Nat.pos_of_ne_zero hq) (Nat.two_pow_pos k)).ne'
  rw [Nat.log2_eq_iff hne, Nat.pow_add, Nat.add_right_comm, Nat.pow_add]
  exact ⟨Nat.mul_le_mul_right _ (Nat.log2_self_le hq),
    Nat.mul_lt_mul_of_pos_right Nat.lt_log2_self (Nat.two_pow_pos k)⟩

theorem roundHalfEven_of_dvd {num den : Nat} (hpos : 0 < den) (h : den ∣ num) :
    roundHalfEven num den = num / den := by
  unfold roundHalfEven
  rw [Nat.mod_eq_zero_of_dvd h]
  exact if_pos hpos

/-- The quotient or the next integer, whichever is not farther. -/
theorem roundHalfEven_eq_or (num den : Nat) :
    roundHalfEven num den = num / den ∧ 2 * (num % den) ≤ den ∨
      roundHalfEven num den = num / den + 1 ∧ den ≤ 2 * (num % den) := by
  have hparity := Nat.mod_two_eq_zero_or_one (num / den)
  unfold roundHalfEven
  dsimp only
  split
  · omega
  · split <;> omega

theorem roundHalfEven_bounds (num den : Nat) :
    num / den ≤ roundHalfEven num den ∧ roundHalfEven num den ≤ num / den + 1 := by
  rcases roundHalfEven_eq_or num den with ⟨hround, _⟩ | ⟨hround, _⟩ <;> omega

/-- The scale at which a quotient is rounded. -/
def nearestScale (num den : Nat) : Nat := (num * one / den).log2 + 1 - 53

theorem nearestCode_eq (num den : Nat) :
    nearestCode num den = nearestScale num den * 2 ^ 52 +
      roundHalfEven (num * one) (den * 2 ^ nearestScale num den) := by
  simp only [nearestCode, nearestScale, one, Nat.pow_eq]

/-- At any but the least scale a quotient fills the significand. -/
theorem le_of_nearestScale {num den : Nat} (h : nearestScale num den ≠ 0) :
    2 ^ 52 * 2 ^ nearestScale num den ≤ num * one / den := by
  have hlog : 52 + nearestScale num den = (num * one / den).log2 := by
    unfold nearestScale at h ⊢
    omega
  have hne : num * one / den ≠ 0 := by
    intro hzero
    rw [hzero, Nat.log2_zero] at hlog
    omega
  rw [← Nat.pow_add, hlog]
  exact Nat.log2_self_le hne

/-- A quotient is rounded to a significand at the scale that belongs to it. -/
theorem scaled_nearest (num den : Nat) :
    Scaled (nearestScale num den)
      (roundHalfEven (num * one) (den * 2 ^ nearestScale num den)) := by
  have hpos : 0 < 2 ^ nearestScale num den := Nat.two_pow_pos _
  have hquotient : num * one / (den * 2 ^ nearestScale num den) =
      num * one / den / 2 ^ nearestScale num den := (Nat.div_div_eq_div_mul _ _ _).symm
  obtain ⟨hge, hle⟩ := roundHalfEven_bounds (num * one) (den * 2 ^ nearestScale num den)
  rw [hquotient] at hge hle
  refine ⟨?_, ?_⟩
  · by_cases hscale : nearestScale num den = 0
    · exact .inl hscale
    · exact .inr (Nat.le_trans ((Nat.le_div_iff_mul_le hpos).2 (le_of_nearestScale hscale)) hge)
  · have hlt : num * one / den < 2 ^ 53 * 2 ^ nearestScale num den := by
      rw [← Nat.pow_add]
      refine Nat.lt_of_lt_of_le Nat.lt_log2_self (Nat.pow_le_pow_right Nat.two_pos ?_)
      unfold nearestScale
      omega
    exact Nat.le_trans hle ((Nat.div_lt_iff_lt_mul hpos).2 hlt)

theorem unitsOf_nearestCode (num den : Nat) : unitsOf (nearestCode num den) =
    roundHalfEven (num * one) (den * 2 ^ nearestScale num den) * 2 ^ nearestScale num den := by
  rw [nearestCode_eq, (scaled_nearest num den).unitsOf]

/-! ### Rounded integers -/

/-- An integer that is a multiple of its scale is not rounded. -/
theorem unitsOf_nearestCode_of_dvd {n : Nat} (h : 2 ^ nearestScale n 1 ∣ n * one) :
    unitsOf (nearestCode n 1) = n * one := by
  rw [unitsOf_nearestCode, Nat.one_mul, roundHalfEven_of_dvd (Nat.two_pow_pos _) h,
    Nat.div_mul_cancel h]

/-- The units of an integer are whole after rounding: the significand was not rounded, or its
    scale is at least that of one. -/
theorem one_dvd_unitsOf_nearestCode (n : Nat) : one ∣ unitsOf (nearestCode n 1) := by
  by_cases hscale : 1074 ≤ nearestScale n 1
  · rw [unitsOf_nearestCode]
    exact Dvd.dvd.mul_left (one_dvd_two_pow hscale) _
  · have hdvd : 2 ^ nearestScale n 1 ∣ n * one :=
      Dvd.dvd.mul_left (two_pow_dvd_one (Nat.le_of_not_le hscale)) _
    rw [unitsOf_nearestCode_of_dvd hdvd]
    exact Nat.dvd_mul_left _ _

/-- **The double next to an integer is an integer.** -/
theorem isIntegral_ofInt (i : Int) : (ofInt i).isIntegral = true := by
  rw [isIntegral_iff_dvd, units_eq]
  have hlargest : one ∣ unitsOf (infinityCode - 1) := by
    have hscaled : Scaled 2045 (2 ^ 53 - 1) := ⟨.inr (by decide), by decide⟩
    have hcode : infinityCode - 1 = 2045 * 2 ^ 52 + (2 ^ 53 - 1) := by decide +kernel
    rw [hcode, hscaled.unitsOf]
    exact Dvd.dvd.mul_left (one_dvd_two_pow (by decide)) _
  have hnearest := one_dvd_unitsOf_nearestCode i.natAbs
  rcases Nat.le_total (nearestCode i.natAbs 1) (infinityCode - 1) with hle | hle
  · simpa only [ofInt, Nat.min_eq_left hle] using hnearest
  · simpa only [ofInt, Nat.min_eq_right hle] using hlargest

end EdgeFields.Double
