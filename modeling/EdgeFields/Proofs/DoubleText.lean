/-
  EdgeFields/Proofs/DoubleText.lean
  =================================
  **The text of doubles.**

  A double is printed with the digits of a decimal that was seen to be nearest to the double,
  or with all its digits if none with up to 17 was found. Here it is proved that this is enough:
  the text as a whole spells a decimal whose nearest double is the one printed
  (`Number.exists_numeral_render`). Digits and an exponent mean a quotient, which is rounded
  alike in every spelling, so neither the zeros that were left out at the end
  (`Double.ofDecimal_mul_pow`) nor the place of the point matter. The exact decimal belongs to
  its double since its quotient is the double's own units, and a code is what its units are
  rounded to (`Double.ofDecimal_exact`). The text of a double is not always read back, since
  the reader of literals does not always take the nearest double (`Number.Parts.double?`).
-/
import EdgeFields.Number.Decimal
import EdgeFields.Proofs.DoubleValue
import EdgeFields.Proofs.Spelling

namespace EdgeFields

open Number (digitsValue Digits)

/-! ### Quotients -/

namespace Double

variable {num den num' den' c : Nat}

theorem roundHalfEven_mul_right (hc : 0 < c) (num den : Nat) :
    roundHalfEven (num * c) (den * c) = roundHalfEven num den := by
  unfold roundHalfEven
  have hlow : 2 * (num % den * c) < den * c ↔ 2 * (num % den) < den := by
    rw [← Nat.mul_assoc, Nat.mul_lt_mul_right hc]
  have hhigh : den * c < 2 * (num % den * c) ↔ den < 2 * (num % den) := by
    rw [← Nat.mul_assoc, Nat.mul_lt_mul_right hc]
  simp only [Nat.mul_div_mul_right _ _ hc, Nat.mul_mod_mul_right, hlow, hhigh]

theorem nearestCode_mul_right (hc : 0 < c) (num den : Nat) :
    nearestCode (num * c) (den * c) = nearestCode num den := by
  have hscaled : ∀ p, num * c * p = num * p * c := fun p => Nat.mul_right_comm num c p
  have hden : ∀ p, den * c * p = den * p * c := fun p => Nat.mul_right_comm den c p
  simp only [nearestCode, hscaled, hden, Nat.mul_div_mul_right _ _ hc, roundHalfEven_mul_right hc]

/-- Equal quotients are rounded alike. -/
theorem ofRatio_congr (negative : Bool) (hden : 0 < den) (hden' : 0 < den')
    (h : num * den' = num' * den) : ofRatio negative num den = ofRatio negative num' den' := by
  have hcode : nearestCode num den = nearestCode num' den' := by
    rw [← nearestCode_mul_right hden' num den, h, Nat.mul_comm den,
      nearestCode_mul_right hden num' den']
  simp only [ofRatio, hcode]

end Double

/-! ### Zeros at the end -/

theorem toDigits_mul_pow {n : Nat} (hn : 0 < n) (zeros : Nat) :
    Nat.toDigits 10 (n * 10 ^ zeros) = Nat.toDigits 10 n ++ List.replicate zeros '0' := by
  induction zeros with
  | zero => simp
  | succ zeros ih =>
    have hpos : 0 < n * 10 ^ zeros := Nat.mul_pos hn (Nat.pow_pos (by decide))
    have hlast := Nat.toDigits_append_toDigits (b := 10) (d := 0) (by decide) hpos (by decide)
    have hmul : 10 * (n * 10 ^ zeros) + 0 = n * 10 ^ (zeros + 1) := by rw [Nat.pow_succ]; ring
    rw [hmul] at hlast
    rw [← hlast, ih, List.append_assoc, List.replicate_succ']
    rfl

namespace Double

theorem digitCount_mul_pow {n : Nat} (hn : 0 < n) (zeros : Nat) :
    digitCount (n * 10 ^ zeros) = digitCount n + zeros := by
  rw [digitCount, digitCount, toDigits_mul_pow hn, List.length_append, List.length_replicate]

theorem ofDecimal_zero (negative : Bool) (exponent : Int) :
    ofDecimal negative 0 exponent = some (zero negative) := by
  unfold ofDecimal
  exact if_pos rfl

/-- **Zeros at the end count like a higher exponent.** -/
theorem ofDecimal_mul_pow (negative : Bool) (n zeros : Nat) (exponent : Int) :
    ofDecimal negative (n * 10 ^ zeros) exponent = ofDecimal negative n (exponent + zeros) := by
  rcases Nat.eq_zero_or_pos n with rfl | hn
  · rw [Nat.zero_mul, ofDecimal_zero, ofDecimal_zero]
  have hne : n * 10 ^ zeros ≠ 0 := (Nat.mul_pos hn (Nat.pow_pos (by decide))).ne'
  have htop : (digitCount (n * 10 ^ zeros) : Int) + exponent =
      (digitCount n : Int) + (exponent + zeros) := by
    rw [digitCount_mul_pow hn]
    push_cast
    ring
  have hratio : ofRatio negative (n * 10 ^ zeros * Nat.pow 10 exponent.toNat)
        (Nat.pow 10 (-exponent).toNat) =
      ofRatio negative (n * Nat.pow 10 (exponent + zeros).toNat)
        (Nat.pow 10 (-(exponent + zeros)).toNat) := by
    simp only [Nat.pow_eq]
    refine ofRatio_congr negative (Nat.pow_pos (by decide)) (Nat.pow_pos (by decide)) ?_
    have hsum : zeros + exponent.toNat + (-(exponent + zeros)).toNat =
        (exponent + zeros).toNat + (-exponent).toNat := by omega
    rw [Nat.mul_assoc, Nat.mul_assoc, ← Nat.pow_add, ← Nat.pow_add, ← Nat.add_assoc, hsum,
      Nat.pow_add, ← Nat.mul_assoc]
  unfold ofDecimal
  simp only [htop, hratio, if_neg hne, if_neg hn.ne']

/-! ### The exact decimal -/

variable {x : Double}

/-- A code is what its units are rounded to. -/
theorem nearestCode_unitsOf {code : Nat} (h : code ≠ 0) :
    nearestCode (unitsOf code) one = code := by
  obtain ⟨k, q, hscaled, hlt, rfl⟩ := exists_scaled code
  rw [hscaled.unitsOf]
  have hq : q ≠ 0 := by
    rintro rfl
    rcases hscaled.normal with rfl | hle
    · exact h rfl
    · exact absurd hle (by decide)
  have hscale : nearestScale (q * 2 ^ k) one = k := by
    rw [nearestScale, Nat.mul_div_cancel _ one_pos, log2_mul_two_pow hq]
    have hlt' : q.log2 < 53 := (Nat.log2_lt hq).2 hlt
    rcases hscaled.normal with rfl | hle
    · omega
    · have hge : 52 ≤ q.log2 := (Nat.le_log2 hq).2 hle
      omega
  have hround : roundHalfEven (q * 2 ^ k * one) (one * 2 ^ k) = q := by
    rw [Nat.mul_assoc, Nat.mul_comm (2 ^ k) one]
    have hpos : 0 < one * 2 ^ k := Nat.mul_pos one_pos (Nat.two_pow_pos k)
    rw [roundHalfEven_of_dvd hpos (Nat.dvd_mul_left _ _), Nat.mul_div_cancel _ hpos]
  rw [nearestCode_eq, hscale, hround]

theorem units_pos (h : x.magnitude ≠ 0) : 0 < x.units := by
  have hlt : unitsOf 0 < unitsOf x.magnitude := strictMono_unitsOf (Nat.pos_of_ne_zero h)
  rw [units_eq]
  exact Nat.lt_of_le_of_lt (Nat.zero_le _) hlt

theorem units_lt (x : Double) : x.units < 2 ^ 2098 := by
  have hlt : unitsOf x.magnitude < unitsOf infinityCode := strictMono_unitsOf x.finite
  rwa [unitsOf_infinityCode] at hlt

/-- **The exact decimal of a double is rounded to the double.** -/
theorem ofDecimal_exact (h : x.magnitude ≠ 0) :
    ofDecimal x.negative (x.units * Nat.pow 5 1074) (-1074) = some x := by
  generalize hn : x.units * Nat.pow 5 1074 = n
  have hpow : 0 < Nat.pow 5 1074 := by decide +kernel
  have hpos : 0 < n := hn ▸ Nat.mul_pos (units_pos h) hpow
  -- the leading digit is far from where the guards answer
  have hlow : 743 < digitCount n := by
    refine Nat.lt_of_not_le fun hle => ?_
    have hlt : n < 10 ^ 743 := (Nat.length_toDigits_le_iff (by decide) (by decide)).1 hle
    have hge : Nat.pow 5 1074 ≤ n := hn ▸ Nat.le_mul_of_pos_left _ (units_pos h)
    have hbound : 10 ^ 743 ≤ Nat.pow 5 1074 := by decide +kernel
    exact absurd hlt (Nat.not_lt_of_le (Nat.le_trans hbound hge))
  have hhigh : digitCount n ≤ 1404 := by
    refine (Nat.length_toDigits_le_iff (by decide) (by decide)).2 ?_
    have hlt : n < 2 ^ 2098 * Nat.pow 5 1074 := hn ▸ Nat.mul_lt_mul_of_pos_right x.units_lt hpow
    have hbound : 2 ^ 2098 * Nat.pow 5 1074 ≤ 10 ^ 1404 := by decide +kernel
    exact Nat.lt_of_lt_of_le hlt hbound
  have hratio : ofRatio x.negative (n * Nat.pow 10 (-1074 : Int).toNat)
      (Nat.pow 10 (-(-1074 : Int)).toNat) = ofRatio x.negative x.units one := by
    refine ofRatio_congr x.negative (Nat.pow_pos (by decide)) one_pos ?_
    have hten : Nat.pow 5 1074 * one = Nat.pow 10 1074 := by decide +kernel
    rw [← hn]
    show x.units * Nat.pow 5 1074 * 1 * one = x.units * Nat.pow 10 1074
    rw [Nat.mul_one, Nat.mul_assoc, hten]
  have hcode : nearestCode x.units one = x.magnitude := by
    rw [units_eq, nearestCode_unitsOf h]
  unfold ofDecimal
  dsimp only
  rw [if_neg hpos.ne', if_neg (by omega), if_neg (by omega), hratio]
  unfold ofRatio
  simp only [hcode, x.finite, dif_pos]

end Double

/-! ### Digits that are written -/

namespace Number

theorem digitsValue_cons_zero (ds : List Char) : digitsValue ('0' :: ds) = digitsValue ds := rfl

theorem digitsValue_append_zeros (ds : List Char) (zeros : Nat) :
    digitsValue (ds ++ List.replicate zeros '0') = digitsValue ds * 10 ^ zeros := by
  rw [digitsValue_eq, Nat.ofDigitChars_append, Nat.ofDigitChars_replicate_zero, Nat.mul_comm,
    ← digitsValue_eq]

theorem digitsValue_zeros_append (zeros : Nat) (ds : List Char) :
    digitsValue (List.replicate zeros '0' ++ ds) = digitsValue ds := by
  rw [digitsValue_eq, Nat.ofDigitChars_append, Nat.ofDigitChars_replicate_zero, Nat.mul_zero,
    ← digitsValue_eq]

end Number

/-- The digits begin with no zero, and with the exponent they are nearest to the double. -/
structure Decimal.Denotes (d : Decimal) (x : Double) : Prop where
  nonempty : d.digits ≠ []
  leading : d.digits.head? ≠ some '0'
  nearest : Double.ofDecimal x.negative (digitsValue d.digits)
    (d.exponent + 1 - d.digits.length) = some x

namespace Double

variable {n : Nat} {exponent : Int} {x : Double}

/-- The digits of a number end in zeros that a decimal does without. -/
theorem exists_toDigits_eq (n : Nat) (exponent : Int) :
    ∃ zeros, Nat.toDigits 10 n =
      (Decimal.ofScaled n exponent).digits ++ List.replicate zeros '0' := by
  have hsplit := List.takeWhile_append_dropWhile (p := (· == '0'))
    (l := (Nat.toDigits 10 n).reverse)
  have hzeros : ∀ c ∈ (Nat.toDigits 10 n).reverse.takeWhile (· == '0'), c = '0' := by
    intro c hc
    simpa using List.mem_takeWhile_imp hc
  rw [List.eq_replicate_of_mem hzeros] at hsplit
  have hreverse := congrArg List.reverse hsplit
  rw [List.reverse_append, List.reverse_replicate, List.reverse_reverse] at hreverse
  exact ⟨_, hreverse.symm⟩

theorem denotes_ofScaled (hx : x.magnitude ≠ 0) (h : ofDecimal x.negative n exponent = some x) :
    (Decimal.ofScaled n exponent).Denotes x := by
  have hn : 0 < n := by
    refine Nat.pos_of_ne_zero ?_
    rintro rfl
    rw [ofDecimal_zero] at h
    exact hx (congrArg magnitude (Option.some.inj h)).symm
  obtain ⟨zeros, hzeros⟩ := exists_toDigits_eq n exponent
  have hlength : ((Nat.toDigits 10 n).length : Int) =
      (Decimal.ofScaled n exponent).digits.length + zeros := by
    rw [hzeros, List.length_append, List.length_replicate]
    push_cast
    rfl
  have hvalue : digitsValue (Decimal.ofScaled n exponent).digits * 10 ^ zeros = n := by
    rw [← Number.digitsValue_append_zeros, ← hzeros, Number.digitsValue_toDigits]
  have hexponent : (Decimal.ofScaled n exponent).exponent =
      (Nat.toDigits 10 n).length + exponent - 1 := rfl
  have hhead := Number.head?_toDigits hn
  have hnonempty : (Decimal.ofScaled n exponent).digits ≠ [] := by
    intro hnil
    rw [hnil] at hvalue
    have hzero : digitsValue [] * 10 ^ zeros = 0 := Nat.zero_mul _
    omega
  refine ⟨hnonempty, ?_, ?_⟩
  · rw [hzeros, List.head?_append_of_ne_nil _ hnonempty] at hhead
    exact hhead
  · rw [hexponent, hlength]
    have hsum : (Decimal.ofScaled n exponent).digits.length + (zeros : Int) + exponent - 1 + 1 -
        (Decimal.ofScaled n exponent).digits.length = exponent + zeros := by ring
    rw [hsum, ← ofDecimal_mul_pow, hvalue, h]

theorem exists_of_candidate {tie : Tie} {count : Nat} {d : Decimal}
    (h : x.candidate tie count = some d) :
    ∃ n exponent, x.readsBack n exponent = true ∧ .ofScaled n exponent = d := by
  -- opened as a function, since the kernel evaluates what a definition under arguments matches on
  obtain ⟨f, hf⟩ : ∃ f, f = candidate := ⟨_, rfl⟩
  rw [← hf] at h
  delta candidate at hf
  rw [hf] at h
  dsimp only at h
  split at h
  · cases h
  · next hlow _ => exact ⟨_, _, hlow, Option.some.inj h⟩
  · next _ hhigh => exact ⟨_, _, hhigh, Option.some.inj h⟩
  · next hlow hhigh =>
    refine ⟨_, _, ?_, Option.some.inj h⟩
    split
    · exact hhigh
    · exact hlow

/-- **The shortest digits denote the double.** -/
theorem denotes_shortest (tie : Tie) (hx : x.magnitude ≠ 0) : (x.shortest tie).Denotes x := by
  unfold shortest
  cases hfound : (List.range' 1 17).findSome? (x.candidate tie) with
  | none =>
    rw [Option.getD_none]
    exact denotes_ofScaled hx (ofDecimal_exact hx)
  | some d =>
    rw [Option.getD_some]
    obtain ⟨count, _, hcandidate⟩ := List.exists_of_findSome?_eq_some hfound
    obtain ⟨n, exponent, hread, hd⟩ := exists_of_candidate hcandidate
    rw [← hd]
    exact denotes_ofScaled hx (eq_of_beq hread)

end Double

/-! ### Numerals -/

namespace Number

/-- The double nearest to the decimal that the parts spell, unless that is infinite. -/
def Parts.nearest? (p : Parts) : Option Double :=
  Double.ofDecimal p.negative (digitsValue (p.whole ++ p.fraction))
    (p.exponent.getD 0 - p.fraction.length)

variable {d : Decimal} {x : Double} {sign : List Char}

theorem digits_replicate (zeros : Nat) : ∀ c ∈ List.replicate zeros '0', c.isDigit = true := by
  intro c hc
  rw [List.eq_of_mem_replicate hc]
  rfl

theorem exists_numeral_point {whole fraction : List Char} (hsign : Sign sign x.negative)
    (hwhole : Digits whole) (hzero : whole.length = 1 ∨ whole.head? ≠ some '0')
    (hfraction : Digits fraction)
    (h : Double.ofDecimal x.negative (digitsValue (whole ++ fraction)) (-fraction.length) =
      some x) :
    ∃ p, Numeral (sign ++ (whole ++ '.' :: fraction)) p ∧ p.nearest? = some x := by
  have hnumeral := Numeral.of hsign hwhole hzero (.present hfraction) .absent
  rw [List.append_nil] at hnumeral
  refine ⟨_, hnumeral, ?_⟩
  rw [Parts.nearest?, Option.getD_none, Int.zero_sub, h]

theorem exists_numeral_placePoint (h : d.Denotes x) (hsign : Sign sign x.negative) :
    ∃ p, Numeral (sign ++ Layout.placePoint true d) p ∧ p.nearest? = some x := by
  obtain ⟨hnonempty, hleading, hnearest⟩ := h
  by_cases hexponent : d.exponent < 0
  · -- the digits stand behind a zero, a point and more zeros
    have hplaced : Layout.placePoint true d =
        ['0'] ++ '.' :: (List.replicate (-d.exponent - 1).toNat '0' ++ d.digits) := by
      simp [Layout.placePoint, hexponent]
    have hplace : -((List.replicate (-d.exponent - 1).toNat '0' ++ d.digits).length : Int) =
        d.exponent + 1 - d.digits.length := by
      rw [List.length_append, List.length_replicate]
      omega
    rw [hplaced]
    refine exists_numeral_point hsign ⟨by simp, by simp⟩ (.inl rfl)
      ⟨by simp [hnonempty], List.forall_mem_append.2 ⟨digits_replicate _, d.isDigit⟩⟩ ?_
    rw [hplace, List.singleton_append, digitsValue_cons_zero, digitsValue_zeros_append, hnearest]
  · obtain ⟨whole, hwhole⟩ : ∃ whole, whole = d.exponent.toNat + 1 := ⟨_, rfl⟩
    by_cases hlong : d.digits.length ≤ whole
    · -- zeros fill up the whole part
      have hplaced : Layout.placePoint true d =
          (d.digits ++ List.replicate (whole - d.digits.length) '0') ++ '.' :: ['0'] := by
        simp only [Layout.placePoint, if_neg hexponent, ← hwhole, if_pos hlong, if_true]
      have hzeros : d.digits ++ List.replicate (whole - d.digits.length) '0' ++ ['0'] =
          d.digits ++ List.replicate (whole - d.digits.length + 1) '0' := by
        rw [List.append_assoc, List.replicate_succ']
      have hplace : -((['0'].length : Nat) : Int) + (whole - d.digits.length + 1 : Nat) =
          d.exponent + 1 - d.digits.length := by
        rw [List.length_singleton]
        omega
      rw [hplaced]
      refine exists_numeral_point hsign
        ⟨by simp [hnonempty], List.forall_mem_append.2 ⟨d.isDigit, digits_replicate _⟩⟩
        (.inr ?_) ⟨by simp, by simp⟩ ?_
      · rwa [List.head?_append_of_ne_nil _ hnonempty]
      · rw [hzeros, digitsValue_append_zeros, Double.ofDecimal_mul_pow, hplace, hnearest]
    · -- the point stands between the digits
      have hplaced : Layout.placePoint true d =
          d.digits.take whole ++ '.' :: d.digits.drop whole := by
        simp [Layout.placePoint, hexponent, ← hwhole, hlong]
      have hplace : -((d.digits.drop whole).length : Int) =
          d.exponent + 1 - d.digits.length := by
        rw [List.length_drop]
        omega
      rw [hplaced]
      refine exists_numeral_point hsign
        ⟨by simp [hnonempty, hwhole], fun c hc => d.isDigit c (List.mem_of_mem_take hc)⟩ (.inr ?_)
        ⟨by simpa using hlong, fun c hc => d.isDigit c (List.mem_of_mem_drop hc)⟩ ?_
      · rw [List.head?_take, if_neg (by omega)]
        exact hleading
      · rw [hplace, List.take_append_drop, hnearest]

theorem exponent_toDigits (e : Int) :
    Exponent ('e' :: (if e < 0 then '-' else '+') :: Nat.toDigits 10 e.natAbs) (some e) := by
  have hdigits := digits_toDigits e.natAbs
  have hmark : 'e' = 'e' ∨ 'e' = 'E' := .inl rfl
  by_cases he : e < 0
  · have hvalue : (if true = true then -(digitsValue (Nat.toDigits 10 e.natAbs) : Int)
        else digitsValue (Nat.toDigits 10 e.natAbs)) = e := by
      rw [if_pos rfl, digitsValue_toDigits]
      omega
    have hexponent := Exponent.present hmark .minus hdigits
    rw [hvalue] at hexponent
    rwa [if_pos he]
  · have hvalue : (if false = true then -(digitsValue (Nat.toDigits 10 e.natAbs) : Int)
        else digitsValue (Nat.toDigits 10 e.natAbs)) = e := by
      rw [if_neg Bool.false_ne_true, digitsValue_toDigits]
      omega
    have hexponent := Exponent.present hmark .plus hdigits
    rw [hvalue] at hexponent
    rwa [if_neg he]

theorem exists_numeral_scientific (h : d.Denotes x) (hsign : Sign sign x.negative) :
    ∃ p, Numeral (sign ++ Layout.scientific d) p ∧ p.nearest? = some x := by
  obtain ⟨hnonempty, hleading, hnearest⟩ := h
  have hdigit := d.isDigit
  unfold Layout.scientific
  cases hdigits : d.digits with
  | nil => exact absurd hdigits hnonempty
  | cons c rest =>
    rw [hdigits] at hnearest hdigit
    rw [List.forall_mem_cons] at hdigit
    have hfirst : Digits [c] := ⟨by simp, by simpa using hdigit.1⟩
    have hlength : (some d.exponent).getD 0 - rest.length =
        d.exponent + 1 - (c :: rest).length := by
      rw [Option.getD_some, List.length_cons]
      push_cast
      ring
    have hparts : Parts.nearest? ⟨x.negative, [c], rest, some d.exponent⟩ = some x := by
      rw [Parts.nearest?, hlength, List.singleton_append, hnearest]
    cases rest with
    | nil => exact ⟨_, .of hsign hfirst (.inl rfl) .absent (exponent_toDigits d.exponent), hparts⟩
    | cons c' rest =>
      have hfraction := Fraction.present ⟨by simp, hdigit.2⟩
      exact ⟨_, .of hsign hfirst (.inl rfl) hfraction (exponent_toDigits d.exponent), hparts⟩

theorem exists_numeral_zero (hx : x.magnitude = 0) (hsign : Sign sign x.negative) :
    ∃ p, Numeral (sign ++ ['0', '.', '0']) p ∧ p.nearest? = some x := by
  have hzero : Double.zero x.negative = x := by
    obtain ⟨negative, magnitude, hfinite⟩ := x
    cases hx
    rfl
  have hdigit : Digits ['0'] := ⟨by simp, by simp⟩
  have hvalue : digitsValue (['0'] ++ ['0']) = 0 := rfl
  refine exists_numeral_point hsign hdigit (.inl rfl) hdigit ?_
  rw [hvalue, Double.ofDecimal_zero, hzero]

/-- A sign is written, and digits around a point or before an exponent. -/
theorem exists_render_eq (x : Double) : ∃ sign body, Sign sign x.negative ∧
    (float x).render = sign ++ body ∧ (x.magnitude = 0 ∧ body = ['0', '.', '0'] ∨
      x.magnitude ≠ 0 ∧ (body = Layout.placePoint true (x.shortest .toEven) ∨
        body = Layout.scientific (x.shortest .toEven))) := by
  obtain ⟨body, hdef⟩ : ∃ body, body = if x.magnitude = 0 then ['0', '.', '0']
      else if -5 ≤ (x.shortest .toEven).exponent ∧ (x.shortest .toEven).exponent ≤ 15 then
        Layout.placePoint true (x.shortest .toEven)
      else Layout.scientific (x.shortest .toEven) := ⟨_, rfl⟩
  have hrender : (float x).render = if x.negative then '-' :: body else body := by
    show Layout.json.render x = _
    delta Layout.render
    simp [Layout.json, hdef]
  have hbody : x.magnitude = 0 ∧ body = ['0', '.', '0'] ∨
      x.magnitude ≠ 0 ∧ (body = Layout.placePoint true (x.shortest .toEven) ∨
        body = Layout.scientific (x.shortest .toEven)) := by
    rw [hdef]
    split
    · next hzero => exact .inl ⟨hzero, rfl⟩
    · next hx =>
      split
      · exact .inr ⟨hx, .inl rfl⟩
      · exact .inr ⟨hx, .inr rfl⟩
  cases hsign : x.negative with
  | false => exact ⟨[], body, .absent, by rw [hrender, hsign]; rfl, hbody⟩
  | true => exact ⟨['-'], body, .minus, by rw [hrender, hsign]; rfl, hbody⟩

/-- **The text of a double spells a decimal next to it.** -/
theorem exists_numeral_render (x : Double) :
    ∃ p, Numeral (float x).render p ∧ p.nearest? = some x := by
  obtain ⟨sign, body, hsign, hrender, hbody⟩ := exists_render_eq x
  rw [hrender]
  rcases hbody with ⟨hzero, rfl⟩ | ⟨hx, rfl | rfl⟩
  · exact exists_numeral_zero hzero hsign
  · exact exists_numeral_placePoint (x.denotes_shortest .toEven hx) hsign
  · exact exists_numeral_scientific (x.denotes_shortest .toEven hx) hsign

-- what is written is mostly read back, as `1.5` is, but `31.245270191439438` is read as the double
-- next to the one that is written so
example : (float ⟨false, 4609434218613702656, by decide⟩).ReadsBack := by decide +kernel
example : ¬(float ⟨false, 4629487979381582466, by decide⟩).ReadsBack := by decide +kernel

end Number

end EdgeFields
