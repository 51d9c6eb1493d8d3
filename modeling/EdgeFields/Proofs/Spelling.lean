/-
  EdgeFields/Proofs/Spelling.lean
  ===============================
  **Strings and integers are read back as they are written.**

  Both are written character by character, so what is to be shown is one statement on a single
  piece in front of any text: an escaped character of a string (`Json.scanString_escapeChar`),
  the digits of an integer.
-/
import EdgeFields.Json.Reader
import EdgeFields.Proofs.Literal

namespace EdgeFields

/-! ### Strings -/

namespace Json

theorem hexValue?_hexDigit {n : Nat} (h : n < 16) : hexValue? (hexDigit n) = some n := by
  have hall : ∀ n : Fin 16, hexValue? (hexDigit n) = some n.val := by decide
  exact hall ⟨n, h⟩

theorem hex4?_hexDigit {n : Nat} (h : n < 256) :
    hex4? '0' '0' (hexDigit (n / 16)) (hexDigit n) = some n := by
  have hlow : hexDigit n = hexDigit (n % 16) := by
    rw [hexDigit, hexDigit, Nat.mod_mod]
  have hzero : hexValue? '0' = some 0 := by decide
  rw [hex4?, hzero, hlow, hexValue?_hexDigit (n := n / 16) (by omega),
    hexValue?_hexDigit (n := n % 16) (by omega)]
  simp only [Option.bind_eq_bind, Option.bind_some, Option.pure_def, Option.some.injEq]
  omega

/-- **An escaped character is read as the character.** -/
theorem scanString_escapeChar (c : Char) (rest : List Char) :
    scanString (escapeChar c ++ rest) = (scanString rest).map fun (s, r) => (c :: s, r) := by
  unfold escapeChar
  split
  · next h => subst h; rfl
  split
  · next h => subst h; rfl
  split
  · next h => subst h; rfl
  split
  · next h => subst h; rfl
  split
  · next h => subst h; rfl
  split
  · next h => subst h; rfl
  split
  · next h => subst h; rfl
  split
  · next hcontrol =>
    have hhex : hex4? '0' '0' (hexDigit (c.toNat / 16)) (hexDigit c.toNat) = some c.toNat :=
      hex4?_hexDigit (by omega)
    simp only [List.cons_append, List.nil_append]
    rw [scanString, hhex]
    dsimp only
    rw [if_neg (by omega), if_neg (by omega), Char.ofNat_toNat]
  · next hquote hbackslash _ _ _ _ _ hcontrol =>
    simp only [List.cons_append, List.nil_append]
    rw [scanString.eq_def]
    split
    · simp_all
    · simp_all
    · simp_all
    · simp_all
    · next heq =>
      obtain ⟨rfl, rfl⟩ := List.cons.inj heq
      rw [if_neg hbackslash, if_neg hcontrol]

theorem scanString_escape (s rest : List Char) :
    scanString (s.flatMap escapeChar ++ '"' :: rest) = some (s, rest) := by
  induction s with
  | nil => rfl
  | cons c s ih =>
    rw [List.flatMap_cons, List.append_assoc, scanString_escapeChar, ih, Option.map_some]

end Json

/-! ### Integers -/

namespace Number

/-- The number is read back as it is written. -/
def ReadsBack (n : Number) : Prop := ofText? n.render = some n

instance (n : Number) : Decidable n.ReadsBack := inferInstanceAs (Decidable (_ = _))

theorem head?_toDigits {n : Nat} (h : 0 < n) : (Nat.toDigits 10 n).head? ≠ some '0' := by
  have hdigit : ∀ n : Fin 10, 0 < n.val → Nat.digitChar n.val ≠ '0' := by decide
  induction n using Nat.strongRecOn with
  | ind n ih =>
    rw [Nat.toDigits_eq_if (by decide)]
    split
    · next hlt => simpa using hdigit ⟨n, hlt⟩ h
    · rw [List.head?_append, Option.or_of_isSome (by simp)]
      exact ih (n / 10) (by omega) (by omega)

/-- A whole part as it is written has no zeros in front. -/
theorem toDigits_noZeros (n : Nat) :
    (Nat.toDigits 10 n).length = 1 ∨ (Nat.toDigits 10 n).head? ≠ some '0' := by
  cases n with
  | zero => exact .inl rfl
  | succ n => exact .inr (head?_toDigits (Nat.succ_pos n))

/-- **Integers that a literal can denote are read back.** -/
theorem readsBack_int {i : Int} (h : InRange i) : (int i).ReadsBack := by
  have hparts : ∀ negative, (if negative then -(i.natAbs : Int) else i.natAbs) = i →
      (negative && i == 0) = false →
        Parts.number? ⟨negative, Nat.toDigits 10 i.natAbs, [], none⟩ = some (int i) := by
    intro negative hvalue hzero
    unfold Parts.number?
    rw [digitsValue_toDigits]
    simp only [hvalue, hzero, h, List.isEmpty_nil, Option.isNone_none, decide_true, Bool.not_false,
      Bool.and_self, if_true]
  rw [ReadsBack, ofText?_eq_some_iff, render]
  have hdigits := digits_toDigits i.natAbs
  have hzeros := toDigits_noZeros i.natAbs
  split
  · next hneg =>
    have hnumeral := Numeral.of .minus hdigits hzeros .absent .absent
    simp only [List.cons_append, List.nil_append, List.append_nil] at hnumeral
    exact ⟨_, hnumeral,
      hparts true (by rw [if_pos rfl]; omega) (by rw [Bool.true_and, beq_eq_false_iff_ne]; omega)⟩
  · next hnonneg =>
    have hnumeral := Numeral.of .absent hdigits hzeros .absent .absent
    simp only [List.nil_append, List.append_nil] at hnumeral
    exact ⟨_, hnumeral, hparts false (by rw [if_neg Bool.false_ne_true]; omega) rfl⟩

end Number

end EdgeFields
