/-
  EdgeFields/Proofs/Literal.lean
  ==============================
  **The number literals of JSON.**

  A numeral is a sign, a whole part without zeros in front, a fraction and an exponent, of
  which only the whole part is always there (`Number.Numeral`). The reader takes the longest
  run of digits wherever digits may stand. It finds the parts of every numeral all the same,
  since no part begins with a digit except behind a part that ends with something else
  (`Number.scanParts_eq_some_iff`). A literal is a numeral whose parts denote a number, which
  they do unless they are too large for a double.
-/
import EdgeFields.Json.Number

namespace EdgeFields.Number

variable {cs ds rest : List Char}

/-! ### The parts of a literal -/

/-- One or more digits. -/
def Digits (ds : List Char) : Prop := ds ≠ [] ∧ ∀ c ∈ ds, c.isDigit = true

/-- A sign, and whether it makes the number negative. -/
inductive Sign : List Char → Bool → Prop
  | absent : Sign [] false
  | minus : Sign ['-'] true

/-- A fraction and its digits. -/
inductive Fraction : List Char → List Char → Prop
  | absent : Fraction [] []
  | present {ds : List Char} (h : Digits ds) : Fraction ('.' :: ds) ds

/-- The sign of an exponent, and whether it makes the exponent negative. -/
inductive ExponentSign : List Char → Bool → Prop
  | absent : ExponentSign [] false
  | plus : ExponentSign ['+'] false
  | minus : ExponentSign ['-'] true

/-- An exponent and its value. -/
inductive Exponent : List Char → Option Int → Prop
  | absent : Exponent [] none
  | present {mark : Char} {sign ds : List Char} {negative : Bool}
    (hmark : mark = 'e' ∨ mark = 'E') (hsign : ExponentSign sign negative) (h : Digits ds) :
    Exponent (mark :: (sign ++ ds))
      (some (if negative then -(digitsValue ds : Int) else digitsValue ds))

/-- A text and the parts that it spells. -/
inductive Numeral : List Char → Parts → Prop
  | of {sign whole point power fraction : List Char} {negative : Bool} {exponent : Option Int}
    (hsign : Sign sign negative) (hwhole : Digits whole)
    (hzero : whole.length = 1 ∨ whole.head? ≠ some '0') (hfraction : Fraction point fraction)
    (hexponent : Exponent power exponent) :
    Numeral (sign ++ (whole ++ (point ++ power))) ⟨negative, whole, fraction, exponent⟩

/-- A literal and the number that it denotes. -/
def Literal (cs : List Char) (n : Number) : Prop := ∃ p, Numeral cs p ∧ p.number? = some n

/-! ### Runs of digits -/

/-- A text that does not begin with a digit. -/
def NoDigit (cs : List Char) : Prop := ∀ c rest, cs = c :: rest → c.isDigit = false

theorem spanDigits_append (hds : ∀ c ∈ ds, c.isDigit = true) (hrest : NoDigit rest) :
    spanDigits (ds ++ rest) = (ds, rest) := by
  have hstop : rest.takeWhile Char.isDigit = [] ∧ rest.dropWhile Char.isDigit = rest := by
    cases rest with
    | nil => exact ⟨rfl, rfl⟩
    | cons c cs =>
      have hc := hrest c cs rfl
      exact ⟨List.takeWhile_cons_of_neg (by simp [hc]), List.dropWhile_cons_of_neg (by simp [hc])⟩
  rw [spanDigits, List.takeWhile_append_of_pos hds, List.dropWhile_append_of_pos hds, hstop.1,
    hstop.2, List.append_nil]

/-- What is taken and what is left make up the text. -/
theorem spanDigits_eq (h : spanDigits cs = (ds, rest)) :
    cs = ds ++ rest ∧ ∀ c ∈ ds, c.isDigit = true := by
  obtain ⟨rfl, rfl⟩ := Prod.mk.inj h
  exact ⟨List.takeWhile_append_dropWhile.symm,
    fun c hc => List.all_eq_true.1 List.all_takeWhile c hc⟩

theorem Digits.spanDigits (h : Digits ds) (hrest : NoDigit rest) :
    Number.spanDigits (ds ++ rest) = (ds, rest) :=
  spanDigits_append h.2 hrest

theorem digitsValue_eq (ds : List Char) : digitsValue ds = Nat.ofDigitChars 10 ds 0 :=
  Nat.ofDigitChars_eq_foldl.symm

theorem digitsValue_toDigits (n : Nat) : digitsValue (Nat.toDigits 10 n) = n :=
  (digitsValue_eq _).trans Nat.ofDigitChars_ten_toDigits

theorem digits_toDigits (n : Nat) : Digits (Nat.toDigits 10 n) :=
  ⟨Nat.toDigits_ne_nil, fun _ hc => Nat.isDigit_of_mem_toDigits (by decide) (by decide) hc⟩

/-! ### Scanning the parts -/

theorem Exponent.noDigit {power : List Char} {exponent : Option Int}
    (h : Exponent power exponent) : NoDigit power := by
  intro c rest heq
  cases h with
  | absent => cases heq
  | present hmark hsign h =>
    cases heq
    rcases hmark with rfl | rfl <;> decide

theorem Exponent.noPoint {power : List Char} {exponent : Option Int}
    (h : Exponent power exponent) : ∀ rest, power ≠ '.' :: rest := by
  rintro rest rfl
  cases h with
  | present hmark hsign h => rcases hmark with hmark | hmark <;> cases hmark

theorem Fraction.noDigit {point fraction power : List Char} {exponent : Option Int}
    (hfraction : Fraction point fraction) (hexponent : Exponent power exponent) :
    NoDigit (point ++ power) := by
  cases hfraction with
  | absent => exact hexponent.noDigit
  | present h =>
    intro c rest heq
    cases heq
    decide

/-- Digits that make up a whole text. -/
theorem Digits.spanDigits_self (h : Digits ds) : Number.spanDigits ds = (ds, []) := by
  have hspan : Number.spanDigits (ds ++ []) = (ds, []) := h.spanDigits fun _ _ heq => by cases heq
  rwa [List.append_nil] at hspan

/-- A run of digits begins with no sign. -/
theorem Digits.ne_cons {c : Char} (h : Digits ds) (hc : c.isDigit = false) (rest : List Char) :
    ds ≠ c :: rest := by
  rintro rfl
  rw [h.2 c List.mem_cons_self] at hc
  cases hc

/-- What the digits behind a sign are read as. -/
theorem Digits.scanned (h : Digits ds) (negative : Bool) :
    (match Number.spanDigits ds with
      | ([], _) => none
      | (ds, rest) => some (if negative then -(digitsValue ds : Int) else digitsValue ds, rest)) =
    some (if negative then -(digitsValue ds : Int) else digitsValue ds, []) := by
  rw [h.spanDigits_self]
  split
  · next heq => exact absurd (Prod.mk.inj heq).1 h.1
  · next heq => rw [← (Prod.mk.inj heq).1, ← (Prod.mk.inj heq).2]

theorem ExponentSign.scan {sign : List Char} {negative : Bool} (hsign : ExponentSign sign negative)
    (h : Digits ds) :
    scanSigned (sign ++ ds) =
      some (if negative then -(digitsValue ds : Int) else digitsValue ds, []) := by
  cases hsign with
  | plus => exact h.scanned false
  | minus => exact h.scanned true
  | absent =>
    rw [List.nil_append, scanSigned.eq_3 ds (h.ne_cons (by decide)) (h.ne_cons (by decide))]
    exact h.scanned false

theorem sign_of_scan {e : Int} (h : scanSigned cs = some (e, [])) :
    ∃ sign ds negative, ExponentSign sign negative ∧ Digits ds ∧ cs = sign ++ ds ∧
      e = if negative then -(digitsValue ds : Int) else digitsValue ds := by
  revert h
  fun_cases scanSigned cs with
  | case1 => intro h; cases h
  | case2 negative digits hsplit ds rest hne hspan =>
    intro h
    cases h
    obtain ⟨hdigits, hall⟩ := spanDigits_eq hspan
    rw [List.append_nil] at hdigits
    subst hdigits
    obtain ⟨sign, hsign, rfl⟩ : ∃ sign, ExponentSign sign negative ∧ cs = sign ++ digits := by
      split at hsplit <;> cases hsplit
      · exact ⟨_, .plus, rfl⟩
      · exact ⟨_, .minus, rfl⟩
      · exact ⟨_, .absent, rfl⟩
    exact ⟨sign, digits, negative, hsign, ⟨hne, hall⟩, rfl, rfl⟩

theorem scanExponent_eq_some_iff {exponent : Option Int} :
    scanExponent cs = some (exponent, []) ↔ Exponent cs exponent := by
  constructor
  · intro h
    cases cs with
    | nil =>
      cases h
      exact .absent
    | cons mark rest =>
      rw [scanExponent] at h
      split at h
      · next hmark =>
        obtain ⟨⟨e, rest'⟩, hscan, heq⟩ := Option.map_eq_some_iff.1 h
        cases heq
        obtain ⟨sign, ds, negative, hsign, hdigits, rfl, rfl⟩ := sign_of_scan hscan
        exact .present (by simpa using hmark) hsign hdigits
      · cases h
  · intro h
    cases h with
    | absent => rfl
    | present hmark hsign hdigits =>
      have hif : ∀ mark : Char, mark = 'e' ∨ mark = 'E' →
          (mark == 'e' || mark == 'E') = true := by
        intro mark hmark
        simpa using hmark
      rw [scanExponent, if_pos (hif _ hmark), hsign.scan hdigits]
      rfl

theorem Fraction.scan {point fraction power : List Char} {exponent : Option Int}
    (hfraction : Fraction point fraction) (hexponent : Exponent power exponent) :
    scanFraction (point ++ power) = some (fraction, power) := by
  cases hfraction with
  | absent =>
    unfold scanFraction
    split
    · next heq => exact absurd heq (hexponent.noPoint _)
    · rfl
  | present h =>
    rw [List.cons_append, scanFraction, h.spanDigits hexponent.noDigit]
    split
    · next heq => exact absurd (Prod.mk.inj heq).1 h.1
    · next heq => rw [← (Prod.mk.inj heq).1, ← (Prod.mk.inj heq).2]

theorem fraction_of_scan (h : scanFraction cs = some (ds, rest)) :
    ∃ point, Fraction point ds ∧ cs = point ++ rest := by
  unfold scanFraction at h
  split at h
  · next digits =>
    split at h
    · cases h
    · next run left hne hspan =>
      cases h
      obtain ⟨rfl, hall⟩ := spanDigits_eq hspan
      exact ⟨_, .present ⟨hne, hall⟩, rfl⟩
  · cases h
    exact ⟨[], .absent, rfl⟩

/-! ### Numerals -/

variable {p : Parts} {n : Number}

theorem guard_eq_ite (p : Prop) [Decidable p] :
    (guard p : Option Unit) = if p then some () else none := rfl

theorem Numeral.scan (h : Numeral cs p) : scanParts cs = some (p, []) := by
  obtain ⟨hsign, hwhole, hzero, hfraction, hexponent⟩ := h
  next sign whole point power fraction negative exponent =>
  have hguard : (!whole.isEmpty && (whole.length == 1 || whole.head? != some '0')) = true := by
    simpa using ⟨hwhole.1, hzero⟩
  fun_cases scanParts (sign ++ (whole ++ (point ++ power))) with
  | case1 minus unsigned hsplit run rest hspan =>
    obtain ⟨rfl, rfl⟩ : minus = negative ∧ unsigned = whole ++ (point ++ power) := by
      cases hsign with
      | minus =>
        cases hsplit
        exact ⟨rfl, rfl⟩
      | absent =>
        split at hsplit
        · next heq =>
          obtain ⟨c, cs, rfl⟩ := List.exists_cons_of_ne_nil hwhole.1
          cases heq
          exact absurd rfl (hwhole.ne_cons (by decide) _)
        · cases hsplit
          exact ⟨rfl, rfl⟩
    rw [hwhole.spanDigits (hfraction.noDigit hexponent)] at hspan
    cases hspan
    rw [guard_eq_ite, if_pos hguard]
    simp only [hfraction.scan hexponent, scanExponent_eq_some_iff.2 hexponent,
      Option.bind_eq_bind, Option.bind_some]
    rfl

theorem numeral_of_scan (h : scanParts cs = some (p, [])) : Numeral cs p := by
  revert h
  fun_cases scanParts cs with
  | case1 negative unsigned hsplit whole rest hspan =>
    rw [guard_eq_ite]
    simp only [Option.bind_eq_bind, Option.bind_eq_some_iff]
    rintro ⟨_, hguard, ⟨fraction, power⟩, hfraction, ⟨exponent, rest'⟩, hexponent, heq⟩
    cases heq
    obtain ⟨rfl, hall⟩ := spanDigits_eq hspan
    obtain ⟨point, hpoint, rfl⟩ := fraction_of_scan hfraction
    have hpower := scanExponent_eq_some_iff.1 hexponent
    obtain ⟨sign, hsign, rfl⟩ : ∃ sign, Sign sign negative ∧
        cs = sign ++ (whole ++ (point ++ power)) := by
      split at hsplit <;> cases hsplit
      · exact ⟨_, .minus, rfl⟩
      · exact ⟨_, .absent, rfl⟩
    split at hguard
    · next hwhole =>
      rw [Bool.and_eq_true] at hwhole
      exact .of hsign ⟨by simpa using hwhole.1, hall⟩ (by simpa using hwhole.2) hpoint hpower
    · cases hguard

/-- **The parts of a whole text are found exactly if it spells them.** -/
theorem scanParts_eq_some_iff : scanParts cs = some (p, []) ↔ Numeral cs p :=
  ⟨numeral_of_scan, Numeral.scan⟩

/-- A text spells its parts in one way. -/
theorem Numeral.unique {p' : Parts} (h : Numeral cs p) (h' : Numeral cs p') : p = p' := by
  have hscan := h.scan
  rw [h'.scan] at hscan
  cases hscan
  rfl

/-- The characters of a numeral: digits, signs, a point and the mark of an exponent. -/
theorem Numeral.mem (h : Numeral cs p) {c : Char} (hc : c ∈ cs) :
    c.isDigit = true ∨ c ∈ ['-', '+', '.', 'e', 'E'] := by
  obtain ⟨hsign, hwhole, _, hfraction, hexponent⟩ := h
  rw [List.mem_append, List.mem_append, List.mem_append] at hc
  rcases hc with hc | hc | hc | hc
  · cases hsign with
    | absent => cases hc
    | minus => simp_all
  · exact .inl (hwhole.2 c hc)
  · cases hfraction with
    | absent => cases hc
    | present h =>
      rcases List.mem_cons.1 hc with rfl | hc
      · exact .inr (by decide)
      · exact .inl (h.2 c hc)
  · cases hexponent with
    | absent => cases hc
    | present hmark hsign h =>
      rw [List.mem_cons, List.mem_append] at hc
      rcases hc with rfl | hc | hc
      · rcases hmark with rfl | rfl <;> exact .inr (by decide)
      · cases hsign <;> simp_all
      · exact .inl (h.2 c hc)

theorem Numeral.ne_nil (h : Numeral cs p) : cs ≠ [] := by
  obtain ⟨_, hwhole, _, _, _⟩ := h
  simp [hwhole.1]

/-! ### Literals -/

theorem Literal.mem (h : Literal cs n) {c : Char} (hc : c ∈ cs) :
    c.isDigit = true ∨ c ∈ ['-', '+', '.', 'e', 'E'] := by
  obtain ⟨_, hnumeral, _⟩ := h
  exact hnumeral.mem hc

theorem Literal.ne_nil (h : Literal cs n) : cs ≠ [] := by
  obtain ⟨_, hnumeral, _⟩ := h
  exact hnumeral.ne_nil

/-- **A text is read as a number exactly if it is a literal for it.** -/
theorem ofText?_eq_some_iff : ofText? cs = some n ↔ Literal cs n := by
  have hscan : ofText? cs = some n ↔ scan? cs = some (n, []) := by
    unfold ofText?
    split <;> simp_all
  have hparts : scan? cs = some (n, []) ↔
      ∃ p, scanParts cs = some (p, []) ∧ p.number? = some n := by
    simp only [scan?, Option.bind_eq_bind, Option.bind_eq_some_iff, Option.pure_def,
      Option.some.injEq, Prod.mk.injEq, Prod.exists]
    constructor
    · rintro ⟨p, _, hp, _, hn, rfl, rfl⟩
      exact ⟨p, hp, hn⟩
    · rintro ⟨p, hp, hn⟩
      exact ⟨p, [], hp, n, hn, rfl, rfl⟩
  rw [hscan, hparts]
  exact exists_congr fun p => and_congr_left fun _ => scanParts_eq_some_iff

end EdgeFields.Number
