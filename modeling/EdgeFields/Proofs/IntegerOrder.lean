/-
  EdgeFields/Proofs/IntegerOrder.lean
  ===================================
  **The order of integers, compared as doubles.**

  Filters and schemas compare numbers by the doubles next to them. Rounding never turns an order
  around (`Double.key_ofInt_mono`), so two integers are compared as what they are, or they count
  as equal. The latter happens exactly if they differ and their doubles do not
  (`ComparedAs.int_iff_toldApart`). Up to `2 ^ 53` every integer is a double, and no other integer
  is rounded to one of those below. `2 ^ 53 + 1` is rounded to `2 ^ 53`.
-/
import EdgeFields.Filter.Basic
import EdgeFields.Proofs.SchemaMeaning

namespace EdgeFields

/-! ### Rounding keeps the order -/

namespace Double

theorem roundHalfEven_mono {num num' : Nat} (den : Nat) (h : num ≤ num') :
    roundHalfEven num den ≤ roundHalfEven num' den := by
  obtain ⟨_, hnum⟩ := roundHalfEven_bounds num den
  obtain ⟨hnum', _⟩ := roundHalfEven_bounds num' den
  rcases Nat.eq_or_lt_of_le (Nat.div_le_div_right (c := den) h) with heq | hlt
  · -- two numbers between the same neighbours
    have hdiv := Nat.div_add_mod num den
    have hdiv' := Nat.div_add_mod num' den
    have hmod : num % den ≤ num' % den := by
      rw [heq] at hdiv
      omega
    unfold roundHalfEven
    dsimp only
    rw [heq]
    split_ifs <;> omega
  · omega

theorem nearestScale_mono {num num' : Nat} (den : Nat) (h : num ≤ num') :
    nearestScale num den ≤ nearestScale num' den := by
  have hlog : Nat.log 2 (num * one / den) ≤ Nat.log 2 (num' * one / den) :=
    Nat.log_mono_right (Nat.div_le_div_right (Nat.mul_le_mul_right _ h))
  rw [nearestScale, nearestScale, Nat.log2_eq_log_two, Nat.log2_eq_log_two]
  omega

theorem nearestCode_mono {num num' : Nat} (den : Nat) (h : num ≤ num') :
    nearestCode num den ≤ nearestCode num' den := by
  rw [nearestCode_eq, nearestCode_eq]
  rcases Nat.eq_or_lt_of_le (nearestScale_mono den h) with heq | hlt
  · rw [heq]
    exact Nat.add_le_add_left (roundHalfEven_mono _ (Nat.mul_le_mul_right _ h)) _
  · -- the significand of the lower scale is at most the next power of two
    have hle := (scaled_nearest num den).le
    have hnormal := (scaled_nearest num' den).normal
    omega

/-- Up to `2 ^ 53` integers are not rounded. -/
theorem unitsOf_nearestCode_of_le {n : Nat} (h : n ≤ 2 ^ 53) :
    unitsOf (nearestCode n 1) = n * one := by
  rcases Nat.eq_zero_or_pos n with rfl | hn
  · refine unitsOf_nearestCode_of_dvd ?_
    rw [Nat.zero_mul one]
    exact Nat.dvd_zero _
  have hlog : (n * one).log2 = n.log2 + 1074 := log2_mul_two_pow hn.ne' 1074
  have hdvd : ∀ {k} t, k ≤ t + 1074 → 2 ^ t ∣ n → 2 ^ k ∣ n * one := by
    intro k t hk ht
    refine Nat.dvd_trans (Nat.pow_dvd_pow 2 hk) ?_
    rw [Nat.pow_add]
    exact Nat.mul_dvd_mul ht (two_pow_dvd_one (Nat.le_refl _))
  refine unitsOf_nearestCode_of_dvd ?_
  rw [nearestScale, Nat.div_one, hlog]
  rcases Nat.eq_or_lt_of_le h with rfl | hlt
  · rw [Nat.log2_two_pow]
    exact hdvd 53 (by decide) (Nat.dvd_refl _)
  · have hlt' : n.log2 < 53 := (Nat.log2_lt hn.ne').2 hlt
    exact hdvd 0 (by omega) (Nat.one_dvd n)

theorem nearestCode_lt {m n : Nat} (h : m < n) (hm : m < 2 ^ 53) :
    nearestCode m 1 < nearestCode n 1 := by
  have hnext : nearestCode m 1 < nearestCode (m + 1) 1 := by
    rw [← strictMono_unitsOf.lt_iff_lt, unitsOf_nearestCode_of_le (Nat.le_of_lt hm),
      unitsOf_nearestCode_of_le (Nat.succ_le_of_lt hm)]
    exact Nat.mul_lt_mul_of_pos_right (Nat.lt_succ_self m) one_pos
  exact Nat.lt_of_lt_of_le hnext (nearestCode_mono 1 h)

theorem magnitude_ofInt (i : Int) :
    (ofInt i).magnitude = min (nearestCode i.natAbs 1) (infinityCode - 1) := rfl

theorem key_ofInt (i : Int) : (ofInt i).key =
    if i < 0 then -((ofInt i).magnitude : Int) else (ofInt i).magnitude := by
  simp only [key, ofInt, decide_eq_true_eq]

variable {i j : Int}

theorem magnitude_ofInt_mono (h : i.natAbs ≤ j.natAbs) :
    (ofInt i).magnitude ≤ (ofInt j).magnitude := by
  rw [magnitude_ofInt, magnitude_ofInt]
  exact min_le_min_right _ (nearestCode_mono 1 h)

theorem magnitude_ofInt_lt (h : i.natAbs < j.natAbs) (hi : i.natAbs < 2 ^ 53) :
    (ofInt i).magnitude < (ofInt j).magnitude := by
  have hfinite : nearestCode (2 ^ 53) 1 ≤ infinityCode - 1 := by decide +kernel
  have htop : nearestCode i.natAbs 1 < infinityCode - 1 :=
    Nat.lt_of_lt_of_le (nearestCode_lt hi hi) hfinite
  rw [magnitude_ofInt, magnitude_ofInt, Nat.min_eq_left (Nat.le_of_lt htop)]
  exact lt_min (nearestCode_lt h hi) htop

theorem key_ofInt_mono (h : i ≤ j) : (ofInt i).key ≤ (ofInt j).key := by
  rw [key_ofInt, key_ofInt]
  by_cases hi : i < 0
  · by_cases hj : j < 0
    · have := magnitude_ofInt_mono (i := j) (j := i) (by omega)
      rw [if_pos hi, if_pos hj]
      omega
    · rw [if_pos hi, if_neg hj]
      omega
  · have := magnitude_ofInt_mono (i := i) (j := j) (by omega)
    rw [if_neg hi, if_neg (by omega)]
    omega

/-- The order is strict next to an integer that no other one is rounded to. -/
theorem key_ofInt_lt (h : i < j) (hexact : min i.natAbs j.natAbs < 2 ^ 53) :
    (ofInt i).key < (ofInt j).key := by
  rw [key_ofInt, key_ofInt]
  by_cases hi : i < 0
  · by_cases hj : j < 0
    · have := magnitude_ofInt_lt (i := j) (j := i) (by omega) (by omega)
      rw [if_pos hi, if_pos hj]
      omega
    · have := magnitude_ofInt_lt (i := 0) (j := i) (by omega) (by decide)
      rw [if_pos hi, if_neg hj]
      omega
  · have := magnitude_ofInt_lt (i := i) (j := j) (by omega) (by omega)
    rw [if_neg hi, if_neg (by omega)]
    omega

/-- Different integers are rounded to different numbers. -/
def ToldApart (i j : Int) : Prop := (ofInt i).value = (ofInt j).value → i = j

theorem toldApart_of_lt (h : min i.natAbs j.natAbs < 2 ^ 53) : ToldApart i j := by
  intro hvalue
  rcases Int.lt_trichotomy i j with hlt | heq | hgt
  · have hkey := (key_lt_iff _ _).1 (key_ofInt_lt hlt h)
    exact absurd hvalue hkey.ne
  · exact heq
  · have hkey := (key_lt_iff _ _).1 (key_ofInt_lt hgt (by omega))
    exact absurd hvalue hkey.ne'

theorem value_ofInt_lt_iff (h : ToldApart i j) : (ofInt i).value < (ofInt j).value ↔ i < j := by
  constructor
  · intro hlt
    refine lt_of_not_ge fun hle => ?_
    rw [← key_lt_iff] at hlt
    exact absurd hlt (not_lt.2 (key_ofInt_mono hle))
  · intro hlt
    have hle : (ofInt i).value ≤ (ofInt j).value := by
      rw [← not_lt, ← key_lt_iff, not_lt]
      exact key_ofInt_mono hlt.le
    exact lt_of_le_of_ne hle fun heq => hlt.ne (h heq)

theorem ToldApart.symm (h : ToldApart i j) : ToldApart j i := fun heq => (h heq.symm).symm

end Double

/-! ### Comparisons -/

namespace Operator

variable {α β : Type} [LinearOrder α] [LinearOrder β]

/-- The relation that an operator stands for among numbers. None contains another one or starts
    with it. -/
def Relates : Operator → α → α → Prop
  | equals, a, b => a = b
  | contains, _, _ => False
  | startsWith, _, _ => False
  | greaterThan, a, b => b < a
  | greaterThanOrEqual, a, b => b ≤ a
  | lessThan, a, b => a < b
  | lessThanOrEqual, a, b => a ≤ b

/-- The relations are about the order only. -/
theorem relates_congr {a b : α} {a' b' : β} (hlt : a < b ↔ a' < b') (hgt : b < a ↔ b' < a')
    (o : Operator) : o.Relates a b ↔ o.Relates a' b' := by
  have hle : a ≤ b ↔ a' ≤ b' := by rw [← not_lt, hgt, not_lt]
  have hge : b ≤ a ↔ b' ≤ a' := by rw [← not_lt, hlt, not_lt]
  cases o with
  | equals => exact le_antisymm_iff.trans ((and_congr hle hge).trans le_antisymm_iff.symm)
  | contains => exact Iff.rfl
  | startsWith => exact Iff.rfl
  | greaterThan => exact hgt
  | greaterThanOrEqual => exact hge
  | lessThan => exact hlt
  | lessThanOrEqual => exact hle

theorem satisfies_num_iff (o : Operator) (m n : Number) :
    (Json.num m).satisfies o (.num n) = true ↔ o.Relates m.toDouble.value n.toDouble.value := by
  have hcompare : (Json.num m).compare? (.num n) = some (Ord.compare m.toDouble n.toDouble) := rfl
  have hlt := Double.compare_lt_iff m.toDouble n.toDouble
  have hgt := Double.compare_gt_iff m.toDouble n.toDouble
  cases o with
  | equals =>
    simp only [Json.satisfies, Relates, hcompare, le_antisymm_iff, ← not_lt, ← hlt, ← hgt]
    cases Ord.compare m.toDouble n.toDouble <;> decide
  | contains => simp [Json.satisfies, Relates]
  | startsWith => simp [Json.satisfies, Relates]
  | greaterThan => simp [Json.satisfies, Relates, hcompare, hgt]
  | greaterThanOrEqual =>
    simp only [Json.satisfies, Relates, hcompare, Option.any_some, bne_iff_ne, ne_eq, hlt, not_lt]
  | lessThan => simp [Json.satisfies, Relates, hcompare, hlt]
  | lessThanOrEqual =>
    simp only [Json.satisfies, Relates, hcompare, Option.any_some, bne_iff_ne, ne_eq, hgt, not_lt]

end Operator

namespace Schema

variable {keywords keywords' : Members} {key : String} {path : Location} {n : Number}

/-- Of a number the keywords for its type, its values and its range are tested. -/
theorem validateAt_num : validateAt (.obj keywords) path (.num n) = .ok () ↔
    validateType keywords path (.num n) = .ok () ∧ validateEnum keywords path (.num n) = .ok () ∧
    (∀ m, Dict.get? keywords "minimum" = some (.num m) → m.toDouble.value ≤ n.toDouble.value) ∧
    ∀ m, Dict.get? keywords "maximum" = some (.num m) → n.toDouble.value ≤ m.toDouble.value := by
  rw [validateAt_obj]
  simp [Result.seq_eq_ok, validateRange_eq_ok, validateNested, validateLength]

theorem validateAt_num_minimum (keywords : Members) (path : Location) (m n : Number) :
    validateAt (.obj (Dict.insert "minimum" (.num m) keywords)) path (.num n) = .ok () ↔
      validateAt (.obj (Dict.erase "minimum" keywords)) path (.num n) = .ok () ∧
        m.toDouble.value ≤ n.toDouble.value := by
  simp only [validateAt_num, validateType, validateEnum, Dict.get?_insert, Dict.get?_erase]
  simp only [reduceIte, String.reduceEq, Option.some.injEq, Json.num.injEq, forall_eq',
    reduceCtorEq, false_imp_iff, implies_true, true_and]
  tauto

theorem validateAt_num_maximum (keywords : Members) (path : Location) (m n : Number) :
    validateAt (.obj (Dict.insert "maximum" (.num m) keywords)) path (.num n) = .ok () ↔
      validateAt (.obj (Dict.erase "maximum" keywords)) path (.num n) = .ok () ∧
        n.toDouble.value ≤ m.toDouble.value := by
  simp only [validateAt_num, validateType, validateEnum, Dict.get?_insert, Dict.get?_erase]
  simp only [reduceIte, String.reduceEq, Option.some.injEq, Json.num.injEq, forall_eq',
    reduceCtorEq, false_imp_iff, implies_true]
  tauto

end Schema

/-! ### Integers -/

/-- Filters and schemas compare the integer `i` of a document with the integer `j` that is asked
    for as `a` compares with `b`. -/
structure ComparedAs {α : Type} [LinearOrder α] (i j : Int) (a b : α) : Prop where
  filter : ∀ (p : Pointer) (o : Operator) (d : Json), p.resolve d = some (.num (.int i)) →
    ((Filter.compare p o (.num (.int j))).accepts d = true ↔ o.Relates a b)
  minimum : ∀ keywords path,
    Schema.validateAt (.obj (Dict.insert "minimum" (.num (.int j)) keywords)) path
        (.num (.int i)) = .ok () ↔
      Schema.validateAt (.obj (Dict.erase "minimum" keywords)) path (.num (.int i)) = .ok () ∧ b ≤ a
  maximum : ∀ keywords path,
    Schema.validateAt (.obj (Dict.insert "maximum" (.num (.int j)) keywords)) path
        (.num (.int i)) = .ok () ↔
      Schema.validateAt (.obj (Dict.erase "maximum" keywords)) path (.num (.int i)) = .ok () ∧ a ≤ b

namespace ComparedAs

open Double (ofInt ToldApart)

variable {α β : Type} [LinearOrder α] [LinearOrder β] {i j : Int}

theorem value (i j : Int) : ComparedAs i j (ofInt i).value (ofInt j).value where
  filter := by
    intro p o d hresolve
    have haccepts : (Filter.compare p o (.num (.int j))).accepts d =
        Filter.valueMatches o (.num (.int j)) (.num (.int i)) := by
      rw [Filter.accepts, hresolve, Option.any_some]
    have hmatches : Filter.valueMatches o (.num (.int j)) (.num (.int i)) =
        (Json.num (.int i)).satisfies o (.num (.int j)) := by
      cases o <;> rfl
    rw [haccepts, hmatches]
    exact o.satisfies_num_iff (.int i) (.int j)
  minimum := fun keywords path => Schema.validateAt_num_minimum keywords path (.int j) (.int i)
  maximum := fun keywords path => Schema.validateAt_num_maximum keywords path (.int j) (.int i)

theorem congr {a b : α} {a' b' : β} (h : ComparedAs i j a b) (hlt : a < b ↔ a' < b')
    (hgt : b < a ↔ b' < a') : ComparedAs i j a' b' where
  filter := fun p o d hresolve => (h.filter p o d hresolve).trans (o.relates_congr hlt hgt)
  minimum := by
    intro keywords path
    rw [h.minimum, ← not_lt, hlt, not_lt]
  maximum := by
    intro keywords path
    rw [h.maximum, ← not_lt, hgt, not_lt]

/-- **Integers are compared as integers exactly if doubles tell them apart.**  So they are if one
    of the two is below `2 ^ 53`, and if they are not they count as equal. -/
theorem int_iff_toldApart (i j : Int) :
    (ComparedAs i j i j ↔ ToldApart i j) ∧
    (min i.natAbs j.natAbs < 2 ^ 53 → ToldApart i j) ∧
    (¬ToldApart i j → ComparedAs i j i i) := by
  refine ⟨⟨?_, ?_⟩, Double.toldApart_of_lt, ?_⟩
  · intro h hvalue
    -- under `eq` the double is all that counts
    have hresolve : Pointer.root.resolve (.num (.int i)) = some (.num (.int i)) := rfl
    have hequals := h.filter _ .equals _ hresolve
    exact hequals.1 (((value i j).filter _ .equals _ hresolve).2 hvalue)
  · intro h
    exact (value i j).congr (Double.value_ofInt_lt_iff h) (Double.value_ofInt_lt_iff h.symm)
  · intro h
    have hvalue : (ofInt i).value = (ofInt j).value := by
      by_contra hne
      exact h fun heq => absurd heq hne
    refine (value i j).congr ?_ ?_ <;> simp [hvalue]

/-- The double next to `2 ^ 53 + 1` is `2 ^ 53`. -/
theorem not_toldApart_two_pow : ¬ToldApart 9007199254740992 9007199254740993 := by
  intro h
  have hvalue : ofInt 9007199254740992 = ofInt 9007199254740993 := by decide +kernel
  exact absurd (h (congrArg Double.value hvalue)) (by decide)

/-- Below `2 ^ 53` integers are compared as integers, and from there on some count as equal. -/
theorem int_iff_toldApart_two_pow :
    ComparedAs 9007199254740991 9007199254740992 (9007199254740991 : Int) 9007199254740992 ∧
    ComparedAs 9007199254740992 9007199254740993 (9007199254740992 : Int) 9007199254740992 := by
  obtain ⟨hexact, hbelow, _⟩ := int_iff_toldApart 9007199254740991 9007199254740992
  obtain ⟨_, _, hequal⟩ := int_iff_toldApart 9007199254740992 9007199254740993
  exact ⟨hexact.2 (hbelow (by decide)), hequal not_toldApart_two_pow⟩

/-- **`2 ^ 53` is taken to be equal to `2 ^ 53 + 1`**, and to be at least as large. -/
theorem two_pow_counts_as_next :
    (Filter.compare (.field "n") .equals (.num (.int 9007199254740993))).accepts
      (.obj [("n", .num (.int 9007199254740992))]) = true ∧
    Schema.validate (.obj [("properties", .obj [("n",
        .obj [("minimum", .num (.int 9007199254740993))])])])
      [("n", .num (.int 9007199254740992))] = .ok () ∧
    ¬ComparedAs 9007199254740992 9007199254740993 (9007199254740992 : Int) 9007199254740993 := by
  have haccepts : (Filter.compare (.field "n") .equals (.num (.int 9007199254740993))).accepts
      (.obj [("n", .num (.int 9007199254740992))]) = true := by decide +kernel
  have hvalid : (Schema.validate (.obj [("properties", .obj [("n",
      .obj [("minimum", .num (.int 9007199254740993))])])])
        [("n", .num (.int 9007199254740992))]).isOk = true := by decide +kernel
  obtain ⟨_, hvalid⟩ := Result.eq_ok_of_isOk hvalid
  refine ⟨haccepts, hvalid, fun h => ?_⟩
  have hequals := (h.filter (.field "n") .equals (.obj [("n", .num (.int 9007199254740992))]) rfl).1
    haccepts
  exact absurd hequals (by decide : ¬(9007199254740992 : Int) = 9007199254740993)

end ComparedAs

end EdgeFields
