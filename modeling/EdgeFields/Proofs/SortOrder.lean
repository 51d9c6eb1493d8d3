/-
  EdgeFields/Proofs/SortOrder.lean
  ================================
  **The order of sorted results.**

  Values of different kinds are compared by their text, of which the first character tells the
  kind already, so that the kinds follow each other in one fixed order (`Json.lead`).  Numbers
  and strings have an order of their own, and arrays and objects that are not equal go by
  their text again.  All this is a lexicographic order (`Json.standing`), except for one thing:
  arrays or objects that are equal as documents tie, and two of them may have different texts,
  since the two zeros are equal and printed differently.

  Main statements: the order is reflexive and turns around with its operands, and it is
  transitive on values of which those that are equal print alike.  There sorting is stable and
  leaves the items in order.  Two values that tie and do not print alike have a third one
  between them, so that the condition is needed wherever it is not met.
-/
import EdgeFields.Proofs.Literal
import EdgeFields.Request

namespace EdgeFields

open Std (TransCmp OrientedCmp ReflCmp)

/-! ### Sorting -/

theorem SortKey.sort_map {α β : Type} (keys : List SortKey) (document : β → Json) (f : α → β)
    (items : List α) :
    sort keys document (items.map f) = (sort keys (fun a => document (f a)) items).map f := by
  unfold sort
  split
  · rfl
  · exact (List.map_mergeSort (f := f) fun _ _ _ _ => rfl).symm

theorem SortKey.sort_perm {α : Type} (keys : List SortKey) (document : α → Json)
    (items : List α) : (sort keys document items).Perm items := by
  unfold sort
  split
  · exact List.Perm.refl _
  · exact List.mergeSort_perm _ _

/-! ### The first character of a text -/

/-- A text that begins with a digit. -/
def StartsWithDigit (cs : List Char) : Prop := ∃ c rest, cs = c :: rest ∧ c.isDigit = true

theorem startsWithDigit_of_forall {cs : List Char} (hne : cs ≠ [])
    (h : ∀ c ∈ cs, c.isDigit = true) : StartsWithDigit cs := by
  cases cs with
  | nil => exact absurd rfl hne
  | cons c rest => exact ⟨c, rest, rfl, h c (by simp)⟩

theorem StartsWithDigit.append {cs : List Char} (h : StartsWithDigit cs) (ds : List Char) :
    StartsWithDigit (cs ++ ds) := by
  obtain ⟨c, rest, rfl, hc⟩ := h
  exact ⟨c, rest ++ ds, rfl, hc⟩

theorem startsWithDigit_zero (cs : List Char) : StartsWithDigit ('0' :: cs) :=
  ⟨'0', cs, rfl, by decide⟩

theorem startsWithDigit_toDigits (n : Nat) : StartsWithDigit (Nat.toDigits 10 n) :=
  startsWithDigit_of_forall (Number.digits_toDigits n).1 (Number.digits_toDigits n).2

namespace Layout

theorem startsWithDigit_placePoint (pointZero : Bool) (d : Decimal) :
    StartsWithDigit (placePoint pointZero d) := by
  unfold placePoint
  by_cases hexponent : d.exponent < 0
  · simp only [hexponent, if_true]
    exact startsWithDigit_zero _
  · simp only [hexponent, if_false]
    by_cases hlength : d.digits.length ≤ d.exponent.toNat + 1
    · simp only [hlength, if_true]
      refine StartsWithDigit.append (startsWithDigit_of_forall ?_ ?_) _
      · intro hnil
        have hlength' := congrArg List.length hnil
        rw [List.length_append, List.length_replicate, List.length_nil] at hlength'
        omega
      · intro c hc
        rcases List.mem_append.1 hc with hc | hc
        · exact d.isDigit c hc
        · rw [List.eq_of_mem_replicate hc]
          decide
    · simp only [hlength, if_false]
      refine StartsWithDigit.append (startsWithDigit_of_forall ?_ ?_) _
      · intro hnil
        have hlength' := congrArg List.length hnil
        rw [List.length_take, List.length_nil] at hlength'
        omega
      · exact fun c hc => d.isDigit c (List.mem_of_mem_take hc)

theorem startsWithDigit_scientific (d : Decimal) : StartsWithDigit (scientific d) := by
  unfold scientific
  refine StartsWithDigit.append ?_ _
  have hdigit := d.isDigit
  cases hdigits : d.digits with
  | nil => exact startsWithDigit_zero _
  | cons c rest =>
    have hc := hdigit c (by simp [hdigits])
    cases rest with
    | nil => exact ⟨c, _, rfl, hc⟩
    | cons c' rest => exact ⟨c, _, rfl, hc⟩

/-- The text of a double begins with a digit, or with a minus sign. -/
theorem render_cases (l : Layout) (x : Double) :
    (∃ rest, l.render x = '-' :: rest) ∨ StartsWithDigit (l.render x) := by
  delta render
  -- which digits they are plays no part, and evaluating them takes long
  generalize x.shortest l.tie = d
  dsimp only
  have hbody : StartsWithDigit (if x.magnitude = 0 then
      '0' :: (if l.pointZero = true then ['.', '0'] else [])
    else if l.positional d.exponent = true then placePoint l.pointZero d else scientific d) := by
    split
    · exact startsWithDigit_zero _
    · split
      · exact startsWithDigit_placePoint _ _
      · exact startsWithDigit_scientific _
  split
  · exact .inl ⟨_, rfl⟩
  · exact .inr hbody

end Layout

theorem Number.render_cases (n : Number) :
    (∃ rest, n.render = '-' :: rest) ∨ StartsWithDigit n.render := by
  cases n with
  | int i =>
    unfold Number.render
    by_cases hi : i < 0
    · simp only [hi, if_true]
      exact .inl ⟨_, rfl⟩
    · simp only [hi, if_false]
      exact .inr (startsWithDigit_toDigits _)
  | float x => exact Layout.json.render_cases x

namespace Json

/-- The code of the first character of a value's text, where digits count as a minus sign. -/
def lead : Json → Nat
  | str _ => '"'.toNat
  | num _ => '-'.toNat
  | arr _ => '['.toNat
  | bool false => 'f'.toNat
  | null => 'n'.toNat
  | bool true => 't'.toNat
  | obj _ => '\x7b'.toNat

/-- Nothing but a number begins like a number. -/
theorem lead_eq_or (x : Json) :
    x.lead = '-'.toNat ∨ x.lead < '-'.toNat ∨ '9'.toNat < x.lead := by
  cases x with
  | bool b => cases b <;> simp [lead]
  | _ => simp [lead]

theorem render_lead (x : Json) : ∃ c rest, x.render = c :: rest ∧
    (c.toNat = x.lead ∨ x.lead = '-'.toNat ∧ '0'.toNat ≤ c.toNat ∧ c.toNat ≤ '9'.toNat) := by
  match x with
  | null => exact ⟨_, _, rfl, .inl rfl⟩
  | bool false => exact ⟨_, _, rfl, .inl rfl⟩
  | bool true => exact ⟨_, _, rfl, .inl rfl⟩
  | str _ => exact ⟨_, _, rfl, .inl rfl⟩
  | arr _ => exact ⟨_, _, rfl, .inl rfl⟩
  | obj _ => exact ⟨_, _, rfl, .inl rfl⟩
  | num n =>
    rcases n.render_cases with ⟨rest, h⟩ | ⟨c, rest, h, hc⟩
    · exact ⟨'-', rest, h, .inl rfl⟩
    · refine ⟨c, rest, h, .inr ⟨rfl, ?_⟩⟩
      simpa [Char.isDigit, UInt32.le_iff_toNat_le] using hc

theorem compare_text_of_lt {x y : Json} (h : x.render < y.render) :
    compare x.text y.text = .lt := by
  have hlt : x.text < y.text := by
    rw [String.lt_iff]
    simpa [text] using h
  simp [compare, String.compare, compareOfLessAndEq, hlt]

/-- Values of different kinds are told apart by the first character of their texts. -/
theorem compare_text_of_lead_lt {x y : Json} (h : x.lead < y.lead) :
    compare x.text y.text = .lt := by
  obtain ⟨c, rest, hx, hc⟩ := x.render_lead
  obtain ⟨d, rest', hy, hd⟩ := y.render_lead
  refine compare_text_of_lt ?_
  rw [hx, hy, List.cons_lt_cons_iff]
  refine .inl (UInt32.lt_iff_toNat_lt.2 (?_ : c.toNat < d.toNat))
  have hminus : '-'.toNat < '0'.toNat := by decide
  have := y.lead_eq_or
  omega

theorem compare_text_of_lead_ne {x y : Json} (h : x.lead ≠ y.lead) :
    compare x.text y.text = compare x.lead y.lead := by
  rcases Nat.lt_or_gt_of_ne h with hlt | hlt
  · rw [compare_text_of_lead_lt hlt, Nat.compare_eq_lt.2 hlt]
  · rw [@OrientedCmp.eq_swap _ compare, compare_text_of_lead_lt hlt, Nat.compare_eq_gt.2 hlt]
    rfl

end Json

/-! ### Documents that are equal -/

namespace Double

/-- The number, with a positive zero for either zero. -/
def unsigned (x : Double) : Double := if x.magnitude = 0 then zero false else x

theorem sameValue_iff {x y : Double} : x.sameValue y = true ↔ x.unsigned = y.unsigned := by
  obtain ⟨n, m, hm⟩ := x
  obtain ⟨n', m', hm'⟩ := y
  by_cases h : m = 0 <;> by_cases h' : m' = 0 <;> cases n <;> cases n' <;>
    simp [sameValue, key, unsigned, zero, h, h'] <;> omega

end Double

/-- The number, with a positive zero for either zero. -/
def Number.unsigned : Number → Number
  | int i => int i
  | float x => float x.unsigned

theorem Number.same_iff {m n : Number} : m.same n = true ↔ m.unsigned = n.unsigned := by
  cases m <;> cases n <;> simp [Number.same, Number.unsigned, Double.sameValue_iff]

namespace Json

mutual

/-- The document, with positive zeros only. -/
def unsigned : Json → Json
  | num n => num n.unsigned
  | arr xs => arr (unsignedItems xs)
  | obj ms => obj (unsignedMembers ms)
  | x => x

def unsignedItems : List Json → List Json
  | [] => []
  | x :: xs => unsigned x :: unsignedItems xs

def unsignedMembers : Members → Members
  | [] => []
  | (k, x) :: ms => (k, unsigned x) :: unsignedMembers ms

end

mutual

/-- **Documents are equal up to the signs of zeros.** -/
theorem same_iff (x y : Json) : same x y = true ↔ unsigned x = unsigned y := by
  cases x with
  | null => cases y <;> simp [same, unsigned]
  | bool a => cases y <;> simp [same, unsigned]
  | num m => cases y <;> simp [same, unsigned, Number.same_iff]
  | str a => cases y <;> simp [same, unsigned]
  | arr xs =>
    cases y with
    | arr ys => simpa [same, unsigned] using sameItems_iff xs ys
    | _ => simp [same, unsigned]
  | obj ms =>
    cases y with
    | obj ns => simpa [same, unsigned] using sameMembers_iff ms ns
    | _ => simp [same, unsigned]

theorem sameItems_iff (xs ys : List Json) :
    sameItems xs ys = true ↔ unsignedItems xs = unsignedItems ys := by
  cases xs with
  | nil => cases ys <;> simp [sameItems, unsignedItems]
  | cons x xs =>
    cases ys with
    | nil => simp [sameItems, unsignedItems]
    | cons y ys => simp [sameItems, unsignedItems, same_iff x y, sameItems_iff xs ys]

theorem sameMembers_iff (ms ns : Members) :
    sameMembers ms ns = true ↔ unsignedMembers ms = unsignedMembers ns := by
  cases ms with
  | nil => cases ns <;> simp [sameMembers, unsignedMembers]
  | cons m ms =>
    cases ns with
    | nil => simp [sameMembers, unsignedMembers]
    | cons n ns =>
      simp [sameMembers, unsignedMembers, same_iff m.2 n.2, sameMembers_iff ms ns, and_assoc]

end

theorem same_self (x : Json) : same x x = true := (same_iff x x).2 rfl

theorem same_comm (x y : Json) : same x y = same y x := by
  rw [Bool.eq_iff_iff, same_iff, same_iff]
  exact eq_comm

/-! ### The order of values -/

/-- Arrays and objects that are equal as documents have one text. -/
def PrintsAlike : Json → Json → Prop
  | arr xs, arr ys => same (arr xs) (arr ys) = true → (arr xs).text = (arr ys).text
  | obj ms, obj ns => same (obj ms) (obj ns) = true → (obj ms).text = (obj ns).text
  | _, _ => True

/-- The place of a number among numbers. -/
def numeral : Json → Int
  | num n => n.toDouble.key
  | _ => 0

/-- The text that a string, an array or an object goes by. -/
def wording : Json → String
  | str s => s
  | arr xs => (arr xs).text
  | obj ms => (obj ms).text
  | _ => ""

/-- Values by kind, and within a kind by their place in it. -/
def standing : Json → Json → Ordering :=
  compareLex (compareOn lead) (compareLex (compareOn numeral) (compareOn wording))

instance : TransCmp standing :=
  inferInstanceAs (TransCmp (compareLex _ (compareLex _ _)))

/-- Two values whose texts begin alike are of one kind, and truth values are equal then. -/
theorem eq_or_of_lead_eq {x y : Json} (h : x.lead = y.lead) :
    x = y ∨ (∃ m n, x = num m ∧ y = num n) ∨ (∃ a b, x = str a ∧ y = str b) ∨
      (∃ xs ys, x = arr xs ∧ y = arr ys) ∨ ∃ ms ns, x = obj ms ∧ y = obj ns := by
  cases x with
  | bool a =>
    cases y with
    | bool b => cases a <;> cases b <;> simp [lead] at h ⊢
    | _ => cases a <;> simp [lead] at h
  | _ =>
    cases y with
    | bool b => cases b <;> simp [lead] at h
    | _ => simp [lead] at h ⊢

/-- Values that begin differently are compared by how they begin. -/
theorem sortOrder_of_lead_ne {x y : Json} (h : x.lead ≠ y.lead) :
    x.sortOrder y = compare x.lead y.lead := by
  have hcompare : x.compare? y = none ∨ x.compare? y = some (compare x.lead y.lead) := by
    cases x with
    | bool a =>
      cases y with
      | bool b => cases a <;> cases b <;> first | exact absurd rfl h | exact .inr rfl
      | _ => exact .inl rfl
    | _ => cases y <;> first | exact absurd rfl h | exact .inl rfl
  unfold sortOrder
  rcases hcompare with hcompare | hcompare
  · rw [hcompare, Option.getD_none, compare_text_of_lead_ne h]
  · rw [hcompare, Option.getD_some]

theorem compare?_self (x : Json) : x.compare? x = some .eq := by
  cases x with
  | null => rfl
  | bool a => simp [compare?]
  | num n => exact congrArg some (@ReflCmp.compare_self _ compare _ n.toDouble.key)
  | str a => simp [compare?]
  | arr xs => simp [compare?, BEq.beq, same_self]
  | obj ms => simp [compare?, BEq.beq, same_self]

/-- Arrays that are not equal go by their texts. -/
theorem sortOrder_arr (xs ys : List Json) : (arr xs).sortOrder (arr ys) =
    if same (arr xs) (arr ys) = true then .eq else compare (arr xs).text (arr ys).text := by
  by_cases h : same (arr xs) (arr ys) = true <;> simp [sortOrder, compare?, BEq.beq, h]

/-- Objects that are not equal go by their texts. -/
theorem sortOrder_obj (ms ns : Members) : (obj ms).sortOrder (obj ns) =
    if same (obj ms) (obj ns) = true then .eq else compare (obj ms).text (obj ns).text := by
  by_cases h : same (obj ms) (obj ns) = true <;> simp [sortOrder, compare?, BEq.beq, h]

/-- **The order of values is a lexicographic one**, as far as those that are equal print alike. -/
theorem sortOrder_eq_standing {x y : Json} (h : x.PrintsAlike y) : x.sortOrder y = x.standing y := by
  by_cases hlead : x.lead = y.lead
  · have hstanding : x.standing y =
        (compare x.numeral y.numeral).then (compare x.wording y.wording) := by
      simp [standing, compareLex, compareOn, hlead]
    rw [hstanding]
    rcases eq_or_of_lead_eq hlead with rfl | ⟨m, n, rfl, rfl⟩ | ⟨a, b, rfl, rfl⟩ |
      ⟨xs, ys, rfl, rfl⟩ | ⟨ms, ns, rfl, rfl⟩
    · simp [sortOrder, compare?_self]
    · have hkey : (num m).sortOrder (num n) = compare m.toDouble.key n.toDouble.key := rfl
      simp [hkey, numeral, wording]
    · simp [sortOrder, compare?, numeral, wording]
    · rw [sortOrder_arr]
      split
      · rename_i hsame
        simp [numeral, wording, h hsame]
      · simp [numeral, wording]
    · rw [sortOrder_obj]
      split
      · rename_i hsame
        simp [numeral, wording, h hsame]
      · simp [numeral, wording]
  · have hne : compare x.lead y.lead ≠ .eq := fun heq => hlead (Nat.compare_eq_eq.1 heq)
    rw [sortOrder_of_lead_ne hlead]
    simp only [standing, compareLex, compareOn]
    cases hcompare : compare x.lead y.lead with
    | eq => exact absurd hcompare hne
    | lt => rfl
    | gt => rfl

theorem sortOrder_of_not_printsAlike {x y : Json} (h : ¬x.PrintsAlike y) :
    x.same y = true ∧ x.sortOrder y = .eq := by
  cases x with
  | arr xs =>
    cases y with
    | arr ys =>
      obtain ⟨hsame, _⟩ := Classical.not_imp.1 h
      exact ⟨hsame, by rw [sortOrder_arr, if_pos hsame]⟩
    | _ => exact absurd trivial h
  | obj ms =>
    cases y with
    | obj ns =>
      obtain ⟨hsame, _⟩ := Classical.not_imp.1 h
      exact ⟨hsame, by rw [sortOrder_obj, if_pos hsame]⟩
    | _ => exact absurd trivial h
  | _ => exact absurd trivial h

instance (x y : Json) : Decidable (x.PrintsAlike y) :=
  match x, y with
  | arr xs, arr ys =>
    inferInstanceAs (Decidable (same (arr xs) (arr ys) = true → (arr xs).text = (arr ys).text))
  | obj ms, obj ns =>
    inferInstanceAs (Decidable (same (obj ms) (obj ns) = true → (obj ms).text = (obj ns).text))
  | arr _, null | arr _, bool _ | arr _, num _ | arr _, str _ | arr _, obj _ => .isTrue trivial
  | obj _, null | obj _, bool _ | obj _, num _ | obj _, str _ | obj _, arr _ => .isTrue trivial
  | null, _ | bool _, _ | num _, _ | str _, _ => .isTrue trivial

theorem PrintsAlike.symm {x y : Json} (h : x.PrintsAlike y) : y.PrintsAlike x := by
  cases x with
  | arr xs =>
    cases y with
    | arr ys => exact fun hsame => (h (same_comm _ _ ▸ hsame)).symm
    | _ => exact trivial
  | obj ms =>
    cases y with
    | obj ns => exact fun hsame => (h (same_comm _ _ ▸ hsame)).symm
    | _ => exact trivial
  | _ => cases y <;> exact trivial

theorem printsAlike_self (x : Json) : x.PrintsAlike x := by
  cases x with
  | arr xs => exact fun _ => rfl
  | obj ms => exact fun _ => rfl
  | _ => exact trivial

/-- The order turns around with its operands. -/
theorem sortOrder_swap (x y : Json) : y.sortOrder x = (x.sortOrder y).swap := by
  by_cases h : x.PrintsAlike y
  · rw [sortOrder_eq_standing h, sortOrder_eq_standing h.symm]
    exact OrientedCmp.eq_swap
  · have h' : ¬y.PrintsAlike x := fun hyx => h hyx.symm
    rw [(sortOrder_of_not_printsAlike h).2, (sortOrder_of_not_printsAlike h').2]
    rfl

end Json

/-! ### Between the two zeros -/

namespace Json

/-- Three texts of which the first has a negative zero where the last one has a positive zero, and
    the second one a number between them. -/
inductive Between : List Char → List Char → List Char → Prop
  | of (front rest rest' rest'' : List Char) :
    Between (front ++ '-' :: '0' :: rest) (front ++ '-' :: '1' :: rest') (front ++ '0' :: rest'')

theorem Between.append {as bs cs : List Char} (h : Between as bs cs) (ds es fs : List Char) :
    Between (as ++ ds) (bs ++ es) (cs ++ fs) := by
  obtain ⟨front, rest, rest', rest''⟩ := h
  simpa using Between.of front (rest ++ ds) (rest' ++ es) (rest'' ++ fs)

theorem Between.prepend {as bs cs : List Char} (h : Between as bs cs) (front : List Char) :
    Between (front ++ as) (front ++ bs) (front ++ cs) := by
  obtain ⟨front', rest, rest', rest''⟩ := h
  simpa using Between.of (front ++ front') rest rest' rest''

theorem Between.lt {as bs cs : List Char} (h : Between as bs cs) : as < bs ∧ bs < cs := by
  obtain ⟨front, rest, rest', rest''⟩ := h
  constructor
  · apply List.append_left_lt
    simp [List.cons_lt_cons_iff]
  · apply List.append_left_lt
    simp [List.cons_lt_cons_iff]

/-- The second text is between the two others, whichever of these comes first. -/
def Parts (as bs cs : List Char) : Prop := Between as bs cs ∨ Between cs bs as

theorem Parts.append {as bs cs : List Char} (h : Parts as bs cs) (ds es fs : List Char) :
    Parts (as ++ ds) (bs ++ es) (cs ++ fs) :=
  h.imp (·.append ds es fs) (·.append fs es ds)

theorem Parts.prepend {as bs cs : List Char} (h : Parts as bs cs) (front : List Char) :
    Parts (front ++ as) (front ++ bs) (front ++ cs) :=
  h.imp (·.prepend front) (·.prepend front)

/-- Numbers that are equal and printed differently are the two zeros. -/
theorem exists_number_between {m n : Number} (h : m.same n = true) (hne : m.render ≠ n.render) :
    Parts m.render (Number.int (-1)).render n.render ∧ m.same (.int (-1)) = false ∧
      n.same (.int (-1)) = false := by
  cases m with
  | int i =>
    cases n with
    | int j =>
      have hij : i = j := by simpa [Number.same] using h
      exact absurd (hij ▸ rfl) hne
    | float y => simp [Number.same] at h
  | float x =>
    cases n with
    | int j => simp [Number.same] at h
    | float y =>
      obtain ⟨s, a, ha⟩ := x
      obtain ⟨t, b, hb⟩ := y
      have hkey : Double.key ⟨s, a, ha⟩ = Double.key ⟨t, b, hb⟩ := by
        simpa [Number.same, Double.sameValue] using h
      have hab : a = b := by
        unfold Double.key at hkey
        cases s <;> cases t <;> simp at hkey <;> omega
      subst hab
      have hst : s ≠ t := fun hst => hne (hst ▸ rfl)
      have hzero : a = 0 := by
        unfold Double.key at hkey
        cases s <;> cases t <;> simp at hkey hst <;> omega
      subst hzero
      refine ⟨?_, rfl, rfl⟩
      cases s with
      | false =>
        cases t with
        | false => exact absurd rfl hst
        | true => exact .inr (.of [] ['.', '0'] [] ['.', '0'])
      | true =>
        cases t with
        | false => exact .inl (.of [] ['.', '0'] [] ['.', '0'])
        | true => exact absurd rfl hst

/-- The items of an array up to its closing bracket, with a separator before the first one. -/
def itemsAfter (sep : List Char) : List Json → List Char
  | [] => [']']
  | x :: xs => sep ++ renderItems (x :: xs)

theorem itemsAfter_nil (xs : List Json) : itemsAfter [] xs = renderItems xs := by
  cases xs <;> rfl

theorem itemsAfter_cons (sep : List Char) (x : Json) (xs : List Json) :
    itemsAfter sep (x :: xs) = (sep ++ x.render) ++ itemsAfter [','] xs := by
  cases xs <;> simp [itemsAfter, renderItems]

/-- The members of an object up to its closing brace, with a separator before the first one. -/
def membersAfter (sep : List Char) : Members → List Char
  | [] => ['\x7d']
  | m :: ms => sep ++ renderMembers (m :: ms)

theorem membersAfter_nil (ms : Members) : membersAfter [] ms = renderMembers ms := by
  cases ms <;> rfl

theorem membersAfter_cons (sep : List Char) (k : String) (x : Json) (ms : Members) :
    membersAfter sep ((k, x) :: ms) =
      (sep ++ renderString k.toList ++ [':']) ++ (x.render ++ membersAfter [','] ms) := by
  cases ms <;> simp [membersAfter, renderMembers]

mutual

/-- **Between two equal values that are printed differently there is a third one.** -/
theorem exists_between (x z : Json) (h : same x z = true) (hne : x.render ≠ z.render) :
    ∃ y, y.lead = x.lead ∧ Parts x.render y.render z.render ∧ same x y = false ∧
      same z y = false := by
  cases x with
  | num m =>
    cases z with
    | num n =>
      simp only [same, render] at h hne
      exact ⟨num (.int (-1)), rfl, by simpa only [same, render] using exists_number_between h hne⟩
    | _ => simp [same] at h
  | arr xs =>
    cases z with
    | arr zs =>
      have hne' : itemsAfter [] xs ≠ itemsAfter [] zs := by
        rw [itemsAfter_nil, itemsAfter_nil]
        exact fun heq => hne (congrArg ('[' :: ·) heq)
      obtain ⟨ys, hparts, hx, hz⟩ := exists_items_between [] xs zs h hne'
      simp only [itemsAfter_nil] at hparts
      exact ⟨arr ys, rfl, hparts.prepend ['['], hx, hz⟩
    | _ => simp [same] at h
  | obj ms =>
    cases z with
    | obj os =>
      have hne' : membersAfter [] ms ≠ membersAfter [] os := by
        rw [membersAfter_nil, membersAfter_nil]
        exact fun heq => hne (congrArg ('\x7b' :: ·) heq)
      obtain ⟨ns, hparts, hx, hz⟩ := exists_members_between [] ms os h hne'
      simp only [membersAfter_nil] at hparts
      exact ⟨obj ns, rfl, hparts.prepend ['\x7b'], hx, hz⟩
    | _ => simp [same] at h
  | null => cases z <;> simp [same] at h hne
  | bool a =>
    cases z <;> simp [same] at h
    exact absurd (h ▸ rfl) hne
  | str a =>
    cases z <;> simp [same] at h
    exact absurd (h ▸ rfl) hne

theorem exists_items_between (sep : List Char) (xs zs : List Json) (h : sameItems xs zs = true)
    (hne : itemsAfter sep xs ≠ itemsAfter sep zs) :
    ∃ ys, Parts (itemsAfter sep xs) (itemsAfter sep ys) (itemsAfter sep zs) ∧
      sameItems xs ys = false ∧ sameItems zs ys = false := by
  cases xs with
  | nil =>
    cases zs with
    | nil => exact absurd rfl hne
    | cons z zs => simp [sameItems] at h
  | cons x xs =>
    cases zs with
    | nil => simp [sameItems] at h
    | cons z zs =>
      rw [sameItems, Bool.and_eq_true] at h
      rw [itemsAfter_cons, itemsAfter_cons] at hne ⊢
      by_cases hhead : x.render = z.render
      · -- the first items look alike, so that it is behind them that the two lists differ
        rw [← hhead] at hne ⊢
        have htail : itemsAfter [','] xs ≠ itemsAfter [','] zs := fun heq => hne (by rw [heq])
        obtain ⟨ys, hparts, hxy, hzy⟩ := exists_items_between [','] xs zs h.2 htail
        refine ⟨x :: ys, ?_, by simp [sameItems, hxy], by simp [sameItems, hzy]⟩
        rw [itemsAfter_cons]
        exact hparts.prepend _
      · obtain ⟨y, _, hparts, hxy, hzy⟩ := exists_between x z h.1 hhead
        refine ⟨[y], ?_, by simp [sameItems, hxy], by simp [sameItems, hzy]⟩
        rw [itemsAfter_cons]
        exact (hparts.prepend sep).append _ _ _

theorem exists_members_between (sep : List Char) (ms os : Members) (h : sameMembers ms os = true)
    (hne : membersAfter sep ms ≠ membersAfter sep os) :
    ∃ ns, Parts (membersAfter sep ms) (membersAfter sep ns) (membersAfter sep os) ∧
      sameMembers ms ns = false ∧ sameMembers os ns = false := by
  cases ms with
  | nil =>
    cases os with
    | nil => exact absurd rfl hne
    | cons o os => simp [sameMembers] at h
  | cons m ms =>
    cases os with
    | nil => simp [sameMembers] at h
    | cons o os =>
      obtain ⟨k, x⟩ := m
      obtain ⟨l, z⟩ := o
      rw [sameMembers, Bool.and_eq_true, Bool.and_eq_true, beq_iff_eq] at h
      obtain ⟨⟨rfl, hvalues⟩, hmembers⟩ := h
      rw [membersAfter_cons, membersAfter_cons] at hne ⊢
      by_cases hhead : x.render = z.render
      · rw [← hhead] at hne ⊢
        have htail : membersAfter [','] ms ≠ membersAfter [','] os := fun heq => hne (by rw [heq])
        obtain ⟨ns, hparts, hxn, hzn⟩ := exists_members_between [','] ms os hmembers htail
        refine ⟨(k, x) :: ns, ?_, by simp [sameMembers, hxn], by simp [sameMembers, hzn]⟩
        rw [membersAfter_cons]
        exact (hparts.prepend x.render).prepend _
      · obtain ⟨y, _, hparts, hxy, hzy⟩ := exists_between x z hvalues hhead
        refine ⟨[(k, y)], ?_, by simp [sameMembers, hxy], by simp [sameMembers, hzy]⟩
        rw [membersAfter_cons]
        exact (hparts.append _ _ _).prepend _

end

/-! ### Where equal values print alike -/

theorem sortOrder_of_same {x y : Json} (h : same x y = true) : x.sortOrder y = .eq := by
  cases x with
  | null => cases y <;> simp [same] at h; rfl
  | bool a =>
    cases y <;> simp [same] at h
    rw [h, sortOrder, compare?_self, Option.getD_some]
  | num m =>
    cases y <;> simp only [same, Bool.false_eq_true] at h
    rename_i n
    have hkey : (num m).sortOrder (num n) = compare m.toDouble.key n.toDouble.key := rfl
    rw [hkey, Int.compare_eq_eq]
    cases m <;> cases n <;> simp [Number.same, Double.sameValue] at h
    · rw [h]
    · exact h
  | str a =>
    cases y <;> simp [same] at h
    rw [h, sortOrder, compare?_self, Option.getD_some]
  | arr xs =>
    cases y with
    | arr ys => rw [sortOrder_arr, if_pos h]
    | _ => simp [same] at h
  | obj ms =>
    cases y with
    | obj ns => rw [sortOrder_obj, if_pos h]
    | _ => simp [same] at h

/-- What prints like a value prints like one that is equal to it and prints like it. -/
theorem PrintsAlike.of_same {x y z : Json} (h : same x z = true) (hxz : x.PrintsAlike z)
    (hxy : x.PrintsAlike y) : z.PrintsAlike y := by
  have hsame : same z y = true → same x y = true := by
    rw [same_iff, same_iff, (same_iff x z).1 h]
    exact id
  cases z with
  | arr zs =>
    cases y with
    | arr ys =>
      intro hzy
      cases x with
      | arr xs => exact (hxz h).symm.trans (hxy (hsame hzy))
      | _ => simp [same] at h
    | _ => exact trivial
  | obj os =>
    cases y with
    | obj ns =>
      intro hzy
      cases x with
      | obj ms => exact (hxz h).symm.trans (hxy (hsame hzy))
      | _ => simp [same] at h
    | _ => exact trivial
  | _ => cases y <;> exact trivial

/-- Equal values that print alike have the same place among all values. -/
theorem sortOrder_congr {x z : Json} (h : same x z = true) (hxz : x.PrintsAlike z) (y : Json) :
    x.sortOrder y = z.sortOrder y := by
  have htie : x.standing z = .eq := by rw [← sortOrder_eq_standing hxz, sortOrder_of_same h]
  by_cases hxy : x.PrintsAlike y
  · rw [sortOrder_eq_standing hxy, sortOrder_eq_standing (hxz.of_same h hxy)]
    exact TransCmp.congr_left htie
  · have hzx : same z x = true := by rw [same_comm, h]
    have hzy : ¬z.PrintsAlike y := fun hzy => hxy (hxz.symm.of_same hzx hzy)
    rw [(sortOrder_of_not_printsAlike hxy).2, (sortOrder_of_not_printsAlike hzy).2]

theorem sortOrder_ne_of_parts {x y z : Json} (h : Parts x.render y.render z.render)
    (hx : x.sortOrder y = compare x.text y.text) (hz : z.sortOrder y = compare z.text y.text) :
    x.sortOrder y ≠ z.sortOrder y := by
  rw [hx, hz]
  have hswap (a b : Json) (hlt : a.render < b.render) : compare b.text a.text = .gt := by
    rw [@OrientedCmp.eq_swap _ compare, compare_text_of_lt hlt]
    rfl
  rcases h with h | h
  · rw [compare_text_of_lt h.lt.1, hswap y z h.lt.2]
    simp
  · rw [hswap y x h.lt.2, compare_text_of_lt h.lt.1]
    simp

/-- Two equal values that do not print alike have different places. -/
theorem exists_sortOrder_ne {x z : Json} (hxz : ¬x.PrintsAlike z) :
    ∃ y, x.sortOrder y ≠ z.sortOrder y := by
  have h := (sortOrder_of_not_printsAlike hxz).1
  cases x with
  | arr xs =>
    cases z with
    | arr zs =>
      obtain ⟨y, hlead, hparts, hxy, hzy⟩ := exists_between _ _ h
        fun heq => hxz fun _ => congrArg String.ofList heq
      obtain ⟨ys, rfl⟩ : ∃ ys, y = arr ys := by
        rcases eq_or_of_lead_eq hlead with rfl | ⟨_, _, _, h⟩ | ⟨_, _, _, h⟩ | ⟨ys, _, h, _⟩ |
          ⟨_, _, _, h⟩
        · exact ⟨_, rfl⟩
        · simp at h
        · simp at h
        · exact ⟨ys, h⟩
        · simp at h
      exact ⟨arr ys, sortOrder_ne_of_parts hparts (by simp [sortOrder_arr, hxy])
        (by simp [sortOrder_arr, hzy])⟩
    | _ => exact absurd trivial hxz
  | obj ms =>
    cases z with
    | obj os =>
      obtain ⟨y, hlead, hparts, hxy, hzy⟩ := exists_between _ _ h
        fun heq => hxz fun _ => congrArg String.ofList heq
      obtain ⟨ns, rfl⟩ : ∃ ns, y = obj ns := by
        rcases eq_or_of_lead_eq hlead with rfl | ⟨_, _, _, h⟩ | ⟨_, _, _, h⟩ | ⟨_, _, _, h⟩ |
          ⟨ns, _, h, _⟩
        · exact ⟨_, rfl⟩
        · simp at h
        · simp at h
        · simp at h
        · exact ⟨ns, h⟩
      exact ⟨obj ns, sortOrder_ne_of_parts hparts (by simp [sortOrder_obj, hxy])
        (by simp [sortOrder_obj, hzy])⟩
    | _ => exact absurd trivial hxz
  | _ => exact absurd trivial hxz

/-- **Values print alike exactly if being equal gives them one place among all values.** -/
theorem printsAlike_iff (x z : Json) :
    x.PrintsAlike z ↔ (same x z = true → ∀ y, x.sortOrder y = z.sortOrder y) := by
  constructor
  · exact fun hxz h => sortOrder_congr h hxz
  · intro hplace
    refine Classical.byContradiction fun hxz => ?_
    obtain ⟨y, hy⟩ := exists_sortOrder_ne hxz
    exact hy (hplace (sortOrder_of_not_printsAlike hxz).1 y)

end Json

/-! ### The order of documents -/

namespace SortKey

variable {keys : List SortKey} {a b c : Json}

/-- What a document is sorted by. -/
def value (k : SortKey) (d : Json) : Json := (k.field.resolve d).getD .null

/-- Equal arrays and objects among the values under the keys have one text. -/
def PrintAlike (keys : List SortKey) (a b : Json) : Prop :=
  ∀ k ∈ keys, (k.value a).PrintsAlike (k.value b)

def standing (k : SortKey) (a b : Json) : Ordering :=
  if k.ascending then (k.value a).standing (k.value b) else (k.value b).standing (k.value a)

/-- Documents by the places of their values under the keys. -/
def standingAll : List SortKey → Json → Json → Ordering
  | [], _, _ => .eq
  | k :: ks, a, b => (k.standing a b).then (standingAll ks a b)

instance (k : SortKey) : TransCmp k.standing where
  eq_swap := by
    intro a b
    unfold standing
    split
    · exact OrientedCmp.eq_swap
    · exact OrientedCmp.eq_swap
  isLE_trans := by
    intro a b c hab hbc
    unfold standing at *
    split at hab <;> simp_all
    · exact TransCmp.isLE_trans hab hbc
    · exact TransCmp.isLE_trans hbc hab

instance (keys : List SortKey) : TransCmp (standingAll keys) := by
  induction keys with
  | nil => exact { eq_swap := rfl, isLE_trans := fun _ _ => rfl }
  | cons k ks ih => exact inferInstanceAs (TransCmp (compareLex k.standing (standingAll ks)))

theorem order_eq_standing {k : SortKey} (h : (k.value a).PrintsAlike (k.value b)) :
    k.order a b = k.standing a b := by
  have horder : ((k.field.resolve a).getD .null).sortOrder ((k.field.resolve b).getD .null) =
      (k.value a).standing (k.value b) := Json.sortOrder_eq_standing h
  unfold order standing
  rw [horder, @OrientedCmp.eq_swap _ Json.standing _ (k.value b)]

theorem orderAll_eq_standingAll (h : PrintAlike keys a b) :
    orderAll keys a b = standingAll keys a b := by
  induction keys with
  | nil => rfl
  | cons k ks ih =>
    rw [PrintAlike, List.forall_mem_cons] at h
    rw [orderAll, standingAll, order_eq_standing h.1, ih h.2]

instance (keys : List SortKey) (a b : Json) : Decidable (PrintAlike keys a b) :=
  inferInstanceAs (Decidable (∀ k ∈ keys, (k.value a).PrintsAlike (k.value b)))

theorem printAlike_self (keys : List SortKey) (a : Json) : PrintAlike keys a a :=
  fun _ _ => Json.printsAlike_self _

/-- The order of documents is reflexive. -/
theorem orderAll_self (keys : List SortKey) (a : Json) : orderAll keys a a = .eq := by
  rw [orderAll_eq_standingAll (printAlike_self keys a)]
  exact ReflCmp.compare_self

theorem order_swap (k : SortKey) (a b : Json) : k.order b a = (k.order a b).swap := by
  have hswap := Json.sortOrder_swap (k.value a) (k.value b)
  unfold order
  simp only [show ((k.field.resolve b).getD .null).sortOrder ((k.field.resolve a).getD .null) = _
    from hswap]
  split <;> rfl

/-- The order of documents turns around with its operands. -/
theorem orderAll_swap (keys : List SortKey) (a b : Json) :
    orderAll keys b a = (orderAll keys a b).swap := by
  induction keys with
  | nil => rfl
  | cons k ks ih => rw [orderAll, orderAll, order_swap, ih, Ordering.swap_then]

/-- The order of documents is transitive where equal values print alike, and so are its ties. -/
theorem orderAll_trans (hab : PrintAlike keys a b) (hbc : PrintAlike keys b c)
    (hac : PrintAlike keys a c) :
    ((orderAll keys a b).isLE = true → (orderAll keys b c).isLE = true →
      (orderAll keys a c).isLE = true) ∧
    (orderAll keys a b = .eq → orderAll keys b c = .eq → orderAll keys a c = .eq) := by
  rw [orderAll_eq_standingAll hab, orderAll_eq_standingAll hbc, orderAll_eq_standingAll hac]
  exact ⟨TransCmp.isLE_trans, TransCmp.eq_trans⟩

/-! ### Sorted items -/

section Sorted

variable {α : Type} {document : α → Json} {items : List α}

/-- Sorting by the order of documents is sorting by their places. -/
theorem sort_eq_mergeSort (h : ∀ a ∈ items, ∀ b ∈ items, PrintAlike keys (document a) (document b)) :
    sort keys document items =
      items.mergeSort fun a b => (standingAll keys (document a) (document b)).isLE := by
  unfold sort
  by_cases hempty : keys.isEmpty = true
  · rw [List.isEmpty_iff] at hempty
    subst hempty
    have hall : items.Pairwise fun _ _ => Ordering.isLE .eq = true :=
      List.pairwise_of_forall fun _ _ => rfl
    exact (List.mergeSort_of_pairwise hall).symm
  · simp only [hempty]
    have hmap := List.map_mergeSort (f := id) (l := items)
      (r := fun a b => orderAll keys (document a) (document b) != .gt)
      (s := fun a b => (standingAll keys (document a) (document b)).isLE) ?_
    · simpa using hmap
    · intro a ha b hb
      rw [orderAll_eq_standingAll (h a ha b hb)]
      show (standingAll keys (document a) (document b) != .gt) =
        (standingAll keys (document a) (document b)).isLE
      cases standingAll keys (document a) (document b) <;> rfl

theorem standingAll_total (keys : List SortKey) (a b : Json) :
    ((standingAll keys a b).isLE || (standingAll keys b a).isLE) = true := by
  rw [@OrientedCmp.eq_swap _ (standingAll keys) _ b a]
  cases standingAll keys a b <;> rfl

/-- Sorted items are in order. -/
theorem pairwise_sort (h : ∀ a ∈ items, ∀ b ∈ items, PrintAlike keys (document a) (document b)) :
    (sort keys document items).Pairwise fun a b =>
      (orderAll keys (document a) (document b)).isLE = true := by
  have hsorted : (sort keys document items).Pairwise fun a b =>
      (standingAll keys (document a) (document b)).isLE = true := by
    rw [sort_eq_mergeSort h]
    exact List.pairwise_mergeSort (fun _ _ _ => TransCmp.isLE_trans)
      (fun a b => standingAll_total keys (document a) (document b)) items
  refine hsorted.imp_of_mem ?_
  intro a b ha hb hle
  have hperm := sort_perm keys document items
  rwa [orderAll_eq_standingAll (h a (hperm.mem_iff.1 ha) b (hperm.mem_iff.1 hb))]

/-- The items that tie with an item stay as they were. -/
theorem filter_sort (h : ∀ a ∈ items, ∀ b ∈ items, PrintAlike keys (document a) (document b))
    {a : α} (ha : a ∈ items) :
    (sort keys document items).filter (fun b => orderAll keys (document a) (document b) == .eq) =
      items.filter fun b => orderAll keys (document a) (document b) == .eq := by
  generalize htied : (fun b => orderAll keys (document a) (document b) == .eq) = tied
  have hties : ∀ b ∈ items.filter tied, standingAll keys (document a) (document b) = .eq := by
    intro b hb
    obtain ⟨hb, heq⟩ := List.mem_filter.1 hb
    rw [← htied] at heq
    rw [← orderAll_eq_standingAll (h a ha b hb)]
    simpa using heq
  have hordered : (items.filter tied).Pairwise fun b c =>
      (standingAll keys (document b) (document c)).isLE = true := by
    refine List.pairwise_of_forall_mem_list fun b hb c hc => ?_
    have heq : standingAll keys (document b) (document c) = .eq :=
      TransCmp.eq_trans (OrientedCmp.eq_symm (hties b hb)) (hties c hc)
    rw [heq]
    rfl
  have hsub : (items.filter tied).Sublist (sort keys document items) := by
    rw [sort_eq_mergeSort h]
    exact List.sublist_mergeSort (fun _ _ _ => TransCmp.isLE_trans)
      (fun a b => standingAll_total keys (document a) (document b)) hordered List.filter_sublist
  have hlength := ((sort_perm keys document items).filter tied).length_eq
  have hfiltered := hsub.filter tied
  rw [List.filter_filter] at hfiltered
  simp only [Bool.and_self] at hfiltered
  exact (hfiltered.eq_of_length hlength.symm).symm

/-- The items in the order of their documents, those that tie as they stood. -/
structure SortedBy (keys : List SortKey) (document : α → Json) (items sorted : List α) : Prop where
  perm : sorted.Perm items
  ordered : sorted.Pairwise fun a b => (orderAll keys (document a) (document b)).isLE = true
  stable : ∀ a ∈ items,
    sorted.filter (fun b => orderAll keys (document a) (document b) == .eq) =
      items.filter fun b => orderAll keys (document a) (document b) == .eq

theorem sortedBy_sort
    (h : ∀ a ∈ items, ∀ b ∈ items, PrintAlike keys (document a) (document b)) :
    SortedBy keys document items (sort keys document items) where
  perm := sort_perm keys document items
  ordered := pairwise_sort h
  stable := fun _ ha => filter_sort h ha

end Sorted

/-- **The order of documents is a total preorder as far as equal values print alike**, and sorting
    is stable there. Nothing less will do: equal values that do not print alike have different
    places among all values. -/
theorem orderAll_preorder (keys : List SortKey) :
    (∀ a, orderAll keys a a = .eq) ∧
    (∀ a b, orderAll keys b a = (orderAll keys a b).swap) ∧
    (∀ a b c, PrintAlike keys a b → PrintAlike keys b c → PrintAlike keys a c →
      ((orderAll keys a b).isLE = true → (orderAll keys b c).isLE = true →
        (orderAll keys a c).isLE = true) ∧
      (orderAll keys a b = .eq → orderAll keys b c = .eq → orderAll keys a c = .eq)) ∧
    (∀ {α : Type} (document : α → Json) (items : List α),
      (∀ a ∈ items, ∀ b ∈ items, PrintAlike keys (document a) (document b)) →
        SortedBy keys document items (sort keys document items)) ∧
    ∀ x z : Json, x.PrintsAlike z ↔
      (x.same z = true → ∀ y, x.sortOrder y = z.sortOrder y) := by
  refine ⟨orderAll_self keys, orderAll_swap keys, ?_, ?_, Json.printsAlike_iff⟩
  · intro a b c hab hbc hac
    exact orderAll_trans hab hbc hac
  · intro α document items h
    exact sortedBy_sort h

def byV : List SortKey := [⟨.field "v", true⟩]

def docV (x : Json) : Json := .obj [("v", x)]

/-- An array of one zero. -/
def zeroV (negative : Bool) : Json := docV (.arr [.num (.float (.zero negative))])

/-- Values of every kind under one key, two of them equal and one missing. -/
def mixed : List Json :=
  [zeroV false, docV (.obj [("w", .null)]), .obj [], docV (.num (.int 2)), docV (.bool true),
    docV (.str "a"), docV .null, zeroV false]

theorem orderAll_preorder_mixed :
    (∀ a ∈ mixed, ∀ b ∈ mixed, PrintAlike byV a b) ∧
      SortedBy byV id mixed (sort byV id mixed) := by
  have h : ∀ a ∈ mixed, ∀ b ∈ mixed, PrintAlike byV a b := by decide
  exact ⟨h, (orderAll_preorder byV).2.2.2.1 id mixed h⟩

/-- **Arrays that are equal up to the sign of a zero**: `[-1] < [0.0]`, which ties with `[-0.0]`,
    but `[-0.0] < [-1]`. The four documents keep their order, though the last is below the first. -/
theorem orderAll_not_transitive :
    let minusOne := docV (.arr [.num (.int (-1))])
    orderAll byV minusOne (zeroV false) = .lt ∧ orderAll byV (zeroV false) (zeroV true) = .eq ∧
      orderAll byV minusOne (zeroV true) = .gt ∧
      sort byV id [zeroV false, zeroV false, zeroV true, minusOne] =
        [zeroV false, zeroV false, zeroV true, minusOne] := by
  have hself : orderAll byV (zeroV false) (zeroV false) = .eq := by decide
  have hzero : orderAll byV (zeroV false) (zeroV true) = .eq := by decide
  have hone : orderAll byV (zeroV true) (docV (.arr [.num (.int (-1))])) = .lt := by decide
  have hkeys : byV.isEmpty = false := rfl
  refine ⟨by decide, hzero, by decide, ?_⟩
  simp [sort, List.mergeSort, List.MergeSort.Internal.splitInTwo, hself, hzero, hone, hkeys]

end SortKey

end EdgeFields