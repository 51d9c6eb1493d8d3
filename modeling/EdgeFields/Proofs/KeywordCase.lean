/-
  EdgeFields/Proofs/KeywordCase.lean
  ==================================
  **Keywords in any case.**

  A word of an expression is a field, a keyword, or the value of a comparison, and which of
  them it is depends on the tokens before it alone (`Filter.ReadAs`). The same word in other
  letters takes up as many bytes and ends in the same place, so all other tokens stay as they
  are (`Filter.Placed.scan_respelled`). Behind the same tokens the reader is in the same state,
  and there a keyword counts in any case.

  The constants that are values, `true`, `false` and `null`, do not: in other letters they are
  refused (`Filter.parse_respelled`).
-/
import Mathlib
import EdgeFields.Proofs.Prefix

namespace EdgeFields.Filter

/-! ### The same word in other letters -/

section Letters

variable {c d : Char} {cs ds : List Char} {w w' : String}

/-- Characters that agree but for case are the same, or two letters. -/
theorem eq_or_isAlpha_of_toLower_eq (h : c.toLower = d.toLower) :
    c = d ∨ (c.isAlpha = true ∧ d.isAlpha = true) := by
  by_cases hc : c.isAlpha = true
  · right
    rw [← Char.isAlpha_toLower_eq_isAlpha d, ← h, Char.isAlpha_toLower_eq_isAlpha]
    exact ⟨hc, hc⟩
  · have hd : ¬ d.isAlpha = true := by
      rwa [← Char.isAlpha_toLower_eq_isAlpha d, ← h, Char.isAlpha_toLower_eq_isAlpha]
    have hupper : ∀ {x : Char}, ¬ x.isAlpha = true → ¬ x.isUpper = true :=
      fun hx hu => hx (by rw [Char.isAlpha, hu, Bool.true_or])
    rw [Char.toLower_eq_of_not_isUpper (hupper hc), Char.toLower_eq_of_not_isUpper (hupper hd)] at h
    exact .inl h

/-- Every letter can start a word and takes up one byte. -/
theorem starts_of_isAlpha (h : c.isAlpha = true) : Starts c ∧ c.utf8Size = 1 := by
  have hall : ∀ n : Fin 123, (Char.ofNat n).isAlpha = true →
      Starts (Char.ofNat n) ∧ (Char.ofNat n).utf8Size = 1 := by decide
  have hlt : c.toNat < 123 := by
    rw [Char.isAlpha, Bool.or_eq_true, Char.isUpper, Char.isLower] at h
    simp only [Bool.and_eq_true, decide_eq_true_eq, UInt32.le_iff_toNat_le] at h
    exact Nat.lt_succ_of_le (h.elim (fun h => Nat.le_trans h.2 (by decide)) (·.2))
  have hc := hall ⟨c.toNat, hlt⟩
  rw [Char.ofNat_toNat] at hc
  exact hc h

theorem isAlpha_of_isDigit (h : c.isDigit = true) : c.isAlpha = false := by
  simp only [Char.isDigit, Bool.and_eq_true, decide_eq_true_eq, UInt32.le_iff_toNat_le] at h
  have hlt : c.val.toNat < 'A'.val.toNat := Nat.lt_of_le_of_lt h.2 (by decide)
  rw [← Bool.not_eq_true, Char.isAlpha, Bool.or_eq_true, Char.isUpper, Char.isLower]
  simp only [Bool.and_eq_true, decide_eq_true_eq, UInt32.le_iff_toNat_le]
  rintro (hc | hc)
  · exact Nat.not_le_of_lt hlt hc.1
  · exact Nat.not_le_of_lt (Nat.lt_trans hlt (by decide)) hc.1

theorem starts_of_toLower_eq (h : c.toLower = d.toLower) (hd : Starts d) : Starts c := by
  rcases eq_or_isAlpha_of_toLower_eq h with rfl | ⟨hc, _⟩
  · exact hd
  · exact (starts_of_isAlpha hc).1

theorem plain_of_toLower_eq (h : c.toLower = d.toLower) (hd : Plain d) : Plain c := by
  rcases eq_or_isAlpha_of_toLower_eq h with rfl | ⟨hc, _⟩
  · exact hd
  · exact (starts_of_isAlpha hc).1.1

theorem utf8Size_of_toLower_eq (h : c.toLower = d.toLower) : c.utf8Size = d.utf8Size := by
  rcases eq_or_isAlpha_of_toLower_eq h with rfl | ⟨hc, hd⟩
  · rfl
  · rw [(starts_of_isAlpha hc).2, (starts_of_isAlpha hd).2]

theorem utf8ByteSize_of_map_toLower_eq (h : cs.map Char.toLower = ds.map Char.toLower) :
    (String.ofList cs).utf8ByteSize = (String.ofList ds).utf8ByteSize := by
  induction cs generalizing ds with
  | nil =>
    obtain rfl := List.map_eq_nil_iff.1 h.symm
    rfl
  | cons c cs ih =>
    obtain ⟨d, ds, rfl, hc, hcs⟩ := List.map_eq_cons_iff.1 h.symm
    have hcons := fun c cs => add_utf8ByteSize_cons 0 c cs
    simp only [Nat.zero_add] at hcons
    rw [hcons, hcons, utf8Size_of_toLower_eq hc, ih hcs.symm]

theorem isWord_of_map_toLower_eq (h : cs.map Char.toLower = ds.map Char.toLower)
    (hds : IsWord ds) : IsWord cs := by
  cases ds with
  | nil => exact hds.elim
  | cons d ds =>
    obtain ⟨c, cs, rfl, hc, hcs⟩ := List.map_eq_cons_iff.1 h
    refine ⟨starts_of_toLower_eq hc hds.1, ?_⟩
    intro x hx
    have hlower : x.toLower ∈ ds.map Char.toLower := by
      rw [← hcs]
      exact List.mem_map_of_mem hx
    obtain ⟨y, hy, hyx⟩ := List.mem_map.1 hlower
    exact plain_of_toLower_eq hyx.symm (hds.2 y hy)

theorem map_toLower_of_toLower_eq (h : w'.toLower = w.toLower) :
    w'.toList.map Char.toLower = w.toList.map Char.toLower := by
  have hlist := congrArg String.toList h
  rwa [String.toLower, String.toLower, String.toList_map, String.toList_map] at hlist

/-- **In other letters a word stands between the same tokens.** -/
theorem Placed.scan_respelled {p : Pending} {pos offset : Nat} {front rest : List Char}
    {before after : List Located} (h : Placed p pos cs before offset w after front rest)
    (hlower : w'.toLower = w.toLower) :
    scan p pos (front ++ (w'.toList ++ rest)) = .ok (before ++ ⟨offset, .word w'⟩ :: after) := by
  have hlist := map_toLower_of_toLower_eq hlower
  have hsize := utf8ByteSize_of_map_toLower_eq hlist
  rw [String.ofList_toList, String.ofList_toList] at hsize
  exact h.scan_replaced (isWord_of_map_toLower_eq hlist h.isWord) hsize

theorem isKeyword_of_toLower_eq {k : String} (h : w'.toLower = w.toLower)
    (hw : isKeyword w k = true) : isKeyword w' k = true := by
  rwa [isKeyword, h]

end Letters

/-! ### Words behind tokens -/

variable {length : Nat} {e : Expecting} {g : Group} {outer : List Group} {ts : List Token}
  {w w' : String} {role : Role}

/-- What a word is behind tokens. -/
def ReadAs (ts : List Token) (w : String) (role : Role) : Prop :=
  ∃ e g outer, Reached e g outer ts ∧ e.Takes w role

theorem Viable.exists_reached (h : Viable ts) : ∃ e g outer, Reached e g outer ts := by
  induction ts using List.reverseRecOn with
  | nil => exact ⟨_, _, _, reached_start⟩
  | append_singleton ts t ih =>
    obtain ⟨e, g, outer, hreached⟩ := ih h.of_append
    rcases hreached.next t with ⟨e', g', outer', hreached', _⟩ | hrefuses
    · exact ⟨e', g', outer', hreached'⟩
    · exact absurd h (hreached.not_viable hrefuses)

/-- Every word of an expression is one thing or the other. -/
theorem Viable.exists_readAs (h : Viable (ts ++ [.word w])) : ∃ role, ReadAs ts w role := by
  obtain ⟨e, g, outer, hreached⟩ := h.of_append.exists_reached
  rcases hreached.next_word w with ⟨role, _, _, htakes, _⟩ | hrefuses
  · exact ⟨role, e, g, outer, hreached, htakes⟩
  · exact absurd h (hreached.not_viable hrefuses)

/-- A keyword takes the reader to the same state in any case. -/
theorem Expecting.Takes.advances (h : e.Takes w .keyword) (hlower : w'.toLower = w.toLower)
    (g : Group) (outer : List Group) :
    ∃ e' g', Advances e g outer (.word w) e' g' outer ∧
      Advances e g outer (.word w') e' g' outer := by
  have hkeyword := fun k => isKeyword_of_toLower_eq (k := k) hlower
  cases h with
  | boolean hw => exact ⟨_, _, fun _ _ _ => read_const hw, fun _ _ _ => read_const (hkeyword _ hw)⟩
  | presence hw =>
    exact ⟨_, _, fun _ _ _ => read_present hw, fun _ _ _ => read_present (hkeyword _ hw)⟩
  | operator hw =>
    exact ⟨_, _, fun _ _ _ => read_operator hw, fun _ _ _ => read_operator (hkeyword _ hw)⟩
  | and hw => exact ⟨_, _, fun _ _ _ => read_and hw, fun _ _ _ => read_and (hkeyword _ hw)⟩
  | or hw => exact ⟨_, _, fun _ _ _ => read_or hw, fun _ _ _ => read_or (hkeyword _ hw)⟩

theorem read_respelled {before after : List Located} {pos : Nat}
    (h : ReadAs (before.map (·.token)) w .keyword) (hlower : w'.toLower = w.toLower) :
    read length .operand .start [] (before ++ ⟨pos, .word w'⟩ :: after) =
      read length .operand .start [] (before ++ ⟨pos, .word w⟩ :: after) := by
  obtain ⟨e, g, outer, hreached, htakes⟩ := h
  obtain ⟨e', g', hw, hw'⟩ := htakes.advances hlower g outer
  rw [hreached.read rfl, hreached.read rfl, hw, hw']

/-- No character of a number is a letter that starts a constant. -/
theorem toLower_notMem_of_mem_number {n : Number} {cs : List Char} (h : Number.Literal cs n)
    {c : Char} (hc : c ∈ cs) : c.toLower ∉ ['t', 'f', 'n'] := by
  rcases h.mem hc with hdigit | hmark
  · intro hletter
    have halpha : c.toLower.isAlpha = true := by
      simp only [List.mem_cons, List.not_mem_nil, or_false] at hletter
      rcases hletter with h | h | h <;> rw [h] <;> decide
    rw [Char.isAlpha_toLower_eq_isAlpha, isAlpha_of_isDigit hdigit] at halpha
    cases halpha
  · simp only [List.mem_cons, List.not_mem_nil, or_false] at hmark
    rcases hmark with rfl | rfl | rfl | rfl | rfl <;> decide +kernel

/-- A constant in other letters is no value. -/
theorem literal?_of_constant (h : w = "true" ∨ w = "false" ∨ w = "null")
    (hlower : w'.toLower = w.toLower) (hne : w' ≠ w) : literal? w' = none := by
  have hconstant : ∀ k, k = "true" ∨ k = "false" ∨ k = "null" →
      k.toLower = k ∧ ∃ c cs, k.toList = c :: cs ∧ c.toLower ∈ ['t', 'f', 'n'] := by
    rintro k (rfl | rfl | rfl) <;>
      exact ⟨by decide +kernel, _, _, rfl, by decide +kernel⟩
  have hother : ¬ (w' = "true" ∨ w' = "false" ∨ w' = "null") := by
    intro h'
    rw [(hconstant w' h').1, (hconstant w h).1] at hlower
    exact hne hlower
  rw [Option.eq_none_iff_forall_ne_some]
  intro v hv
  cases literal?_eq_some_iff.1 hv with
  | true => exact hother (.inl rfl)
  | false => exact hother (.inr (.inl rfl))
  | null => exact hother (.inr (.inr rfl))
  | number hnumber =>
    obtain ⟨_, d, ds, hcons, hd⟩ := hconstant w h
    have hlist := map_toLower_of_toLower_eq hlower
    rw [hcons, List.map_cons] at hlist
    obtain ⟨c, cs, hcs, hc, _⟩ := List.map_eq_cons_iff.1 hlist
    refine toLower_notMem_of_mem_number hnumber (c := c) ?_ (hc ▸ hd)
    rw [hcs]
    exact List.mem_cons_self

theorem read_of_constant {before after : List Located} {pos : Nat}
    (h : ReadAs (before.map (·.token)) w .constant) (hlower : w'.toLower = w.toLower)
    (hne : w' ≠ w) :
    read length .operand .start [] (before ++ ⟨pos, .word w'⟩ :: after) =
      .error ⟨pos, .invalidValue w'⟩ := by
  obtain ⟨e, g, outer, hreached, htakes⟩ := h
  rw [hreached.read rfl]
  cases htakes with
  | constant hw => simp [read, literal?_of_constant hw hlower hne]

/-! ### Expressions in other letters -/

/-- **Keywords count in any case, but constants that are values do not.** Every word of an
    accepted expression is a field, a keyword or a value. A keyword may be written in any case:
    the expression is accepted with the same filter. A constant that is a value may not: the
    expression is rejected where it stands. -/
theorem parse_respelled {expression w : String} {f : Filter} {before after : List Located}
    {pos : Nat} (htokens : tokens expression = .ok (before ++ ⟨pos, .word w⟩ :: after))
    (h : parse expression = .ok f) :
    (∃ role, ReadAs (before.map (·.token)) w role) ∧
      ∃ front back : String, expression = front ++ w ++ back ∧ front.utf8ByteSize = pos ∧
        ∀ w' : String, w'.toLower = w.toLower →
          (ReadAs (before.map (·.token)) w .keyword → parse (front ++ w' ++ back) = .ok f) ∧
          (ReadAs (before.map (·.token)) w .constant → w' ≠ w →
            parse (front ++ w' ++ back) = .error ⟨pos, .invalidValue w'⟩) := by
  obtain ⟨front, rest, hplaced⟩ := exists_placed _ _ _ before htokens trivial
  have hsplit : expression = String.ofList front ++ w ++ String.ofList rest := by
    rw [← String.ofList_toList (s := expression), hplaced.split, String.ofList_append,
      String.ofList_append, String.ofList_toList, String.append_assoc]
  have hoffset := hplaced.offset_eq
  rw [Nat.zero_add] at hoffset
  have hviable : Viable (before.map (·.token) ++ [.word w]) := by
    obtain ⟨located, hlocated, hf⟩ := parse_eq_ok_iff.1 h
    rw [htokens] at hlocated
    cases hlocated
    refine ⟨after.map (·.token), f, ?_⟩
    simpa using hf
  refine ⟨hviable.exists_readAs, _, _, hsplit, hoffset.symm, ?_⟩
  intro w' hlower
  have hrespelled : tokens (String.ofList front ++ w' ++ String.ofList rest) =
      .ok (before ++ ⟨pos, .word w'⟩ :: after) := by
    rw [tokens, String.toList_append, String.toList_append, String.toList_ofList,
      String.toList_ofList, List.append_assoc]
    exact hplaced.scan_respelled hlower
  have hsome : ∀ t : Located, before ++ t :: after ≠ [] := fun t => by simp
  rw [parse_of_tokens hrespelled (hsome _)]
  constructor
  · intro hkeyword
    rw [parse_of_tokens htokens (hsome _)] at h
    rw [read_respelled hkeyword hlower, read_eq_ok_iff]
    exact read_eq_ok_iff.1 h
  · exact fun hconstant hne => read_of_constant hconstant hlower hne

/-- A conjunction in capitals may be written in any case. -/
theorem parse_respelled_conjunction :
    parse "(/a pr AND true)" = .ok (all [present (.field "a"), const true]) ∧
      ∃ front back : String, "(/a pr AND true)" = front ++ "AND" ++ back ∧
        parse (front ++ "aNd" ++ back) = .ok (all [present (.field "a"), const true]) := by
  have htokens : tokens "(/a pr AND true)" =
      .ok ([⟨0, .leftParen⟩, ⟨1, .word "/a"⟩, ⟨4, .word "pr"⟩] ++
        ⟨7, .word "AND"⟩ :: [⟨11, .word "true"⟩, ⟨15, .rightParen⟩]) := by rfl
  have hfield : IsField "/a" := ⟨by decide +kernel, by decide +kernel⟩
  have hpresent : isKeyword "pr" "pr" = true := by decide +kernel
  have hand : isKeyword "AND" "and" = true := by decide +kernel
  have hmixed : isKeyword "aNd" "and" = true := by decide +kernel
  have htrue : isKeyword "true" "true" = true := by decide +kernel
  have hreached := (reached_start.opening.field hfield).present hpresent
  have hparse : parse "(/a pr AND true)" = .ok (all [present (.field "a"), const true]) := by
    rw [parse_of_tokens htokens (List.cons_ne_nil _ _), hreached.read rfl]
    simp only [read, hand, htrue, if_true]
    rfl
  obtain ⟨_, front, back, hsplit, _, hrespelled⟩ := parse_respelled htokens hparse
  have hlower : "aNd".toLower = "AND".toLower :=
    (beq_iff_eq.1 hmixed).trans (beq_iff_eq.1 hand).symm
  exact ⟨hparse, front, back, hsplit, (hrespelled "aNd" hlower).1 ⟨_, _, _, hreached, .and hand⟩⟩

/-- **A constant that is a value counts in lower case only**, though it is a keyword and an
    operand in any case. -/
theorem constant_in_capitals :
    parse "/a eq true" = .ok (compare (.field "a") .equals (.bool true)) ∧
      ReadAs [.word "/a", .word "eq"] "true" .constant ∧ "TRUE".toLower = "true".toLower ∧
      parse "/a eq TRUE" = .error ⟨6, .invalidValue "TRUE"⟩ ∧ parse "TRUE" = .ok (const true) := by
  have hfield : IsField "/a" := ⟨by decide +kernel, by decide +kernel⟩
  have hequals : isKeyword "eq" Operator.equals.keyword = true := by decide +kernel
  have hcapitals : isKeyword "TRUE" "true" = true := by decide +kernel
  have htrue : isKeyword "true" "true" = true := by decide +kernel
  have hlower : "TRUE".toLower = "true".toLower :=
    (beq_iff_eq.1 hcapitals).trans (beq_iff_eq.1 htrue).symm
  have hconstant : ReadAs [.word "/a", .word "eq"] "true" .constant :=
    ⟨_, _, _, (reached_start.field hfield).operator hequals, .constant (.inl rfl)⟩
  have haccepted : parse "/a eq true" = .ok (compare (.field "a") .equals (.bool true)) :=
    parse_eq_ok_iff.2 ⟨_, rfl, .of (.one (.one (.leaf (.compare hfield hequals .true))))⟩
  have htokens : tokens "/a eq TRUE" = .ok ([⟨0, .word "/a"⟩, ⟨3, .word "eq"⟩] ++
      ⟨6, .word "TRUE"⟩ :: []) := by rfl
  have hrejected : parse "/a eq TRUE" = .error ⟨6, .invalidValue "TRUE"⟩ := by
    rw [parse_of_tokens htokens (List.cons_ne_nil _ _)]
    exact read_of_constant hconstant hlower (by decide)
  have hword : tokens "TRUE" = .ok [⟨0, .word "TRUE"⟩] := by rfl
  have hoperand : parse "TRUE" = .ok (const true) := by
    rw [parse_of_tokens hword (List.cons_ne_nil _ _)]
    simp only [read, hcapitals, if_true]
    rfl
  exact ⟨haccepted, hconstant, hlower, hrejected, hoperand⟩

end EdgeFields.Filter
