/-
  EdgeFields/Proofs/Grammar.lean
  ==============================
  **The grammar of filter expressions.**

  An expression is a disjunction of conjunctions of operands; an operand is a constant, a
  leaf, a negated operand or an expression in parentheses (`Filter.Operand`,
  `Filter.Conjunction`, `Filter.Disjunction`, `Filter.Expression`). Lists of one part stand
  for the part, and parentheses leave no trace in the filter. A number is a numeral in the range
  of doubles.

  The reader is a machine with a stack and knows nothing of phrases. It finds every phrase
  of the grammar, because each phrase takes it from one state to the state with the phrase's
  filter added (`Operand.read`, `Conjunction.read`, `Disjunction.read`). It finds nothing
  else, because in every state the tokens before it are the beginning of a phrase for each
  group on the stack (`Group.Awaits`, `Group.Completed`, `Enclosing`). The grammar is
  therefore unambiguous, as the machine is.
-/
import EdgeFields.Filter.Reader
import EdgeFields.Proofs.LiteralRange

namespace EdgeFields.Filter

/-! ### The grammar -/

/-- Whether a word can stand for a field. -/
def IsField (word : String) : Prop :=
  isKeyword word "true" = false ∧ isKeyword word "false" = false

/-- A value and the document that it denotes. -/
inductive Value : Token → Json → Prop
  | string (s : String) : Value (.quoted s) (.str s)
  | true : Value (.word "true") (.bool Bool.true)
  | false : Value (.word "false") (.bool Bool.false)
  | null : Value (.word "null") .null
  | number {w : String} {n : Number} (h : Number.Literal w.toList n) : Value (.word w) (.num n)

/-- A test of one field. -/
inductive Leaf : List Token → Filter → Prop
  | present {w k : String} (hw : IsField w) (hk : isKeyword k "pr" = Bool.true) :
    Leaf [.word w, .word k] (present (Pointer.ofText w))
  | compare {w k : String} {o : Operator} {t : Token} {v : Json} (hw : IsField w)
    (hk : isKeyword k o.keyword = Bool.true) (ht : Value t v) :
    Leaf [.word w, .word k, t] (compare (Pointer.ofText w) o v)

mutual

inductive Operand : List Token → Filter → Prop
  | const {w : String} {b : Bool} (h : isKeyword w (toString b) = Bool.true) :
    Operand [.word w] (const b)
  | leaf {ts : List Token} {f : Filter} (h : Leaf ts f) : Operand ts f
  | negation {ts : List Token} {f : Filter} (h : Operand ts f) : Operand (.bang :: ts) (not f)
  | group {ts : List Token} {f : Filter} (h : Expression ts f) :
    Operand (.leftParen :: (ts ++ [.rightParen])) f

/-- Operands joined by `and`. -/
inductive Conjunction : List Token → List Filter → Prop
  | one {ts : List Token} {f : Filter} (h : Operand ts f) : Conjunction ts [f]
  | more {ts us : List Token} {fs : List Filter} {f : Filter} {w : String}
    (hts : Conjunction ts fs) (hw : isKeyword w "and" = Bool.true) (h : Operand us f) :
    Conjunction (ts ++ .word w :: us) (fs ++ [f])

/-- Conjunctions joined by `or`. -/
inductive Disjunction : List Token → List Filter → Prop
  | one {ts : List Token} {fs : List Filter} (h : Conjunction ts fs) :
    Disjunction ts [collapse .all fs]
  | more {ts us : List Token} {gs fs : List Filter} {w : String}
    (hts : Disjunction ts gs) (hw : isKeyword w "or" = Bool.true) (h : Conjunction us fs) :
    Disjunction (ts ++ .word w :: us) (gs ++ [collapse .all fs])

/-- A whole expression and its filter. -/
inductive Expression : List Token → Filter → Prop
  | of {ts : List Token} {fs : List Filter} (h : Disjunction ts fs) :
    Expression ts (collapse .any fs)

end

/-! ### Keywords -/

/-- No word is two different keywords. -/
theorem eq_of_isKeyword {w k k' : String} (h : isKeyword w k = true) (h' : isKeyword w k' = true) :
    k = k' := by
  rw [isKeyword, beq_iff_eq] at h h'
  rw [← h, h']

theorem isKeyword_of_ne {w k k' : String} (h : isKeyword w k = true) (hne : k ≠ k') :
    isKeyword w k' = false :=
  Bool.eq_false_iff.2 fun h' => hne (eq_of_isKeyword h h')

theorem ofKeyword?_eq_some_iff {w : String} {o : Operator} :
    Operator.ofKeyword? w = some o ↔ isKeyword w o.keyword = true := by
  have hinj : ∀ o o' : Operator, o.keyword = o'.keyword → o = o' := by
    intro o o'
    cases o <;> cases o' <;> decide
  have hall : ∀ o : Operator, o ∈ Operator.all := by
    intro o
    cases o <;> decide
  unfold Operator.ofKeyword? isKeyword
  constructor
  · intro h
    have hkeyword := List.find?_some h
    rw [beq_iff_eq] at hkeyword ⊢
    exact hkeyword.symm
  · intro h
    rw [beq_iff_eq] at h
    cases hfind : Operator.all.find? fun o => o.keyword == w.toLower with
    | none =>
      have hno := List.find?_eq_none.1 hfind o (hall o)
      simp [h] at hno
    | some o' =>
      have hkeyword := List.find?_some hfind
      rw [beq_iff_eq, h] at hkeyword
      rw [hinj _ _ hkeyword]

theorem literal?_eq_some_iff {w : String} {v : Json} :
    literal? w = some v ↔ Value (.word w) v := by
  have hno : ∀ {n : Number} {k : String}, Number.ofText? k.toList = none →
      w = k → ¬ Number.Literal w.toList n := by
    rintro n k hnone rfl h
    rw [Number.ofText?_eq_some_iff.2 h] at hnone
    cases hnone
  unfold literal?
  constructor
  · intro h
    split at h
    · next hw =>
      cases h
      rw [hw]
      exact .true
    · split at h
      · next hw =>
        cases h
        rw [hw]
        exact .false
      · split at h
        · next hw =>
          cases h
          rw [hw]
          exact .null
        · obtain ⟨n, hn, rfl⟩ := Option.map_eq_some_iff.1 h
          exact .number (Number.ofText?_eq_some_iff.1 hn)
  · intro h
    cases h with
    | true => rfl
    | false => rfl
    | null => rfl
    | number h =>
      rw [if_neg fun hw => hno (by decide) hw h, if_neg fun hw => hno (by decide) hw h,
        if_neg fun hw => hno (by decide) hw h, Number.ofText?_eq_some_iff.2 h]
      rfl

/-! ### Steps of the reader -/

variable {length : Nat} {g : Group} {outer : List Group} {pos : Nat} {rest : List Located}
  {ts us : List Token} {f : Filter} {fs : List Filter} {w k : String}

section Steps

attribute [local simp] read

theorem read_word (hw : IsField w) :
    read length .operand g outer (⟨pos, .word w⟩ :: rest) =
      read length (.operator (Pointer.ofText w)) g outer rest := by
  simp [hw.1, hw.2]

theorem read_const {b : Bool} (h : isKeyword w (toString b) = true) :
    read length .operand g outer (⟨pos, .word w⟩ :: rest) =
      read length .connective (g.add (const b)) outer rest := by
  cases b with
  | true => simp [show isKeyword w "true" = true from h]
  | false =>
    have hfalse : isKeyword w "false" = true := h
    have htrue : isKeyword w "true" = false := isKeyword_of_ne hfalse (by decide)
    simp [htrue, hfalse]

theorem read_present {p : Pointer} (hk : isKeyword k "pr" = true) :
    read length (.operator p) g outer (⟨pos, .word k⟩ :: rest) =
      read length .connective (g.add (present p)) outer rest := by
  simp [hk]

theorem read_operator {p : Pointer} {o : Operator} (hk : isKeyword k o.keyword = true) :
    read length (.operator p) g outer (⟨pos, .word k⟩ :: rest) =
      read length (.value p o) g outer rest := by
  have hne : o.keyword ≠ "pr" := by
    cases o <;> decide
  simp [isKeyword_of_ne hk hne, ofKeyword?_eq_some_iff.2 hk]

theorem read_value {p : Pointer} {o : Operator} {t : Token} {v : Json} (h : Value t v) :
    read length (.value p o) g outer (⟨pos, t⟩ :: rest) =
      read length .connective (g.add (compare p o v)) outer rest := by
  cases t with
  | quoted s =>
    cases h
    simp
  | word w => simp [literal?_eq_some_iff.2 h]
  | leftParen => cases h
  | rightParen => cases h
  | bang => cases h

theorem read_and (hw : isKeyword w "and" = true) :
    read length .connective g outer (⟨pos, .word w⟩ :: rest) =
      read length .operand g outer rest := by
  cases outer <;> simp [hw]

theorem read_or (hw : isKeyword w "or" = true) :
    read length .connective g outer (⟨pos, .word w⟩ :: rest) =
      read length .operand g.split outer rest := by
  have hand : isKeyword w "and" = false := isKeyword_of_ne hw (by decide)
  cases outer <;> simp [hw, hand]

end Steps

/-! ### The reader finds every phrase -/

theorem negate_not (n : Nat) (f : Filter) : negate n (not f) = not (negate n f) := by
  induction n with
  | zero => rfl
  | succ n ih => rw [negate, negate, ih]

/-- A negated operand is added as the operand behind one more exclamation mark. -/
theorem Group.add_not (g : Group) (f : Filter) :
    Group.add { g with negations := g.negations + 1 } f = g.add (not f) := by
  simp [Group.add, negate, negate_not]

/-- A located token in front. -/
theorem exists_of_map_token_cons {located : List Located} {t : Token}
    (h : located.map (·.token) = t :: ts) :
    ∃ pos tail, located = ⟨pos, t⟩ :: tail ∧ tail.map (·.token) = ts := by
  obtain ⟨⟨pos, t'⟩, tail, rfl, rfl, htail⟩ := List.map_eq_cons_iff.1 h
  exact ⟨pos, tail, rfl, htail⟩

theorem Leaf.read (h : Leaf ts f) {located : List Located}
    (hts : located.map (·.token) = ts) :
    Filter.read length .operand g outer (located ++ rest) =
      Filter.read length .connective (g.add f) outer rest := by
  cases h with
  | present hw hk =>
    obtain ⟨_, _, rfl, h₁⟩ := exists_of_map_token_cons hts
    obtain ⟨_, _, rfl, h₂⟩ := exists_of_map_token_cons h₁
    obtain rfl := List.map_eq_nil_iff.1 h₂
    simp only [List.cons_append, List.nil_append]
    rw [read_word hw, read_present hk]
  | compare hw hk ht =>
    obtain ⟨_, _, rfl, h₁⟩ := exists_of_map_token_cons hts
    obtain ⟨_, _, rfl, h₂⟩ := exists_of_map_token_cons h₁
    obtain ⟨_, _, rfl, h₃⟩ := exists_of_map_token_cons h₂
    obtain rfl := List.map_eq_nil_iff.1 h₃
    simp only [List.cons_append, List.nil_append]
    rw [read_word hw, read_operator hk, read_value ht]

mutual

/-- **An operand is added to the group under way.** -/
theorem Operand.read : ∀ {ts : List Token} {f : Filter}, Operand ts f →
    ∀ (g : Group) (outer : List Group) {located : List Located},
      located.map (·.token) = ts → ∀ rest : List Located,
      Filter.read length .operand g outer (located ++ rest) =
        Filter.read length .connective (g.add f) outer rest
  | _, _, .const h, g, outer, _, hts, rest => by
    obtain ⟨_, _, rfl, hend⟩ := exists_of_map_token_cons hts
    obtain rfl := List.map_eq_nil_iff.1 hend
    exact read_const h
  | _, _, .leaf h, g, outer, _, hts, rest => h.read hts
  | _, _, .negation h, g, outer, _, hts, rest => by
    obtain ⟨_, _, rfl, htail⟩ := exists_of_map_token_cons hts
    rw [← Group.add_not, ← h.read _ _ htail rest]
    simp [Filter.read]
  | _, _, .group h, g, outer, _, hts, rest => by
    obtain ⟨_, _, rfl, htail⟩ := exists_of_map_token_cons hts
    obtain ⟨located, close, rfl, hlocated, hclose⟩ := List.map_eq_append_iff.1 htail
    obtain ⟨_, _, rfl, hend⟩ := exists_of_map_token_cons hclose
    obtain rfl := List.map_eq_nil_iff.1 hend
    obtain ⟨inner, rfl, hread⟩ := h.read
    rw [List.cons_append, List.append_assoc]
    simp only [Filter.read]
    rw [hread _ hlocated]
    simp [Filter.read]

/-- The operands of a conjunction are added one after the other. -/
theorem Conjunction.read : ∀ {ts : List Token} {fs : List Filter}, Conjunction ts fs →
    ∀ (g : Group), g.negations = 0 → ∀ (outer : List Group) {located : List Located},
      located.map (·.token) = ts → ∀ rest : List Located,
      Filter.read length .operand g outer (located ++ rest) =
        Filter.read length .connective { g with conjuncts := g.conjuncts ++ fs } outer rest
  | _, _, .one h, g, hg, outer, _, hts, rest => by
    rw [h.read g outer hts rest]
    simp [Group.add, hg, negate]
  | _, _, .more hfs hw h, g, hg, outer, _, hts, rest => by
    obtain ⟨front, back, rfl, hfront, hback⟩ := List.map_eq_append_iff.1 hts
    obtain ⟨_, last, rfl, hlast⟩ := exists_of_map_token_cons hback
    rw [List.append_assoc, hfs.read g hg outer hfront, List.cons_append, read_and hw,
      h.read _ outer hlast rest]
    simp [Group.add, hg, negate]

/-- The conjunctions of a disjunction leave the reader behind the last one of them. -/
theorem Disjunction.read : ∀ {ts : List Token} {fs : List Filter}, Disjunction ts fs →
    ∃ g : Group, g.negations = 0 ∧ g.alternatives ++ [collapse .all g.conjuncts] = fs ∧
      ∀ (outer : List Group) {located : List Located}, located.map (·.token) = ts →
        ∀ rest : List Located,
        Filter.read length .operand .start outer (located ++ rest) =
          Filter.read length .connective g outer rest
  | _, _, .one h => ⟨_, rfl, rfl, h.read .start rfl⟩
  | _, _, .more hgs hw h => by
    obtain ⟨g, hg, rfl, hread⟩ := hgs.read
    refine ⟨{ g.split with conjuncts := [] ++ _ }, hg, rfl, ?_⟩
    intro outer located hts rest
    obtain ⟨front, back, rfl, hfront, hback⟩ := List.map_eq_append_iff.1 hts
    obtain ⟨_, last, rfl, hlast⟩ := exists_of_map_token_cons hback
    rw [List.append_assoc, hread outer hfront, List.cons_append, read_or hw]
    exact h.read g.split hg outer hlast rest

theorem Expression.read : ∀ {ts : List Token} {f : Filter}, Expression ts f →
    ∃ g : Group, g.close = f ∧
      ∀ (outer : List Group) {located : List Located}, located.map (·.token) = ts →
        ∀ rest : List Located,
        Filter.read length .operand .start outer (located ++ rest) =
          Filter.read length .connective g outer rest
  | _, _, .of h => by
    obtain ⟨g, _, rfl, hread⟩ := h.read
    exact ⟨g, rfl, hread⟩

end

/-! ### The reader finds nothing else -/

/-- What stands in front of the next part of a list: nothing, or the parts before it and the
    word that joins it to them. -/
inductive Leading (P : List Token → List Filter → Prop) (joint : String) :
    List Token → List Filter → Prop
  | nothing : Leading P joint [] []
  | parts {ts : List Token} {fs : List Filter} {w : String} (h : P ts fs)
    (hw : isKeyword w joint = true) : Leading P joint (ts ++ [.word w]) fs

theorem Leading.conjunction (h : Leading Conjunction "and" ts fs) (hf : Operand us f) :
    Conjunction (ts ++ us) (fs ++ [f]) := by
  cases h with
  | nothing => exact .one hf
  | parts hts hw =>
    rw [List.append_assoc]
    exact .more hts hw hf

theorem Leading.disjunction {gs : List Filter} (h : Leading Disjunction "or" ts gs)
    (hfs : Conjunction us fs) : Disjunction (ts ++ us) (gs ++ [collapse .all fs]) := by
  cases h with
  | nothing => exact .one hfs
  | parts hts hw =>
    rw [List.append_assoc]
    exact .more hts hw hfs

theorem Operand.negate (h : Operand ts f) (n : Nat) :
    Operand (List.replicate n .bang ++ ts) (Filter.negate n f) := by
  induction n with
  | zero => exact h
  | succ n ih => exact .negation ih

namespace Group

/-- The group has read the tokens, and an operand is due. -/
def Awaits (g : Group) (ts : List Token) : Prop :=
  ∃ before under, Leading Disjunction "or" before g.alternatives ∧
    Leading Conjunction "and" under g.conjuncts ∧
    ts = before ++ (under ++ List.replicate g.negations .bang)

/-- The group has read the tokens, and its last operand is complete. -/
def Completed (g : Group) (ts : List Token) : Prop :=
  ∃ before under, Leading Disjunction "or" before g.alternatives ∧
    Conjunction under g.conjuncts ∧ g.negations = 0 ∧ ts = before ++ under

theorem awaits_start : start.Awaits [] := ⟨[], [], .nothing, .nothing, rfl⟩

theorem Awaits.bang (h : g.Awaits ts) :
    Awaits { g with negations := g.negations + 1 } (ts ++ [.bang]) := by
  obtain ⟨before, under, hbefore, hunder, rfl⟩ := h
  refine ⟨before, under, hbefore, hunder, ?_⟩
  simp [List.replicate_succ']

theorem Awaits.add (h : g.Awaits ts) (hf : Operand us f) : (g.add f).Completed (ts ++ us) := by
  obtain ⟨before, under, hbefore, hunder, rfl⟩ := h
  refine ⟨before, _, hbefore, hunder.conjunction (hf.negate g.negations), rfl, ?_⟩
  simp only [List.append_assoc]

theorem Completed.and (h : g.Completed ts) (hw : isKeyword w "and" = true) :
    g.Awaits (ts ++ [.word w]) := by
  obtain ⟨before, under, hbefore, hunder, hg, rfl⟩ := h
  refine ⟨before, _, hbefore, .parts hunder hw, ?_⟩
  simp [hg]

theorem Completed.or (h : g.Completed ts) (hw : isKeyword w "or" = true) :
    g.split.Awaits (ts ++ [.word w]) := by
  obtain ⟨before, under, hbefore, hunder, hg, rfl⟩ := h
  refine ⟨_, [], .parts (hbefore.disjunction hunder) hw, .nothing, ?_⟩
  simp [split, hg]

theorem Completed.close (h : g.Completed ts) : Expression ts g.close := by
  obtain ⟨before, under, hbefore, hunder, _, rfl⟩ := h
  exact .of (hbefore.disjunction hunder)

end Group

/-- The group under way has read the tokens, the last of which may be the front of a leaf. -/
def Group.Stands (g : Group) : Expecting → List Token → Prop
  | .operand, ts => g.Awaits ts
  | .operator p, ts =>
    ∃ us w, g.Awaits us ∧ IsField w ∧ p = Pointer.ofText w ∧ ts = us ++ [.word w]
  | .value p o, ts =>
    ∃ us w k, g.Awaits us ∧ IsField w ∧ p = Pointer.ofText w ∧ isKeyword k o.keyword = true ∧
      ts = us ++ [.word w, .word k]
  | .connective, ts => g.Completed ts

/-- The groups around the one under way have read the tokens, each up to the parenthesis that
    opens the next one. -/
inductive Enclosing : List Group → List Token → Prop
  | outermost : Enclosing [] []
  | group {g : Group} {outer : List Group} {ts us : List Token} (h : Enclosing outer ts)
    (hg : g.Awaits us) : Enclosing (g :: outer) (ts ++ us ++ [.leftParen])

/-- The reader has come to a state by reading the tokens. -/
def Reached (e : Expecting) (g : Group) (outer : List Group) (ts : List Token) : Prop :=
  ∃ around under, Enclosing outer around ∧ g.Stands e under ∧ ts = around ++ under

theorem reached_start : Reached .operand .start [] [] :=
  ⟨[], [], .outermost, Group.awaits_start, rfl⟩

namespace Reached

variable {e e' : Expecting} {g' : Group} {t : Token}

/-- A token that stays in the group under way. -/
theorem step (h : Reached e g outer ts)
    (hstep : ∀ under, g.Stands e under → g'.Stands e' (under ++ [t])) :
    Reached e' g' outer (ts ++ [t]) := by
  obtain ⟨around, under, houter, hg, rfl⟩ := h
  exact ⟨around, under ++ [t], houter, hstep under hg, List.append_assoc _ _ _⟩

theorem opening (h : Reached .operand g outer ts) :
    Reached .operand .start (g :: outer) (ts ++ [.leftParen]) := by
  obtain ⟨around, under, houter, hg, rfl⟩ := h
  exact ⟨_, [], .group houter hg, Group.awaits_start, (List.append_nil _).symm⟩

theorem closing {around : Group} (h : Reached .connective g (around :: outer) ts) :
    Reached .connective (around.add g.close) outer (ts ++ [.rightParen]) := by
  obtain ⟨_, under, houter, hg, rfl⟩ := h
  cases houter with
  | group houter hg' =>
    refine ⟨_, _, houter, hg'.add (.group hg.close), ?_⟩
    simp only [List.append_assoc, List.cons_append, List.nil_append]

theorem operand (h : Reached .operand g outer ts) (hf : Operand [t] f) :
    Reached .connective (g.add f) outer (ts ++ [t]) :=
  h.step fun _ hg => hg.add hf

theorem field (h : Reached .operand g outer ts) (hw : IsField w) :
    Reached (.operator (Pointer.ofText w)) g outer (ts ++ [.word w]) :=
  h.step fun under hg => ⟨under, w, hg, hw, rfl, rfl⟩

theorem present {p : Pointer} (h : Reached (.operator p) g outer ts)
    (hk : isKeyword k "pr" = true) :
    Reached .connective (g.add (present p)) outer (ts ++ [.word k]) := by
  refine h.step ?_
  rintro _ ⟨us, w, hg, hw, rfl, rfl⟩
  rw [List.append_assoc]
  exact hg.add (.leaf (.present hw hk))

theorem operator {p : Pointer} {o : Operator} (h : Reached (.operator p) g outer ts)
    (hk : isKeyword k o.keyword = true) : Reached (.value p o) g outer (ts ++ [.word k]) := by
  refine h.step ?_
  rintro _ ⟨us, w, hg, hw, rfl, rfl⟩
  exact ⟨us, w, k, hg, hw, rfl, hk, List.append_assoc _ _ _⟩

theorem value {p : Pointer} {o : Operator} {v : Json} (h : Reached (.value p o) g outer ts)
    (ht : Value t v) : Reached .connective (g.add (compare p o v)) outer (ts ++ [t]) := by
  refine h.step ?_
  rintro _ ⟨us, w, k, hg, hw, rfl, hk, rfl⟩
  rw [List.append_assoc]
  exact hg.add (.leaf (.compare hw hk ht))

end Reached

/-- **What is read is an expression**, put together from the tokens read so far and those
    still to be read. -/
theorem expression_of_read {e : Expecting} (hreached : Reached e g outer ts)
    (h : read length e g outer rest = .ok f) : Expression (ts ++ rest.map (·.token)) f := by
  revert h
  fun_induction read length e g outer rest generalizing ts with
  | case1 | case7 | case8 | case11 | case12 | case13 | case16 | case17 | case19 | case23 | case24
    | case25 =>
    -- the reader gives up
    intro h
    cases h
  | case2 g outer pos rest ih =>
    rw [List.map_cons, List.append_cons]
    exact ih (hreached.step fun _ hg => hg.bang)
  | case3 g outer pos rest ih =>
    rw [List.map_cons, List.append_cons]
    exact ih hreached.opening
  | case4 g outer pos rest w hw ih =>
    rw [List.map_cons, List.append_cons]
    exact ih (hreached.operand (.const hw))
  | case5 g outer pos rest w _ hw ih =>
    rw [List.map_cons, List.append_cons]
    exact ih (hreached.operand (.const hw))
  | case6 g outer pos rest w htrue hfalse ih =>
    rw [List.map_cons, List.append_cons]
    exact ih (hreached.field ⟨Bool.eq_false_iff.2 htrue, Bool.eq_false_iff.2 hfalse⟩)
  | case9 p g outer pos rest k hk ih =>
    rw [List.map_cons, List.append_cons]
    exact ih (hreached.present hk)
  | case10 p g outer pos rest k _ o ho ih =>
    rw [List.map_cons, List.append_cons]
    exact ih (hreached.operator (ofKeyword?_eq_some_iff.1 ho))
  | case14 p o g outer pos rest s ih =>
    rw [List.map_cons, List.append_cons]
    exact ih (hreached.value (.string s))
  | case15 p o g outer pos rest w v hv ih =>
    rw [List.map_cons, List.append_cons]
    exact ih (hreached.value (literal?_eq_some_iff.1 hv))
  | case18 g =>
    intro h
    cases h
    obtain ⟨_, under, houter, hg, rfl⟩ := hreached
    cases houter with
    | outermost =>
      rw [List.map_nil, List.append_nil]
      exact hg.close
  | case20 g pos rest around outer ih =>
    rw [List.map_cons, List.append_cons]
    exact ih hreached.closing
  | case21 g pos rest w outer hw ih =>
    rw [List.map_cons, List.append_cons]
    exact ih (hreached.step fun _ hg => hg.and hw)
  | case22 g pos rest w outer _ hw ih =>
    rw [List.map_cons, List.append_cons]
    exact ih (hreached.step fun _ hg => hg.or hw)

/-! ### What is accepted -/

/-- **The reader accepts an expression exactly if the grammar derives it.** -/
theorem read_eq_ok_iff :
    read length .operand .start [] rest = .ok f ↔ Expression (rest.map (·.token)) f := by
  constructor
  · exact expression_of_read reached_start
  · intro h
    obtain ⟨g, rfl, hread⟩ := @Expression.read length _ _ h
    have hrest := hread [] rfl []
    rw [List.append_nil] at hrest
    rw [hrest, Filter.read]

/-- No tokens are two expressions. -/
theorem Expression.unique {f f' : Filter} (h : Expression ts f) (h' : Expression ts f') :
    f = f' := by
  -- the machine reads the tokens wherever they stand
  have hlocated : (ts.map (Located.mk 0)).map (·.token) = ts := by
    rw [List.map_map]
    exact List.map_id' ts
  rw [← hlocated] at h h'
  have hread : Filter.read 0 .operand .start [] (ts.map (Located.mk 0)) = .ok f :=
    read_eq_ok_iff.2 h
  rw [read_eq_ok_iff.2 h'] at hread
  exact (Except.ok.inj hread).symm

/-- An expression is accepted if it is cut into tokens and the grammar derives these. -/
theorem parse_eq_ok_iff {expression : String} :
    parse expression = .ok f ↔
      ∃ located, tokens expression = .ok located ∧ Expression (located.map (·.token)) f := by
  have hempty : ¬ Expression [] f := by
    intro h
    have hread : read 0 .operand .start [] [] = .ok f := read_eq_ok_iff.2 h
    cases hread
  unfold parse
  cases htokens : tokens expression with
  | error e => simp [bind, Except.bind]
  | ok located =>
    simp only [bind, Except.bind, Except.ok.injEq, exists_eq_left']
    cases located with
    | nil =>
      constructor
      · intro h
        cases h
      · exact fun h => absurd h hempty
    | cons t located => exact read_eq_ok_iff

end EdgeFields.Filter
