/-
  EdgeFields/Proofs/Prefix.lean
  =============================
  **Where an expression goes wrong.**

  The reader is deterministic and can always be brought to an end. A state that is reached by
  reading tokens is the state that the reader is in behind them, whatever follows
  (`Filter.Reached.read`), and some tokens behind them complete an expression
  (`Filter.Reached.viable`). So tokens that it has read without complaint are the beginning of
  an expression, and a token that it refuses rules every expression out: an expression goes
  wrong where the reader stops (`Filter.stop_of_read`).

  The position of the error is that place, with one exception: a token that stands in a group
  where only its parenthesis or a connective may stand is reported by the place of the token
  behind it (`Filter.parse_error_position`).
-/
import EdgeFields.Proofs.Grammar
import EdgeFields.Proofs.Scan

namespace EdgeFields.Filter

variable {length : Nat} {e : Expecting} {g : Group} {outer : List Group} {ts us : List Token}
  {t : Token} {located : List Located}

/-! ### The reader is where it has come to -/

/-- Behind conjunctions and the word that joins them to the next one, nothing of the next one
    has been read. -/
theorem Leading.read_disjunction {fs : List Filter} (h : Leading Disjunction "or" ts fs)
    (outer : List Group) (hts : located.map (·.token) = ts) (rest : List Located) :
    read length .operand .start outer (located ++ rest) =
      read length .operand ⟨fs, [], 0⟩ outer rest := by
  cases h with
  | nothing =>
    obtain rfl := List.map_eq_nil_iff.1 hts
    rfl
  | parts h hw =>
    obtain ⟨front, back, rfl, hfront, hback⟩ := List.map_eq_append_iff.1 hts
    obtain ⟨_, _, rfl, hend⟩ := exists_of_map_token_cons hback
    obtain rfl := List.map_eq_nil_iff.1 hend
    obtain ⟨g, hg, rfl, hread⟩ := h.read
    rw [List.append_assoc, hread outer hfront, List.singleton_append, read_or hw]
    simp [Group.split, hg]

theorem Leading.read_conjunction {gs fs : List Filter} (h : Leading Conjunction "and" ts fs)
    (outer : List Group) (hts : located.map (·.token) = ts) (rest : List Located) :
    read length .operand ⟨gs, [], 0⟩ outer (located ++ rest) =
      read length .operand ⟨gs, fs, 0⟩ outer rest := by
  cases h with
  | nothing =>
    obtain rfl := List.map_eq_nil_iff.1 hts
    rfl
  | parts h hw =>
    obtain ⟨front, back, rfl, hfront, hback⟩ := List.map_eq_append_iff.1 hts
    obtain ⟨_, _, rfl, hend⟩ := exists_of_map_token_cons hback
    obtain rfl := List.map_eq_nil_iff.1 hend
    rw [List.append_assoc, h.read _ rfl outer hfront, List.singleton_append, read_and hw]
    rfl

/-- Exclamation marks are counted. -/
theorem read_bangs {n : Nat} (g : Group) (outer : List Group)
    (hts : located.map (·.token) = List.replicate n .bang) (rest : List Located) :
    read length .operand g outer (located ++ rest) =
      read length .operand { g with negations := g.negations + n } outer rest := by
  induction n generalizing g located with
  | zero =>
    obtain rfl := List.map_eq_nil_iff.1 hts
    rfl
  | succ n ih =>
    obtain ⟨_, tail, rfl, htail⟩ := exists_of_map_token_cons hts
    have hbang := ih { g with negations := g.negations + 1 } htail
    simp only [Nat.add_assoc, Nat.add_comm 1] at hbang
    rw [List.cons_append, ← hbang, read]

theorem Group.Awaits.read (h : g.Awaits ts) (outer : List Group)
    (hts : located.map (·.token) = ts) (rest : List Located) :
    Filter.read length .operand .start outer (located ++ rest) =
      Filter.read length .operand g outer rest := by
  obtain ⟨before, under, hbefore, hunder, rfl⟩ := h
  obtain ⟨front, back, rfl, hfront, hback⟩ := List.map_eq_append_iff.1 hts
  obtain ⟨middle, bangs, rfl, hmiddle, hbangs⟩ := List.map_eq_append_iff.1 hback
  rw [List.append_assoc, hbefore.read_disjunction outer hfront, List.append_assoc,
    hunder.read_conjunction outer hmiddle, read_bangs _ outer hbangs, Nat.zero_add]

theorem Group.Completed.read (h : g.Completed ts) (outer : List Group)
    (hts : located.map (·.token) = ts) (rest : List Located) :
    Filter.read length .operand .start outer (located ++ rest) =
      Filter.read length .connective g outer rest := by
  obtain ⟨before, under, hbefore, hunder, hg, rfl⟩ := h
  obtain ⟨front, back, rfl, hfront, hback⟩ := List.map_eq_append_iff.1 hts
  rw [List.append_assoc, hbefore.read_disjunction outer hfront, hunder.read _ rfl outer hback,
    ← hg]
  rfl

theorem Group.Stands.read (h : g.Stands e ts) (outer : List Group)
    (hts : located.map (·.token) = ts) (rest : List Located) :
    Filter.read length .operand .start outer (located ++ rest) =
      Filter.read length e g outer rest := by
  cases e with
  | operand => exact Awaits.read h outer hts rest
  | operator p =>
    obtain ⟨us, w, hg, hw, rfl, rfl⟩ := h
    obtain ⟨front, back, rfl, hfront, hback⟩ := List.map_eq_append_iff.1 hts
    obtain ⟨_, _, rfl, hend⟩ := exists_of_map_token_cons hback
    obtain rfl := List.map_eq_nil_iff.1 hend
    rw [List.append_assoc, hg.read outer hfront, List.singleton_append, read_word hw]
  | value p o =>
    obtain ⟨us, w, k, hg, hw, rfl, hk, rfl⟩ := h
    obtain ⟨front, back, rfl, hfront, hback⟩ := List.map_eq_append_iff.1 hts
    obtain ⟨_, _, rfl, hlast⟩ := exists_of_map_token_cons hback
    obtain ⟨_, _, rfl, hend⟩ := exists_of_map_token_cons hlast
    obtain rfl := List.map_eq_nil_iff.1 hend
    rw [List.append_assoc, hg.read outer hfront, List.cons_append, List.singleton_append,
      read_word hw, read_operator hk]
  | connective => exact Completed.read h outer hts rest

theorem Enclosing.read (h : Enclosing outer ts) (hts : located.map (·.token) = ts)
    (rest : List Located) :
    Filter.read length .operand .start [] (located ++ rest) =
      Filter.read length .operand .start outer rest := by
  induction h generalizing located rest with
  | outermost =>
    obtain rfl := List.map_eq_nil_iff.1 hts
    rfl
  | group h hg ih =>
    obtain ⟨front, back, rfl, hfront, hback⟩ := List.map_eq_append_iff.1 hts
    obtain ⟨_, _, rfl, hend⟩ := exists_of_map_token_cons hback
    obtain rfl := List.map_eq_nil_iff.1 hend
    obtain ⟨around, under, rfl, haround, hunder⟩ := List.map_eq_append_iff.1 hfront
    rw [List.append_assoc, List.append_assoc, ih haround, hg.read _ hunder, List.singleton_append,
      Filter.read]

/-- **Behind the tokens by which a state is reached the reader is in that state**, whatever
    follows them. -/
theorem Reached.read (h : Reached e g outer ts) (hts : located.map (·.token) = ts)
    (rest : List Located) :
    Filter.read length .operand .start [] (located ++ rest) =
      Filter.read length e g outer rest := by
  obtain ⟨around, under, houter, hg, rfl⟩ := h
  obtain ⟨front, back, rfl, hfront, hback⟩ := List.map_eq_append_iff.1 hts
  rw [List.append_assoc, houter.read hfront, hg.read outer hback]

/-! ### Beginnings of expressions -/

/-- Tokens that can be continued to an expression. -/
def Viable (ts : List Token) : Prop := ∃ us f, Expression (ts ++ us) f

theorem Viable.of_append (h : Viable (ts ++ us)) : Viable ts := by
  obtain ⟨vs, f, hf⟩ := h
  exact ⟨us ++ vs, f, by rwa [← List.append_assoc]⟩

/-- Tokens that complete an operand. -/
def Expecting.completion : Expecting → List Token
  | .operand => [.word "true"]
  | .operator _ => [.word "pr"]
  | .value _ _ => [.word "null"]
  | .connective => []

theorem exists_read_completion (length : Nat) (e : Expecting) (g : Group) :
    ∃ g' : Group, ∀ (outer : List Group) (rest : List Located),
      read length e g outer (e.completion.map (Located.mk 0) ++ rest) =
        read length .connective g' outer rest := by
  have htrue : isKeyword "true" (toString true) = true := by decide +kernel
  have hpresent : isKeyword "pr" "pr" = true := by decide +kernel
  cases e with
  | operand => exact ⟨_, fun _ _ => read_const htrue⟩
  | operator p => exact ⟨_, fun _ _ => read_present hpresent⟩
  | value p o => exact ⟨_, fun _ _ => read_value .null⟩
  | connective => exact ⟨g, fun _ _ => rfl⟩

theorem exists_read_closing (length : Nat) (g : Group) (outer : List Group) :
    ∃ f, read length .connective g outer
      (List.replicate outer.length (Located.mk 0 .rightParen)) = .ok f := by
  induction outer generalizing g with
  | nil => exact ⟨g.close, by rw [List.length_nil, List.replicate_zero, read]⟩
  | cons around outer ih =>
    obtain ⟨f, hf⟩ := ih (around.add g.close)
    exact ⟨f, by rw [List.length_cons, List.replicate_succ, read, hf]⟩

/-- **Tokens that have been read are the beginning of an expression**: what is missing of the
    last operand and one parenthesis for every open group complete it. -/
theorem Reached.viable (h : Reached e g outer ts) : Viable ts := by
  obtain ⟨g', hoperand⟩ := exists_read_completion 0 e g
  obtain ⟨f, hf⟩ := exists_read_closing 0 g' outer
  rw [← hoperand] at hf
  exact ⟨_, f, expression_of_read h hf⟩

/-! ### One more token -/

/-- The reader gives up at a token, whatever follows it. It reports the place of the token, or
    that of the one behind it if the token leaves a group unclosed. -/
def Refuses (e : Expecting) (g : Group) (outer : List Group) (t : Token) : Prop :=
  ∀ length pos rest, ∃ error, read length e g outer (⟨pos, t⟩ :: rest) = .error error ∧
    error.position = if error.fault = .unclosedGroup then offsetOf length rest else pos

/-- A token takes the reader from one state to another, whatever follows it. -/
def Advances (e : Expecting) (g : Group) (outer : List Group) (t : Token) (e' : Expecting)
    (g' : Group) (outer' : List Group) : Prop :=
  ∀ length pos rest, read length e g outer (⟨pos, t⟩ :: rest) = read length e' g' outer' rest

theorem Refuses.operand (hbang : t ≠ .bang) (hparen : t ≠ .leftParen) (hword : ∀ w, t ≠ .word w) :
    Refuses .operand g outer t := by
  intro length pos rest
  refine ⟨⟨pos, .unexpectedToken t⟩, ?_, rfl⟩
  rw [read]
  · exact hbang
  · exact hparen
  · exact hword

theorem Refuses.operator {p : Pointer} (hword : ∀ w, t ≠ .word w) :
    Refuses (.operator p) g outer t := by
  intro length pos rest
  refine ⟨⟨pos, .missingOperator⟩, ?_, rfl⟩
  rw [read]
  exact hword

theorem Refuses.operator_word {p : Pointer} {w : String} (hpresent : isKeyword w "pr" = false)
    (hoperator : Operator.ofKeyword? w = none) : Refuses (.operator p) g outer (.word w) := by
  intro length pos rest
  exact ⟨⟨pos, .unknownOperator w⟩, by simp [read, hpresent, hoperator], rfl⟩

theorem Refuses.value {p : Pointer} {o : Operator} (hquoted : ∀ s, t ≠ .quoted s)
    (hword : ∀ w, t ≠ .word w) : Refuses (.value p o) g outer t := by
  intro length pos rest
  refine ⟨⟨pos, .missingValue⟩, ?_, rfl⟩
  rw [read]
  · exact hquoted
  · exact hword

theorem Refuses.value_word {p : Pointer} {o : Operator} {w : String} (h : literal? w = none) :
    Refuses (.value p o) g outer (.word w) := by
  intro length pos rest
  exact ⟨⟨pos, .invalidValue w⟩, by simp [read, h], rfl⟩

theorem Refuses.connective (hparen : t ≠ .rightParen ∨ outer = []) (hword : ∀ w, t ≠ .word w) :
    Refuses .connective g outer t := by
  intro length pos rest
  cases outer with
  | nil =>
    refine ⟨⟨pos, .trailingInput⟩, ?_, rfl⟩
    rw [read]
    exact hword
  | cons around outer =>
    refine ⟨⟨offsetOf length rest, .unclosedGroup⟩, ?_, rfl⟩
    rw [read]
    · simpa using hparen
    · exact hword

theorem Refuses.connective_word {w : String} (hand : isKeyword w "and" = false)
    (hor : isKeyword w "or" = false) : Refuses .connective g outer (.word w) := by
  intro length pos rest
  cases outer with
  | nil => exact ⟨⟨pos, .trailingInput⟩, by simp [read, hand, hor], rfl⟩
  | cons around outer =>
    exact ⟨⟨offsetOf length rest, .unclosedGroup⟩, by simp [read, hand, hor], rfl⟩

/-- What a word is in an expression. -/
inductive Role where
  | field
  /-- A constant as an operand, `pr`, an operator, `and` or `or`. -/
  | keyword
  /-- `true`, `false` or `null` as a value. -/
  | constant
  | number

/-- A word that the reader takes, and what it is there. -/
inductive Expecting.Takes : Expecting → String → Role → Prop
  | field {w : String} (hw : IsField w) : Takes .operand w .field
  | boolean {w : String} {b : Bool} (hw : isKeyword w (toString b) = true) :
    Takes .operand w .keyword
  | presence {w : String} {p : Pointer} (hw : isKeyword w "pr" = true) :
    Takes (.operator p) w .keyword
  | operator {w : String} {p : Pointer} {o : Operator} (hw : isKeyword w o.keyword = true) :
    Takes (.operator p) w .keyword
  | constant {w : String} {p : Pointer} {o : Operator}
    (hw : w = "true" ∨ w = "false" ∨ w = "null") : Takes (.value p o) w .constant
  | number {w : String} {p : Pointer} {o : Operator} {n : Number}
    (hw : Number.Literal w.toList n) : Takes (.value p o) w .number
  | and {w : String} (hw : isKeyword w "and" = true) : Takes .connective w .keyword
  | or {w : String} (hw : isKeyword w "or" = true) : Takes .connective w .keyword

theorem Value.takes {w : String} {v : Json} (h : Value (.word w) v) (p : Pointer) (o : Operator) :
    ∃ role, (Expecting.value p o).Takes w role := by
  cases h with
  | true => exact ⟨_, .constant (.inl rfl)⟩
  | false => exact ⟨_, .constant (.inr (.inl rfl))⟩
  | null => exact ⟨_, .constant (.inr (.inr rfl))⟩
  | number h => exact ⟨_, .number h⟩

namespace Reached

/-- A word takes the reader on, or is refused. -/
theorem next_word (h : Reached e g outer ts) (w : String) :
    (∃ role e' g', e.Takes w role ∧ Reached e' g' outer (ts ++ [.word w]) ∧
      Advances e g outer (.word w) e' g' outer) ∨
      Refuses e g outer (.word w) := by
  cases e with
  | operand =>
    by_cases htrue : isKeyword w "true" = true
    · exact .inl ⟨_, _, _, .boolean (b := true) htrue, h.operand (.const (b := true) htrue),
        fun _ _ _ => read_const htrue⟩
    by_cases hfalse : isKeyword w "false" = true
    · exact .inl ⟨_, _, _, .boolean (b := false) hfalse, h.operand (.const (b := false) hfalse),
        fun _ _ _ => read_const hfalse⟩
    have hw : IsField w := ⟨Bool.eq_false_iff.2 htrue, Bool.eq_false_iff.2 hfalse⟩
    exact .inl ⟨_, _, _, .field hw, h.field hw, fun _ _ _ => read_word hw⟩
  | operator p =>
    by_cases hpresent : isKeyword w "pr" = true
    · exact .inl ⟨_, _, _, .presence hpresent, h.present hpresent,
        fun _ _ _ => read_present hpresent⟩
    cases ho : Operator.ofKeyword? w with
    | some o =>
      have hk := ofKeyword?_eq_some_iff.1 ho
      exact .inl ⟨_, _, _, .operator hk, h.operator hk, fun _ _ _ => read_operator hk⟩
    | none => exact .inr (.operator_word (Bool.eq_false_iff.2 hpresent) ho)
  | value p o =>
    cases hv : literal? w with
    | some v =>
      have hvalue := literal?_eq_some_iff.1 hv
      obtain ⟨role, hrole⟩ := hvalue.takes p o
      exact .inl ⟨role, _, _, hrole, h.value hvalue, fun _ _ _ => read_value hvalue⟩
    | none => exact .inr (.value_word hv)
  | connective =>
    by_cases hand : isKeyword w "and" = true
    · exact .inl ⟨_, .operand, _, .and hand, h.step fun _ hg => hg.and hand,
        fun _ _ _ => read_and hand⟩
    by_cases hor : isKeyword w "or" = true
    · exact .inl ⟨_, .operand, _, .or hor, h.step fun _ hg => hg.or hor,
        fun _ _ _ => read_or hor⟩
    exact .inr (.connective_word (Bool.eq_false_iff.2 hand) (Bool.eq_false_iff.2 hor))

/-- **A token takes the reader on, or is refused.** -/
theorem next (h : Reached e g outer ts) (t : Token) :
    (∃ e' g' outer', Reached e' g' outer' (ts ++ [t]) ∧ Advances e g outer t e' g' outer') ∨
      Refuses e g outer t := by
  cases t with
  | word w => exact (h.next_word w).imp_left fun ⟨_, e', g', _, h'⟩ => ⟨e', g', outer, h'⟩
  | bang =>
    cases e with
    | operand =>
      exact .inl ⟨.operand, _, _, h.step fun _ hg => hg.bang, fun _ _ _ => by rw [Filter.read]⟩
    | operator p => exact .inr (.operator nofun)
    | value p o => exact .inr (.value nofun nofun)
    | connective => exact .inr (.connective (.inl nofun) nofun)
  | leftParen =>
    cases e with
    | operand => exact .inl ⟨_, _, _, h.opening, fun _ _ _ => by rw [Filter.read]⟩
    | operator p => exact .inr (.operator nofun)
    | value p o => exact .inr (.value nofun nofun)
    | connective => exact .inr (.connective (.inl nofun) nofun)
  | rightParen =>
    cases e with
    | operand => exact .inr (.operand nofun nofun nofun)
    | operator p => exact .inr (.operator nofun)
    | value p o => exact .inr (.value nofun nofun)
    | connective =>
      cases outer with
      | nil => exact .inr (.connective (.inr rfl) nofun)
      | cons around outer =>
        exact .inl ⟨_, _, _, h.closing, fun _ _ _ => by rw [Filter.read]⟩
  | quoted s =>
    cases e with
    | operand => exact .inr (.operand nofun nofun nofun)
    | operator p => exact .inr (.operator nofun)
    | value p o => exact .inl ⟨_, _, _, h.value (.string s), fun _ _ _ => read_value (.string s)⟩
    | connective => exact .inr (.connective (.inl nofun) nofun)

/-- A token that is refused rules every expression out. -/
theorem not_viable (h : Reached e g outer ts) (ht : Refuses e g outer t) :
    ¬ Viable (ts ++ [t]) := by
  rintro ⟨us, f, hf⟩
  have hlocated : ∀ ts : List Token, (ts.map (Located.mk 0)).map (·.token) = ts := by
    intro ts
    rw [List.map_map]
    exact List.map_id' ts
  rw [← hlocated (ts ++ [t] ++ us)] at hf
  have hread : Filter.read 0 .operand .start [] _ = .ok f := read_eq_ok_iff.2 hf
  rw [List.append_assoc, List.map_append, h.read (hlocated ts), List.singleton_append,
    List.map_cons] at hread
  obtain ⟨error, herror, _⟩ := ht 0 0 (us.map (Located.mk 0))
  rw [herror] at hread
  cases hread

end Reached

/-- At the end of the tokens the reader has an expression or reports the end. -/
theorem position_of_read_nil {error : ReadError} (h : read length e g outer [] = .error error) :
    error.position = length := by
  cases e with
  | connective =>
    cases outer with
    | nil => cases h
    | cons around outer =>
      cases h
      rfl
  | _ =>
    cases h
    rfl

/-! ### Where the reader stops -/

/-- Tokens that are read behind others go wrong with an error: at the first of them that rules
    every expression out, or else at the end. A token that leaves a group unclosed is reported
    by the place of the one behind it, all others by their own. -/
inductive Stop (length : Nat) (ts : List Token) : List Located → ReadError → Prop
  | token {before after : List Located} {t : Located} {error : ReadError}
    (hbefore : Viable (ts ++ before.map (·.token)))
    (ht : ¬ Viable (ts ++ (before ++ [t]).map (·.token)))
    (h : error.position =
      if error.fault = .unclosedGroup then offsetOf length after else t.offset) :
    Stop length ts (before ++ t :: after) error
  | ending {rest : List Located} {error : ReadError} (h : Viable (ts ++ rest.map (·.token)))
    (hposition : error.position = length) : Stop length ts rest error

/-- One more token has been read. -/
theorem Stop.cons {error : ReadError} {rest : List Located} {t : Located}
    (h : Stop length (ts ++ [t.token]) rest error) : Stop length ts (t :: rest) error := by
  cases h with
  | token hbefore ht h =>
    rw [← List.cons_append]
    exact .token (by simpa using hbefore) (by simpa using ht) h
  | ending h hposition => exact .ending (by simpa using h) hposition

/-- **A reading that fails stops where no expression is possible any more.** -/
theorem stop_of_read {error : ReadError} {rest : List Located} (hreached : Reached e g outer ts)
    (h : read length e g outer rest = .error error) : Stop length ts rest error := by
  induction rest generalizing e g outer ts with
  | nil => exact .ending (by simpa using hreached.viable) (position_of_read_nil h)
  | cons t rest ih =>
    obtain ⟨pos, t⟩ := t
    rcases hreached.next t with ⟨e', g', outer', hreached', hadvances⟩ | hrefuses
    · rw [hadvances] at h
      exact .cons (ih hreached' h)
    · obtain ⟨error', herror, hposition⟩ := hrefuses length pos rest
      rw [herror] at h
      cases h
      rw [← List.nil_append (⟨pos, t⟩ :: rest)]
      exact .token (by simpa using hreached.viable) (by simpa using hreached.not_viable hrefuses)
        hposition

/-! ### The position of an error -/

/-- Where an expression of some length goes wrong: at the first token with which the tokens
    before it cannot be continued any more, or else at its end. -/
inductive GoesWrongAt (length : Nat) (located : List Located) : Nat → Prop
  | token {before after : List Located} {t : Located} (h : located = before ++ t :: after)
    (hbefore : Viable (before.map (·.token))) (ht : ¬ Viable ((before ++ [t]).map (·.token))) :
    GoesWrongAt length located t.offset
  | ending (h : Viable (located.map (·.token))) : GoesWrongAt length located length

/-- Tokens that can be continued end before the token that rules every expression out. -/
theorem not_viable_of_append {before after : List Located} {t : Located}
    (ht : ¬ Viable ((before ++ [t]).map (·.token))) :
    ¬ Viable ((before ++ t :: after).map (·.token)) := by
  intro h
  rw [← List.singleton_append, ← List.append_assoc, List.map_append] at h
  exact ht h.of_append

/-- An expression goes wrong at one place only. -/
theorem GoesWrongAt.unique {place place' : Nat} (h : GoesWrongAt length located place)
    (h' : GoesWrongAt length located place') : place = place' := by
  cases h with
  | token h hbefore ht =>
    cases h' with
    | token h' hbefore' ht' =>
      rw [h, List.append_eq_append_iff] at h'
      obtain ⟨_ | ⟨_, middle⟩, rfl, htail⟩ | ⟨_ | ⟨_, middle⟩, rfl, htail⟩ := h'
      · cases htail
        rfl
      · cases htail
        exact absurd hbefore' (not_viable_of_append ht)
      · cases htail
        rfl
      · cases htail
        exact absurd hbefore (not_viable_of_append ht')
    | ending h' => exact absurd h' (h ▸ not_viable_of_append ht)
  | ending h =>
    cases h' with
    | token h' hbefore' ht' => exact absurd h (h' ▸ not_viable_of_append ht')
    | ending => rfl

/-- An expression that has tokens is what the reader makes of them. -/
theorem parse_of_tokens {expression : String} (htokens : tokens expression = .ok located)
    (hsome : located ≠ []) :
    parse expression = read expression.utf8ByteSize .operand .start [] located := by
  unfold parse
  rw [htokens]
  cases located with
  | nil => exact absurd rfl hsome
  | cons t located => rfl

/-- The reader stops where the expression goes wrong. -/
theorem stop_of_parse {expression : String} {error : ReadError}
    (htokens : tokens expression = .ok located) (hsome : located ≠ [])
    (h : parse expression = .error error) :
    Stop expression.utf8ByteSize [] located error := by
  rw [parse_of_tokens htokens hsome] at h
  exact stop_of_read reached_start h

/-- **The position of an error is where the expression goes wrong**, unless a token leaves a
    group unclosed. Such a token is reported by a place behind it: that of the next token, or
    else the end of the expression. -/
theorem parse_error_position {expression : String} {located : List Located} {error : ReadError}
    (htokens : tokens expression = .ok located) (hsome : located ≠ [])
    (h : parse expression = .error error) :
    ∃ place, (∀ n, GoesWrongAt expression.utf8ByteSize located n ↔ n = place) ∧
      (error.position = place ↔
        error.fault ≠ .unclosedGroup ∨ Viable (located.map (·.token))) ∧
      (error.position ≠ place → ∃ before t after, located = before ++ t :: after ∧
        place = t.offset ∧ error.position = offsetOf expression.utf8ByteSize after) := by
  have honly : ∀ {place}, GoesWrongAt expression.utf8ByteSize located place →
      ∀ n, GoesWrongAt expression.utf8ByteSize located n ↔ n = place :=
    fun hplace n => ⟨fun hn => hn.unique hplace, fun hn => hn ▸ hplace⟩
  cases stop_of_parse htokens hsome h with
  | @token before after t _ hbefore ht hposition =>
    rw [List.nil_append] at hbefore ht
    -- the token that is behind stands behind it
    have hascending := ascending_scan .nothing 0 expression.toList _ htokens trivial
    rw [String.ofList_toList, Nat.zero_add] at hascending
    have hlt := hascending.lt_offsetOf
    refine ⟨t.offset, honly (.token rfl hbefore ht), ?_, ?_⟩
    · by_cases hfault : error.fault = .unclosedGroup
      · rw [if_pos hfault] at hposition
        rw [hposition]
        refine iff_of_false (Nat.ne_of_gt hlt) ?_
        exact not_or_intro (absurd hfault) (not_viable_of_append ht)
      · rw [if_neg hfault] at hposition
        exact iff_of_true hposition (.inl hfault)
    · intro hne
      refine ⟨before, t, after, rfl, rfl, ?_⟩
      split at hposition
      · exact hposition
      · exact absurd hposition hne
  | ending hviable hposition =>
    rw [List.nil_append] at hviable
    exact ⟨_, honly (.ending hviable), iff_of_true hposition (.inr hviable), absurd hposition⟩

/-- An unknown operator in a group is reported where it stands. -/
theorem parse_error_position_unknownOperator :
    ∃ located, tokens "!(/a pr or /b zz 2)" = .ok located ∧
      parse "!(/a pr or /b zz 2)" = .error ⟨14, .unknownOperator "zz"⟩ ∧
      GoesWrongAt 19 located 14 := by
  have htokens : tokens "!(/a pr or /b zz 2)" = .ok ([⟨0, .bang⟩, ⟨1, .leftParen⟩,
      ⟨2, .word "/a"⟩, ⟨5, .word "pr"⟩, ⟨8, .word "or"⟩, ⟨11, .word "/b"⟩] ++
        ⟨14, .word "zz"⟩ :: [⟨17, .word "2"⟩, ⟨18, .rightParen⟩]) := by rfl
  have hfields : IsField "/a" ∧ IsField "/b" := by unfold IsField; decide +kernel
  have hpresent : isKeyword "pr" "pr" = true := by decide +kernel
  have hor : isKeyword "or" "or" = true := by decide +kernel
  have hbang : Reached .operand _ _ [.bang] := reached_start.step fun _ hg => hg.bang
  have hgroup := (hbang.opening.field hfields.1).present hpresent
  have halternative : Reached .operand _ _ _ := hgroup.step fun _ hg => hg.or hor
  have hparse : parse "!(/a pr or /b zz 2)" = .error ⟨14, .unknownOperator "zz"⟩ := by
    have hpr : isKeyword "zz" "pr" = false := by decide +kernel
    have hnone : Operator.ofKeyword? "zz" = none := by decide +kernel
    rw [parse_of_tokens htokens (List.cons_ne_nil _ _),
      (halternative.field hfields.2).read rfl]
    simp [read, hpr, hnone]
  obtain ⟨place, hplace, hposition, _⟩ :=
    parse_error_position htokens (List.cons_ne_nil _ _) hparse
  have hat : 14 = place := hposition.2 (.inl nofun)
  exact ⟨_, htokens, hparse, (hplace 14).2 hat⟩

/-- **A token that leaves a group unclosed is not where its error is reported.** Behind `pr` the
    group can be closed or go on with `and` or `or`, and `/b` at offset 7 is neither. The error
    names offset 10, at which the next token stands. -/
theorem unclosed_group_position :
    ∃ located, tokens "(/a pr /b pr)" = .ok located ∧
      parse "(/a pr /b pr)" = .error ⟨10, .unclosedGroup⟩ ∧
      GoesWrongAt 13 located 7 ∧ ¬ GoesWrongAt 13 located 10 := by
  have htokens : tokens "(/a pr /b pr)" = .ok ([⟨0, .leftParen⟩, ⟨1, .word "/a"⟩,
      ⟨4, .word "pr"⟩] ++ ⟨7, .word "/b"⟩ :: [⟨10, .word "pr"⟩, ⟨12, .rightParen⟩]) := by rfl
  have hfield : IsField "/a" := ⟨by decide +kernel, by decide +kernel⟩
  have hpresent : isKeyword "pr" "pr" = true := by decide +kernel
  have hand : isKeyword "/b" "and" = false := by decide +kernel
  have hor : isKeyword "/b" "or" = false := by decide +kernel
  have hreached := (reached_start.opening.field hfield).present hpresent
  have hparse : parse "(/a pr /b pr)" = .error ⟨10, .unclosedGroup⟩ := by
    rw [parse_of_tokens htokens (List.cons_ne_nil _ _), hreached.read rfl]
    simp [read, hand, hor, offsetOf]
  have hwrong : GoesWrongAt 13 ([⟨0, .leftParen⟩, ⟨1, .word "/a"⟩, ⟨4, .word "pr"⟩] ++
      ⟨7, .word "/b"⟩ :: [⟨10, .word "pr"⟩, ⟨12, .rightParen⟩]) 7 :=
    .token rfl hreached.viable (hreached.not_viable (.connective_word hand hor))
  exact ⟨_, htokens, hparse, hwrong, fun h => absurd (h.unique hwrong) (by decide)⟩

end EdgeFields.Filter
