/-
  EdgeFields/Proofs/PrintedFilter.lean
  ====================================
  **Reading undoes writing.**

  The expression of a filter is cut into the tokens that its parts were written for, as no
  part runs into the next one: a word ends at the space or the parenthesis that follows it
  (`Filter.Spells`). By induction over the filter these tokens are one operand of the grammar,
  which stands for the filter in normal form (`Filter.exists_operand`). What the grammar
  derives is in normal form already (`Filter.readable_of_expression`), and comes back
  unchanged.

  A pointer with an empty segment has no expression, and one with a blank or a parenthesis in
  a segment is cut in two. Doubles are taken to be read back as they are written.
-/
import EdgeFields.Proofs.Grammar
import EdgeFields.Proofs.PointerText
import EdgeFields.Proofs.QuotedText

namespace EdgeFields

namespace Filter

/-! ### Tokens of written text -/

/-- The characters are cut into the tokens, whatever breaks a word behind them. -/
def Spells (cs : List Char) (ts : List Token) : Prop :=
  ∀ pos rest, Breaks rest → ∃ located pos', located.map Located.token = ts ∧
    scan .nothing pos (cs ++ rest) = (scan .nothing pos' rest).map (located ++ ·)

variable {cs ds rest w : List Char} {ts us : List Token} {pos start : Nat} {c : Char}

theorem Spells.append (hcs : Spells cs ts) (hds : Spells ds us)
    (hbreaks : ∀ rest, Breaks rest → Breaks (ds ++ rest)) : Spells (cs ++ ds) (ts ++ us) := by
  intro pos rest hrest
  obtain ⟨front, middle, hfront, hscan⟩ := hcs pos (ds ++ rest) (hbreaks rest hrest)
  obtain ⟨back, pos', hback, hscan'⟩ := hds middle rest hrest
  refine ⟨front ++ back, pos', by rw [List.map_append, hfront, hback], ?_⟩
  rw [List.append_assoc, hscan, hscan']
  cases scan .nothing pos' rest with
  | error e => rfl
  | ok located => simp [Except.map]

/-! #### Single characters -/

theorem not_plain_blank : ¬ Plain ' ' := fun h => absurd h.1 (by decide)

theorem scan_blank (pos : Nat) (cs : List Char) :
    scan .nothing pos (' ' :: cs) = scan .nothing (pos + 1) cs := by
  rw [scan]
  rfl

theorem Spells.blank (h : Spells cs ts) : Spells (' ' :: cs) ts := by
  intro pos rest hrest
  rw [List.cons_append, scan_blank]
  exact h _ rest hrest

/-- Two texts with a space between them. -/
theorem Spells.spaced (hcs : Spells cs ts) (hds : Spells ds us) :
    Spells (cs ++ ' ' :: ds) (ts ++ us) :=
  hcs.append hds.blank fun _ _ => breaks_cons not_plain_blank _

theorem spells_nil : Spells [] [] := by
  intro pos rest _
  refine ⟨[], pos, rfl, ?_⟩
  rw [List.nil_append]
  cases scan .nothing pos rest <;> rfl

/-- A character that is a token by itself. -/
theorem Spells.cons {t : Token}
    (hc : ∀ pos cs, scan .nothing pos (c :: cs) = emit pos t (scan .nothing (pos + c.utf8Size) cs))
    (h : Spells cs ts) : Spells (c :: cs) (t :: ts) := by
  intro pos rest hrest
  obtain ⟨located, pos', hlocated, hscan⟩ := h (pos + c.utf8Size) rest hrest
  refine ⟨⟨pos, t⟩ :: located, pos', by rw [List.map_cons, hlocated], ?_⟩
  rw [List.cons_append, hc, hscan]
  cases scan .nothing pos' rest <;> rfl

theorem Spells.leftParen (h : Spells cs ts) : Spells ('(' :: cs) (.leftParen :: ts) :=
  h.cons fun _ _ => by rw [scan]; rfl

theorem Spells.bang (h : Spells cs ts) : Spells ('!' :: cs) (.bang :: ts) :=
  h.cons fun _ _ => by rw [scan]; rfl

theorem Spells.rightParen (h : Spells cs ts) : Spells (cs ++ [')']) (ts ++ [.rightParen]) :=
  h.append (spells_nil.cons fun _ _ => by rw [scan]; rfl)
    fun _ _ => breaks_cons (fun hplain => hplain.2.2 rfl) _

/-! #### Words -/

theorem spells_word {w : String} (hw : w.toList = c :: cs) (hc : Starts c)
    (hcs : ∀ c ∈ cs, Plain c) : Spells w.toList [.word w] := by
  intro pos rest hrest
  have hword : IsWord w.toList := by
    rw [hw]
    exact ⟨hc, hcs⟩
  have hscan := hword.scan hrest pos
  rw [String.ofList_toList] at hscan
  exact ⟨[⟨pos, .word w⟩], _, rfl, hscan⟩

theorem spells_fixed {w : String} (hw : w.toList = c :: cs)
    (h : Starts c ∧ (cs.all fun c => decide (Plain c)) = true) : Spells w.toList [.word w] :=
  spells_word hw h.1 (plain_of_all h.2)

/-! #### Strings -/

theorem spells_string (s : String) : Spells (Json.renderString s.toList) [.quoted s] := by
  intro pos rest _
  exact ⟨[⟨pos, _⟩], _, rfl, quotes_renderString s pos rest⟩

end Filter

/-! ### Fields -/

namespace Pointer

/-- A pointer whose text is one word that is read back. -/
def Plain (p : Pointer) : Prop := ∀ s ∈ p.segments, s ≠ "" ∧ ∀ c ∈ s.toList, Filter.Plain c

theorem plain_escapeChar {c : Char} (h : Filter.Plain c) : ∀ x ∈ escapeChar c, Filter.Plain x := by
  unfold escapeChar
  split
  · exact Filter.plain_of_all rfl
  · split
    · exact Filter.plain_of_all rfl
    · simpa using h

/-- The text of a pointer is a slash and more characters that stay in a word. -/
theorem Plain.render {p : Pointer} (h : p.Plain) :
    ∃ cs, p.render = '/' :: cs ∧ ∀ c ∈ cs, Filter.Plain c := by
  obtain ⟨segments⟩ := p
  have hall : ∀ segments : List String, (∀ s ∈ segments, ∀ c ∈ s.toList, Filter.Plain c) →
      ∀ c ∈ segments.flatMap fun s => '/' :: s.toList.flatMap escapeChar, Filter.Plain c := by
    intro segments hsegments c hc
    obtain ⟨s, hs, hc⟩ := List.mem_flatMap.1 hc
    rcases List.mem_cons.1 hc with rfl | hc
    · decide
    · obtain ⟨x, hx, hc⟩ := List.mem_flatMap.1 hc
      exact plain_escapeChar (hsegments s hs x hx) c hc
  cases segments with
  | nil => exact ⟨[], rfl, by simp⟩
  | cons s segments =>
    refine ⟨_, rfl, fun c hc => hall (s :: segments) (fun s hs => (h s hs).2) c ?_⟩
    exact List.mem_cons_of_mem _ hc

theorem Plain.ofText_text {p : Pointer} (h : p.Plain) : ofText p.text = p :=
  Pointer.ofText_text fun s hs => (h s hs).1

end Pointer

namespace Filter

/-- The text of a pointer is no constant. -/
theorem isField_text {p : Pointer} (h : p.Plain) : IsField p.text := by
  obtain ⟨cs, hrender, _⟩ := h.render
  have hne : ∀ k : String, k.toList.head? ≠ some '/' → isKeyword p.text k = false := by
    intro k hk
    rw [isKeyword, beq_eq_false_iff_ne]
    rintro rfl
    refine hk ?_
    have hlower : p.text.toLower = p.text.map Char.toLower := rfl
    rw [hlower, Pointer.text, String.toList_map, String.toList_ofList, hrender]
    rfl
  exact ⟨hne "true" (by decide +kernel), hne "false" (by decide +kernel)⟩

theorem spells_pointer {p : Pointer} (h : p.Plain) : Spells p.render [.word p.text] := by
  obtain ⟨cs, hrender, hcs⟩ := h.render
  have htext : p.text.toList = p.render := String.toList_ofList
  rw [← htext]
  exact spells_word (htext.trans hrender) (by decide) hcs

/-! ### Values -/

theorem spells_keyword (o : Operator) : Spells o.keyword.toList [.word o.keyword] := by
  cases o <;> exact spells_fixed rfl (by decide)

theorem starts_of_isDigit {c : Char} (h : c.isDigit = true) : Starts c := by
  have hall : ∀ n : Fin 10, Starts (Char.ofNat (48 + n)) := by decide
  have hrange : 48 ≤ c.toNat ∧ c.toNat ≤ 57 := by
    simpa [Char.isDigit, UInt32.le_iff_toNat_le] using h
  have hc := hall ⟨c.toNat - 48, by omega⟩
  rwa [show 48 + (c.toNat - 48) = c.toNat by omega, Char.ofNat_toNat] at hc

/-- A number literal is a word. -/
theorem spells_literal {w : String} {n : Number} (h : Number.Literal w.toList n) :
    Spells w.toList [.word w] := by
  have hstarts : ∀ c ∈ w.toList, Starts c := by
    intro c hc
    rcases h.mem hc with hc | hc
    · exact starts_of_isDigit hc
    · have hall : (['-', '+', '.', 'e', 'E'].all fun c => decide (Starts c)) = true := rfl
      exact of_decide_eq_true (List.all_eq_true.1 hall c hc)
  obtain ⟨c, cs, hw⟩ := List.exists_cons_of_ne_nil h.ne_nil
  rw [hw] at hstarts
  exact spells_word hw (hstarts c List.mem_cons_self)
    fun c hc => (hstarts c (List.mem_cons_of_mem _ hc)).1

end Filter

/-- A document without parts. -/
def Json.Scalar : Json → Prop
  | arr _ => False
  | obj _ => False
  | _ => True

namespace Filter

/-- **A scalar is one token**, which denotes it. -/
theorem exists_value {v : Json} (hv : v.Scalar) (hn : ∀ n, v = .num n → n.ReadsBack) :
    ∃ t, Spells v.render [t] ∧ Value t v := by
  cases v with
  | null => exact ⟨.word "null", spells_fixed rfl (by decide), .null⟩
  | bool b =>
    cases b with
    | true => exact ⟨.word "true", spells_fixed rfl (by decide), .true⟩
    | false => exact ⟨.word "false", spells_fixed rfl (by decide), .false⟩
  | num n =>
    have hliteral := Number.ofText?_eq_some_iff.1 (hn n rfl)
    rw [← String.toList_ofList (l := n.render)] at hliteral
    refine ⟨.word (String.ofList n.render), ?_, .number hliteral⟩
    have hword := spells_literal hliteral
    rwa [String.toList_ofList] at hword
  | str s => exact ⟨.quoted s, spells_string s, .string s⟩
  | arr _ => exact hv.elim
  | obj _ => exact hv.elim

/-! ### Filters -/

mutual

/-- The values that the leaves compare with, from left to right. -/
def values : Filter → List Json
  | const _ => []
  | all fs => valuesList fs
  | any fs => valuesList fs
  | not f => values f
  | compare _ _ v => [v]
  | present _ => []

def valuesList : List Filter → List Json
  | [] => []
  | f :: fs => values f ++ valuesList fs

end

/-- The fields of a filter stay words and its values have no parts. -/
structure Printable (f : Filter) : Prop where
  fields : ∀ p ∈ f.fields, p.Plain
  values : ∀ v ∈ f.values, v.Scalar

/-- The numbers of a filter are read back as they are written. -/
def NumbersReadBack (f : Filter) : Prop := ∀ n, .num n ∈ f.values → n.ReadsBack

mutual

/-- The filter as it is read back: an empty conjunction is true, an empty disjunction false,
    and a lone filter stands for its group. -/
def normal : Filter → Filter
  | const b => const b
  | all [] => const true
  | all (f :: fs) => collapse all (normal f :: normalList fs)
  | any [] => const false
  | any (f :: fs) => collapse any (normal f :: normalList fs)
  | not f => not (normal f)
  | compare p o v => compare p o v
  | present p => present p

def normalList : List Filter → List Filter
  | [] => []
  | f :: fs => normal f :: normalList fs

end

mutual

/-- Every group has two filters at least. -/
def Proper : Filter → Prop
  | all fs => 2 ≤ fs.length ∧ ProperList fs
  | any fs => 2 ≤ fs.length ∧ ProperList fs
  | not f => Proper f
  | _ => True

def ProperList : List Filter → Prop
  | [] => True
  | f :: fs => Proper f ∧ ProperList fs

end

/-! ### What is written is an operand -/

/-- An operand alone is a whole expression. -/
theorem Operand.expression {f : Filter} (h : Operand ts f) : Expression ts f := .of (.one (.one h))

/-- A leaf's value is one token. -/
def Writable (v : Json) : Prop := v.Scalar ∧ ∀ n, v = .num n → n.ReadsBack

mutual

/-- **A filter is written as one operand**, which the grammar reads as the normal form. -/
theorem exists_operand : ∀ f : Filter, (∀ p ∈ f.fields, p.Plain) → (∀ v ∈ f.values, Writable v) →
    ∃ ts, Spells f.render ts ∧ Operand ts f.normal
  | const true, _, _ =>
    ⟨_, spells_fixed (w := "true") rfl (by decide), .const (by decide +kernel)⟩
  | const false, _, _ =>
    ⟨_, spells_fixed (w := "false") rfl (by decide), .const (by decide +kernel)⟩
  | all [], _, _ =>
    ⟨_, spells_fixed (w := "true") rfl (by decide), .const (by decide +kernel)⟩
  | any [], _, _ =>
    ⟨_, spells_fixed (w := "false") rfl (by decide), .const (by decide +kernel)⟩
  | all (f :: fs), hp, hv => by
    obtain ⟨ts, hts, hf⟩ := exists_operand f (fun p h => hp p (List.mem_append_left _ h))
      fun v h => hv v (List.mem_append_left _ h)
    have hand : Spells "and".toList [.word "and"] := spells_fixed rfl (by decide)
    obtain ⟨us, hus, hfs⟩ := exists_parts hand (fun hts hf => .more hts (by decide +kernel) hf) fs
      (fun p h => hp p (List.mem_append_right _ h)) (fun v h => hv v (List.mem_append_right _ h))
      hts (Conjunction.one hf)
    exact ⟨_, hus.leftParen, .group (.of (.one hfs))⟩
  | any (f :: fs), hp, hv => by
    obtain ⟨ts, hts, hf⟩ := exists_operand f (fun p h => hp p (List.mem_append_left _ h))
      fun v h => hv v (List.mem_append_left _ h)
    have hor : Spells "or".toList [.word "or"] := spells_fixed rfl (by decide)
    obtain ⟨us, hus, hfs⟩ := exists_parts hor
      (fun hts hf => .more hts (by decide +kernel) (.one hf)) fs
      (fun p h => hp p (List.mem_append_right _ h)) (fun v h => hv v (List.mem_append_right _ h))
      hts (Disjunction.one (.one hf))
    exact ⟨_, hus.leftParen, .group (.of hfs)⟩
  | not f, hp, hv => by
    obtain ⟨ts, hts, hf⟩ := exists_operand f hp hv
    exact ⟨_, hts.rightParen.leftParen.bang, .negation (.group hf.expression)⟩
  | compare p o v, hp, hv => by
    have hplain := hp p List.mem_cons_self
    obtain ⟨hscalar, hnumbers⟩ := hv v List.mem_cons_self
    obtain ⟨t, ht, hvalue⟩ := exists_value hscalar hnumbers
    have hkeyword : isKeyword o.keyword o.keyword = true := by cases o <;> decide +kernel
    have hleaf := Leaf.compare (isField_text hplain) hkeyword hvalue
    rw [hplain.ofText_text] at hleaf
    exact ⟨_, (spells_pointer hplain).spaced ((spells_keyword o).spaced ht), .leaf hleaf⟩
  | present p, hp, _ => by
    have hplain := hp p List.mem_cons_self
    have hpr : Spells "pr".toList [.word "pr"] := spells_fixed rfl (by decide)
    have hleaf := Leaf.present (isField_text hplain) (k := "pr") (by decide +kernel)
    rw [hplain.ofText_text] at hleaf
    exact ⟨_, (spells_pointer hplain).spaced hpr, .leaf hleaf⟩

/-- The filters behind the first one of a group, and the parenthesis that closes it. -/
theorem exists_parts {P : List Token → List Filter → Prop} {w : String}
    (hw : Spells w.toList [.word w])
    (hjoin : ∀ {ts us : List Token} {fs : List Filter} {f : Filter}, P ts fs → Operand us f →
      P (ts ++ .word w :: us) (fs ++ [f])) :
    ∀ fs : List Filter, (∀ p ∈ fieldsList fs, p.Plain) → (∀ v ∈ valuesList fs, Writable v) →
      ∀ {cs : List Char} {ts : List Token} {gs : List Filter}, Spells cs ts → P ts gs →
        ∃ us, Spells (cs ++ renderTail (' ' :: (w.toList ++ [' '])) fs) (us ++ [.rightParen]) ∧
          P us (gs ++ normalList fs)
  | [], _, _, cs, ts, gs, hcs, h => by
    refine ⟨ts, hcs.rightParen, ?_⟩
    rw [normalList, List.append_nil]
    exact h
  | f :: fs, hp, hv, cs, ts, gs, hcs, h => by
    obtain ⟨us, hus, hf⟩ := exists_operand f (fun p h => hp p (List.mem_append_left _ h))
      fun v h => hv v (List.mem_append_left _ h)
    obtain ⟨ys, hys, hfs⟩ := exists_parts hw hjoin fs
      (fun p h => hp p (List.mem_append_right _ h)) (fun v h => hv v (List.mem_append_right _ h))
      (hcs.spaced (hw.spaced hus)) (hjoin h hf)
    refine ⟨ys, ?_, ?_⟩
    · simpa [renderTail] using hys
    · simpa [normalList] using hfs

end

/-- The expression of a filter is read as the normal form. -/
theorem parse_text_eq_normal {f : Filter} (hf : f.Printable) (hn : f.NumbersReadBack) :
    parse f.text = .ok f.normal := by
  obtain ⟨ts, hts, hoperand⟩ := exists_operand f hf.fields fun v hv =>
    ⟨hf.values v hv, fun n heq => hn n (heq ▸ hv)⟩
  obtain ⟨located, pos, hlocated, hscan⟩ := hts 0 [] breaks_nil
  rw [List.append_nil] at hscan
  refine parse_eq_ok_iff.2 ⟨located ++ [], ?_, ?_⟩
  · rw [tokens, text, String.toList_ofList, hscan]
    rfl
  · rw [List.append_nil, hlocated]
    exact hoperand.expression

/-! ### Normal forms -/

theorem accepts_collapse_all (fs : List Filter) (d : Json) :
    (collapse all fs).accepts d = acceptsAll fs d := by
  match fs with
  | [] => rfl
  | [f] => rw [collapse, acceptsAll, acceptsAll, Bool.and_true]
  | _ :: _ :: _ => rfl

theorem accepts_collapse_any (fs : List Filter) (d : Json) :
    (collapse any fs).accepts d = acceptsAny fs d := by
  match fs with
  | [] => rfl
  | [f] => rw [collapse, acceptsAny, acceptsAny, Bool.or_false]
  | _ :: _ :: _ => rfl

mutual

/-- The normal form accepts what the filter accepts. -/
theorem accepts_normal : ∀ (f : Filter) (d : Json), f.normal.accepts d = f.accepts d
  | const _, _ => rfl
  | all [], _ => rfl
  | any [], _ => rfl
  | all (f :: fs), d => by
    rw [normal, accepts_collapse_all, acceptsAll, accepts_normal f d, acceptsAll_normalList fs d,
      accepts, acceptsAll]
  | any (f :: fs), d => by
    rw [normal, accepts_collapse_any, acceptsAny, accepts_normal f d, acceptsAny_normalList fs d,
      accepts, acceptsAny]
  | not f, d => by
    rw [normal, accepts, accepts, accepts_normal f d]
  | compare _ _ _, _ => rfl
  | present _, _ => rfl

theorem acceptsAll_normalList : ∀ (fs : List Filter) (d : Json),
    acceptsAll (normalList fs) d = acceptsAll fs d
  | [], _ => rfl
  | f :: fs, d => by
    rw [normalList, acceptsAll, acceptsAll, accepts_normal f d, acceptsAll_normalList fs d]

theorem acceptsAny_normalList : ∀ (fs : List Filter) (d : Json),
    acceptsAny (normalList fs) d = acceptsAny fs d
  | [], _ => rfl
  | f :: fs, d => by
    rw [normalList, acceptsAny, acceptsAny, accepts_normal f d, acceptsAny_normalList fs d]

end

mutual

/-- A proper filter is its own normal form. -/
theorem normal_of_proper : ∀ {f : Filter}, f.Proper → f.normal = f
  | const _, _ => rfl
  | all (f :: g :: fs), h => by
    rw [normal, normal_of_proper h.2.1, normalList_of_proper h.2.2]
    rfl
  | any (f :: g :: fs), h => by
    rw [normal, normal_of_proper h.2.1, normalList_of_proper h.2.2]
    rfl
  | not f, h => by rw [normal, normal_of_proper (f := f) h]
  | compare _ _ _, _ => rfl
  | present _, _ => rfl
  | all [], h => absurd h.1 (Nat.not_succ_le_zero 1)
  | all [_], h => absurd h.1 (Nat.lt_irrefl 1)
  | any [], h => absurd h.1 (Nat.not_succ_le_zero 1)
  | any [_], h => absurd h.1 (Nat.lt_irrefl 1)

theorem normalList_of_proper : ∀ {fs : List Filter}, ProperList fs → normalList fs = fs
  | [], _ => rfl
  | f :: fs, h => by rw [normalList, normal_of_proper h.1, normalList_of_proper h.2]

end

/-! ### Words that are read -/

/-- The words among the tokens have no characters that end a word. -/
def PlainWords (ts : List Token) : Prop := ∀ w, .word w ∈ ts → ∀ c ∈ w.toList, Plain c

/-- The unfinished word has no characters that end it. -/
def Pending.Plain : Pending → Prop
  | .word _ w => ∀ c ∈ w, Filter.Plain c
  | _ => True

/-- The tokens that come out have plain words. -/
def PlainResult (result : Except ReadError (List Located)) : Prop :=
  ∀ located, result = .ok located → PlainWords (located.map (·.token))

theorem PlainResult.emit {t : Token} {result : Except ReadError (List Located)}
    (ht : PlainWords [t]) (h : PlainResult result) : PlainResult (emit pos t result) := by
  intro located hemit
  cases result with
  | error e => cases hemit
  | ok tail =>
    cases hemit
    intro w hw
    rcases List.mem_cons.1 hw with hw | hw
    · exact ht w (List.mem_singleton.2 hw)
    · exact h tail rfl w hw

theorem plainResult_error (e : ReadError) : PlainResult (.error e) := by
  rintro _ ⟨⟩

theorem plainWords_nil : PlainWords [] := by
  intro w hw
  cases hw

theorem plainWords_other {t : Token} (ht : ∀ w, t ≠ .word w) : PlainWords [t] := by
  intro w hw
  exact absurd (List.mem_singleton.1 hw).symm (ht w)

theorem plainWords_word {w : List Char} (hw : ∀ c ∈ w, Plain c) :
    PlainWords [.word (String.ofList w)] := by
  intro x hx
  cases List.mem_singleton.1 hx
  rw [String.toList_ofList]
  exact hw

theorem plainResult_scan {pending : Pending} (hpending : pending.Plain) :
    PlainResult (scan pending pos cs) := by
  fun_induction scan pending pos cs with
  | case1 =>
    rintro _ ⟨⟩
    exact plainWords_nil
  | case2 start w =>
    rintro _ ⟨⟩
    exact plainWords_word hpending
  | case3 | case16 => exact plainResult_error _
  | case4 pos c cs next _ ih => exact ih trivial
  | case5 pos cs next _ ih => exact (ih trivial).emit (plainWords_other (by simp))
  | case6 pos cs next _ _ ih => exact (ih trivial).emit (plainWords_other (by simp))
  | case7 pos cs next _ _ _ ih => exact (ih trivial).emit (plainWords_other (by simp))
  | case8 pos c cs next _ _ _ _ _ ih => exact ih trivial
  | case9 pos c cs next hblank hleft hright _ _ ih =>
    refine ih fun x hx => ?_
    rw [List.mem_singleton.1 hx]
    exact ⟨Bool.eq_false_iff.2 hblank, hleft, hright⟩
  | case10 =>
    rename_i ih
    exact (ih trivial).emit (plainWords_word hpending)
  | case11 =>
    rename_i ih
    exact ((ih trivial).emit (plainWords_other (by simp))).emit (plainWords_word hpending)
  | case12 =>
    rename_i ih
    exact ((ih trivial).emit (plainWords_other (by simp))).emit (plainWords_word hpending)
  | case13 start w pos c cs next hblank hleft hright ih =>
    refine ih fun x hx => ?_
    rcases List.mem_append.1 hx with hx | hx
    · exact hpending x hx
    · rw [List.mem_singleton.1 hx]
      exact ⟨Bool.eq_false_iff.2 hblank, hleft, hright⟩
  | case14 start mark body pos c cs ih => exact ih trivial
  | case15 start body pos c cs _ next s _ ih =>
    exact (ih trivial).emit (plainWords_other (by simp))
  | case17 start mark body pos c cs _ next _ ih => exact ih trivial

/-! ### What is read is proper and printable -/

theorem plain_ofText {w : String} (h : ∀ c ∈ w.toList, Plain c) : (Pointer.ofText w).Plain := by
  intro s hs
  obtain ⟨hne, hmem⟩ := Pointer.of_mem_segments_ofText hs
  refine ⟨hne, fun c hc => ?_⟩
  rcases hmem c hc with rfl | rfl | hc
  · decide
  · decide
  · exact h c hc

theorem Value.scalar {t : Token} {v : Json} (h : Value t v) : v.Scalar := by
  cases h <;> trivial

theorem mem_fieldsList {p : Pointer} {fs : List Filter} :
    p ∈ fieldsList fs ↔ ∃ f ∈ fs, p ∈ f.fields := by
  induction fs with
  | nil => simp [fieldsList]
  | cons f fs ih => simp [fieldsList, ih]

theorem mem_valuesList {v : Json} {fs : List Filter} :
    v ∈ valuesList fs ↔ ∃ f ∈ fs, v ∈ f.values := by
  induction fs with
  | nil => simp [valuesList]
  | cons f fs ih => simp [valuesList, ih]

theorem properList_iff {fs : List Filter} : ProperList fs ↔ ∀ f ∈ fs, f.Proper := by
  induction fs with
  | nil => simp [ProperList]
  | cons f fs ih => simp [ProperList, ih]

/-- A filter that an expression can denote. -/
def Readable (f : Filter) : Prop := f.Printable ∧ f.Proper

/-- One or more filters that expressions can denote. -/
def ReadableList (fs : List Filter) : Prop := fs ≠ [] ∧ ∀ f ∈ fs, f.Readable

theorem readableList_append {fs : List Filter} {f : Filter} (hfs : ReadableList fs)
    (hf : f.Readable) : ReadableList (fs ++ [f]) := by
  refine ⟨by simp, fun g hg => ?_⟩
  rcases List.mem_append.1 hg with hg | hg
  · exact hfs.2 g hg
  · rw [List.mem_singleton.1 hg]
    exact hf

theorem readableList_singleton {f : Filter} (hf : f.Readable) : ReadableList [f] := by
  refine ⟨by simp, fun g hg => ?_⟩
  rw [List.mem_singleton.1 hg]
  exact hf

theorem readable_collapse_all {fs : List Filter} (h : ReadableList fs) :
    (collapse all fs).Readable := by
  match fs with
  | [] => exact absurd rfl h.1
  | [f] => exact h.2 f List.mem_cons_self
  | f :: g :: fs =>
    refine ⟨⟨fun p hp => ?_, fun v hv => ?_⟩, ?_, properList_iff.2 fun x hx => (h.2 x hx).2⟩
    · obtain ⟨x, hx, hp⟩ := mem_fieldsList.1 hp
      exact (h.2 x hx).1.fields p hp
    · obtain ⟨x, hx, hv⟩ := mem_valuesList.1 hv
      exact (h.2 x hx).1.values v hv
    · simp

theorem readable_collapse_any {fs : List Filter} (h : ReadableList fs) :
    (collapse any fs).Readable := by
  match fs with
  | [] => exact absurd rfl h.1
  | [f] => exact h.2 f List.mem_cons_self
  | f :: g :: fs =>
    -- the fields and values of a disjunction are those of the conjunction
    obtain ⟨⟨hfields, hvalues⟩, hproper⟩ := readable_collapse_all h
    exact ⟨⟨hfields, hvalues⟩, hproper⟩

theorem readable_of_leaf {f : Filter} (hts : PlainWords ts) (h : Leaf ts f) : f.Readable := by
  cases h with
  | present hw hk =>
    refine ⟨⟨?_, ?_⟩, trivial⟩
    · simpa [fields] using plain_ofText (hts _ List.mem_cons_self)
    · simp [values]
  | compare hw hk ht =>
    refine ⟨⟨?_, ?_⟩, trivial⟩
    · simpa [fields] using plain_ofText (hts _ List.mem_cons_self)
    · simpa [values] using ht.scalar

theorem PlainWords.mono (h : PlainWords ts) (hus : ∀ t ∈ us, t ∈ ts) : PlainWords us :=
  fun w hw => h w (hus _ hw)

mutual

theorem readable_of_operand : ∀ {ts : List Token} {f : Filter}, PlainWords ts → Operand ts f →
    f.Readable
  | _, _, _, .const _ => ⟨⟨by simp [fields], by simp [values]⟩, trivial⟩
  | _, _, hts, .leaf h => readable_of_leaf hts h
  | _, _, hts, .negation h => by
    obtain ⟨⟨hfields, hvalues⟩, hproper⟩ :=
      readable_of_operand (hts.mono fun _ => List.mem_cons_of_mem _) h
    exact ⟨⟨hfields, hvalues⟩, hproper⟩
  | _, _, hts, .group h =>
    readable_of_expression
      (hts.mono fun _ ht => List.mem_cons_of_mem _ (List.mem_append_left _ ht)) h

theorem readableList_of_conjunction : ∀ {ts : List Token} {fs : List Filter}, PlainWords ts →
    Conjunction ts fs → ReadableList fs
  | _, _, hts, .one h => readableList_singleton (readable_of_operand hts h)
  | _, _, hts, .more hfs _ h =>
    readableList_append
      (readableList_of_conjunction (hts.mono fun _ => List.mem_append_left _) hfs)
      (readable_of_operand
        (hts.mono fun _ ht => List.mem_append_right _ (List.mem_cons_of_mem _ ht)) h)

theorem readableList_of_disjunction : ∀ {ts : List Token} {fs : List Filter}, PlainWords ts →
    Disjunction ts fs → ReadableList fs
  | _, _, hts, .one h =>
    readableList_singleton (readable_collapse_all (readableList_of_conjunction hts h))
  | _, _, hts, .more hgs _ h =>
    readableList_append
      (readableList_of_disjunction (hts.mono fun _ => List.mem_append_left _) hgs)
      (readable_collapse_all (readableList_of_conjunction
        (hts.mono fun _ ht => List.mem_append_right _ (List.mem_cons_of_mem _ ht)) h))

theorem readable_of_expression : ∀ {ts : List Token} {f : Filter}, PlainWords ts →
    Expression ts f → f.Readable
  | _, _, hts, .of h => readable_collapse_any (readableList_of_disjunction hts h)

end

/-- **What is read is proper and can be written.** -/
theorem readable_of_parse {expression : String} {f : Filter} (h : parse expression = .ok f) :
    f.Readable := by
  obtain ⟨located, hlocated, hf⟩ := parse_eq_ok_iff.1 h
  have hwords : PlainResult (scan .nothing 0 expression.toList) := plainResult_scan trivial
  exact readable_of_expression (hwords located hlocated) hf

/-! ### Reading undoes writing -/

/-- **Reading undoes writing.** The expression of a filter is read as its normal form, which
    accepts the same documents and is the filter itself if every group has two filters at
    least. What is read from an expression has that form, so that it is read again from the
    expression it is written as. -/
theorem parse_text :
    (∀ f : Filter, f.Printable → f.NumbersReadBack →
      parse f.text = .ok f.normal ∧ (∀ d, f.normal.accepts d = f.accepts d) ∧
        (f.Proper → f.normal = f)) ∧
      ∀ (expression : String) (f : Filter), parse expression = .ok f →
        f.Printable ∧ f.Proper ∧ (f.NumbersReadBack → parse f.text = .ok f) := by
  constructor
  · intro f hf hn
    exact ⟨parse_text_eq_normal hf hn, accepts_normal f, normal_of_proper⟩
  · intro expression f h
    obtain ⟨hf, hproper⟩ := readable_of_parse h
    refine ⟨hf, hproper, fun hn => ?_⟩
    rw [parse_text_eq_normal hf hn, normal_of_proper hproper]

/-- A field name with a slash, a quoted text, a negative number, a group of one filter and an
    empty group. -/
def sampleTree : Filter :=
  any [all [compare ⟨["a/b", "c"]⟩ .equals (.str "so-called \"x\"")],
    not (compare (.field "true") .greaterThan (.num (.int (-5)))), all []]

/-- The group of one filter and the empty group are gone when the tree is read back. -/
theorem parse_text_sampleTree :
    parse "((/a~1b/c eq \"so-called \\\"x\\\"\") or !(/true gt -5) or true)" = .ok (any [
      compare ⟨["a/b", "c"]⟩ .equals (.str "so-called \"x\""),
      not (compare (.field "true") .greaterThan (.num (.int (-5)))), const true]) := by
  have htext : sampleTree.text =
      "((/a~1b/c eq \"so-called \\\"x\\\"\") or !(/true gt -5) or true)" := by
    decide +kernel
  have hplain : ∀ p ∈ sampleTree.fields, p.Plain := by
    have hall : (sampleTree.fields.all fun p => p.segments.all fun s =>
        s != "" && s.toList.all fun c => decide (Plain c)) = true := by
      decide +kernel
    simp only [List.all_eq_true, Bool.and_eq_true, bne_iff_ne] at hall
    intro p hp s hs
    obtain ⟨hne, hplain⟩ := hall p hp s hs
    exact ⟨hne, fun c hc => of_decide_eq_true (hplain c hc)⟩
  have hscalar : ∀ v ∈ sampleTree.values, v.Scalar := by
    simp [sampleTree, values, valuesList, Json.Scalar]
  have hnumbers : sampleTree.NumbersReadBack := by
    intro n hn
    obtain rfl : n = .int (-5) := by simpa [sampleTree, values, valuesList] using hn
    exact Number.readsBack_int (by decide)
  rw [← htext]
  exact (parse_text.1 sampleTree ⟨hplain, hscalar⟩ hnumbers).1

end Filter

end EdgeFields
