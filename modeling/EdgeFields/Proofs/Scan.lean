/-
  EdgeFields/Proofs/Scan.lean
  ===========================
  **How a text is cut into tokens.**

  A word takes up every character that neither is blank nor a parenthesis (`Filter.Plain`) and
  ends in front of the first one that is (`Filter.scan_word`, `Filter.scan_break`). Tokens come
  in the order of their offsets (`Filter.ascending_scan`). Every word stands in the text behind
  characters that are cut into the tokens before it, whatever follows them
  (`Filter.exists_placed`), so another word of the same size can stand in its place
  (`Filter.Placed.scan_replaced`).
-/
import Mathlib.Data.List.TakeWhile
import EdgeFields.Filter.Reader

namespace EdgeFields.Filter

variable {cs rest : List Char} {c : Char} {pos : Nat} {t : Token} {located : List Located}

/-! ### Single steps -/

theorem emit_eq_ok {offset : Nat} {result : Except ReadError (List Located)} :
    emit offset t result = .ok located ↔
      ∃ tail, result = .ok tail ∧ located = ⟨offset, t⟩ :: tail := by
  cases result with
  | error e => simp [emit, Except.map]
  | ok tail => simp [emit, Except.map, eq_comm]

/-- Behind a character stands what is left of the characters. -/
theorem add_utf8ByteSize_cons (pos : Nat) (c : Char) (cs : List Char) :
    pos + (String.ofList (c :: cs)).utf8ByteSize =
      pos + c.utf8Size + (String.ofList cs).utf8ByteSize := by
  have hsingle : (String.ofList [c]).utf8ByteSize = c.utf8Size := String.utf8ByteSize_singleton
  rw [← List.singleton_append, String.ofList_append, String.utf8ByteSize_append, hsingle,
    Nat.add_assoc]

/-! ### Words -/

/-- A character that stays in a word. -/
def Plain (c : Char) : Prop := Text.isBlank c = false ∧ c ≠ '(' ∧ c ≠ ')'

instance (c : Char) : Decidable (Plain c) := inferInstanceAs (Decidable (_ ∧ _))

/-- The characters of a fixed text are checked one by one. -/
theorem plain_of_all {cs : List Char} (h : (cs.all fun c => decide (Plain c)) = true) :
    ∀ c ∈ cs, Plain c := by
  intro c hc
  exact of_decide_eq_true (List.all_eq_true.1 h c hc)

/-- A text in front of which a word ends. -/
def Breaks (cs : List Char) : Prop := ∀ c rest, cs = c :: rest → ¬ Plain c

theorem breaks_nil : Breaks [] := by
  intro c rest heq
  cases heq

theorem breaks_cons (h : ¬ Plain c) (rest : List Char) : Breaks (c :: rest) := by
  intro c' rest' heq
  cases heq
  exact h

/-- A character that starts a word. -/
def Starts (c : Char) : Prop := Plain c ∧ c ≠ '!' ∧ c ≠ '"' ∧ c ≠ '\''

instance (c : Char) : Decidable (Starts c) := inferInstanceAs (Decidable (_ ∧ _))

theorem scan_start (hc : Starts c) (pos : Nat) (rest : List Char) :
    scan .nothing pos (c :: rest) = scan (.word pos [c]) (pos + c.utf8Size) rest := by
  obtain ⟨⟨hblank, hleft, hright⟩, hbang, hdouble, hsingle⟩ := hc
  rw [scan]
  simp only [hblank, hleft, hright, hbang, hdouble, hsingle, or_self, if_false,
    Bool.false_eq_true]

theorem scan_word (hcs : ∀ c ∈ cs, Plain c) (start pos : Nat) (w rest : List Char) :
    scan (.word start w) pos (cs ++ rest) =
      scan (.word start (w ++ cs)) (pos + (String.ofList cs).utf8ByteSize) rest := by
  induction cs generalizing pos w with
  | nil => simp
  | cons c cs ih =>
    obtain ⟨hblank, hleft, hright⟩ := hcs c List.mem_cons_self
    rw [List.cons_append, scan]
    simp only [hblank, hleft, hright, if_false, Bool.false_eq_true]
    rw [ih (fun c hc => hcs c (List.mem_cons_of_mem _ hc)), List.append_assoc,
      List.singleton_append, add_utf8ByteSize_cons]

/-- Where a word ends the scan goes on as if behind no token. -/
theorem scan_break (hrest : Breaks rest) (start pos : Nat) (w : List Char) :
    scan (.word start w) pos rest =
      emit start (.word (String.ofList w)) (scan .nothing pos rest) := by
  cases rest with
  | nil => rfl
  | cons c rest =>
    have hplain := hrest c rest rfl
    rw [scan, scan]
    split
    · rfl
    · next hblank =>
      split
      · rfl
      · next hleft =>
        split
        · rfl
        · next hright => exact absurd ⟨Bool.eq_false_iff.2 hblank, hleft, hright⟩ hplain

/-- The characters of a word. -/
def IsWord : List Char → Prop
  | [] => False
  | c :: cs => Starts c ∧ ∀ x ∈ cs, Plain x

theorem IsWord.ne_nil {w : List Char} (h : IsWord w) : w ≠ [] := by
  rintro rfl
  exact h

theorem IsWord.scan {w : List Char} (hw : IsWord w) (hrest : Breaks rest) (pos : Nat) :
    Filter.scan .nothing pos (w ++ rest) = emit pos (.word (String.ofList w))
      (Filter.scan .nothing (pos + (String.ofList w).utf8ByteSize) rest) := by
  cases w with
  | nil => exact hw.elim
  | cons c cs =>
    rw [List.cons_append, scan_start hw.1, scan_word hw.2, scan_break hrest,
      List.singleton_append, add_utf8ByteSize_cons]

/-! ### The offsets of tokens -/

/-- The tokens stand one behind the other, from an offset on and before another one. -/
def Ascending (low high : Nat) : List Located → Prop
  | [] => low ≤ high
  | t :: ts => low ≤ t.offset ∧ Ascending (t.offset + 1) high ts

theorem Ascending.mono {low low' high : Nat} (h : Ascending low high located) (hlow : low' ≤ low) :
    Ascending low' high located := by
  cases located with
  | nil => exact Nat.le_trans hlow h
  | cons t ts => exact ⟨Nat.le_trans hlow h.1, h.2⟩

/-- A token stands before the one behind it. -/
theorem Ascending.lt_offsetOf {low high : Nat} {before after : List Located} {t : Located}
    (h : Ascending low high (before ++ t :: after)) : t.offset < offsetOf high after := by
  induction before generalizing low with
  | nil =>
    cases after with
    | nil => exact h.2
    | cons t' after => exact h.2.1
  | cons t' before ih => exact ih h.2

/-- Where the unfinished token starts, or else the next one may start. -/
def Pending.start : Pending → Nat → Nat
  | .nothing, pos => pos
  | .word start _, _ => start
  | .quoted start _ _, _ => start

/-- The unfinished token starts before an offset. -/
def Pending.Before : Pending → Nat → Prop
  | .nothing, _ => True
  | .word start _, pos => start < pos
  | .quoted start _ _, pos => start < pos

/-- **Tokens come in the order of their offsets**, none of them at the end of the text. -/
theorem ascending_scan (p : Pending) (pos : Nat) (cs : List Char) :
    ∀ located, scan p pos cs = .ok located → p.Before pos →
      Ascending (p.start pos) (pos + (String.ofList cs).utf8ByteSize) located := by
  fun_induction scan p pos cs with
  | case1 =>
    rintro _ ⟨⟩ _
    exact Nat.le_add_right _ _
  | case2 start w =>
    rintro _ ⟨⟩ hp
    exact ⟨Nat.le_refl _, Nat.le_trans hp (Nat.le_add_right _ _)⟩
  | case3 | case16 => exact nofun
  | case4 pos c cs next _ ih =>
    intro located h _
    rw [add_utf8ByteSize_cons]
    exact (ih located h trivial).mono (Nat.le_add_right _ _)
  | case5 | case6 | case7 =>
    rename_i ih
    intro located h _
    obtain ⟨tail, htail, rfl⟩ := emit_eq_ok.1 h
    rw [add_utf8ByteSize_cons]
    exact ⟨Nat.le_refl _, ih tail htail trivial⟩
  | case8 pos c cs next _ _ _ _ _ ih =>
    intro located h _
    rw [add_utf8ByteSize_cons]
    exact ih located h (Nat.lt_add_of_pos_right c.utf8Size_pos)
  | case9 pos c cs next _ _ _ _ _ ih =>
    intro located h _
    rw [add_utf8ByteSize_cons]
    exact ih located h (Nat.lt_add_of_pos_right c.utf8Size_pos)
  | case10 =>
    rename_i ih
    intro located h hp
    obtain ⟨tail, htail, rfl⟩ := emit_eq_ok.1 h
    rw [add_utf8ByteSize_cons]
    exact ⟨Nat.le_refl _,
      (ih tail htail trivial).mono (Nat.le_trans hp (Nat.le_add_right _ _))⟩
  | case11 | case12 =>
    rename_i ih
    intro located h hp
    obtain ⟨_, htail, rfl⟩ := emit_eq_ok.1 h
    obtain ⟨tail, hrest, rfl⟩ := emit_eq_ok.1 htail
    rw [add_utf8ByteSize_cons]
    exact ⟨Nat.le_refl _, hp, ih tail hrest trivial⟩
  | case13 start w pos c cs next _ _ _ ih =>
    intro located h hp
    rw [add_utf8ByteSize_cons]
    exact ih located h (Nat.lt_of_lt_of_le hp (Nat.le_add_right _ _))
  | case14 start mark body pos c cs ih =>
    intro located h hp
    rw [add_utf8ByteSize_cons, add_utf8ByteSize_cons]
    exact ih located h
      (Nat.lt_of_lt_of_le hp (Nat.le_trans (Nat.le_add_right _ 1) (Nat.le_add_right _ _)))
  | case15 =>
    rename_i ih
    intro located h hp
    obtain ⟨tail, htail, rfl⟩ := emit_eq_ok.1 h
    rw [add_utf8ByteSize_cons]
    exact ⟨Nat.le_refl _,
      (ih tail htail trivial).mono (Nat.le_trans hp (Nat.le_add_right _ _))⟩
  | case17 start mark body pos c cs _ next _ ih =>
    intro located h hp
    rw [add_utf8ByteSize_cons]
    exact ih located h (Nat.lt_of_lt_of_le hp (Nat.le_add_right _ _))

/-! ### The place of a word -/

variable {p p' : Pending} {pos' offset : Nat} {front : List Char} {w : String}
  {before after : List Located}

/-- Behind the characters the scan has found the tokens, and no other is unfinished. -/
def Follows (p : Pending) (pos : Nat) (front : List Char) (before : List Located) : Prop :=
  ∀ tail, scan p pos (front ++ tail) =
    (scan .nothing (pos + (String.ofList front).utf8ByteSize) tail).map (before ++ ·)

theorem follows_nil (pos : Nat) : Follows .nothing pos [] [] := by
  intro tail
  cases h : scan .nothing pos tail <;> simp [Except.map, h]

/-- A word of a text, which the scan finds behind the tokens `before` and in front of the tokens
    `after`; `front` and `rest` are the characters around it. -/
structure Placed (p : Pending) (pos : Nat) (cs : List Char) (before : List Located)
    (offset : Nat) (w : String) (after : List Located) (front rest : List Char) : Prop where
  split : cs = front ++ (w.toList ++ rest)
  offset_eq : offset = pos + (String.ofList front).utf8ByteSize
  follows : Follows p pos front before
  isWord : IsWord w.toList
  breaks : Breaks rest
  scan_rest : scan .nothing (offset + w.utf8ByteSize) rest = .ok after

/-- A step of the scan in front. -/
theorem Placed.append (h : Placed p' pos' cs before offset w after front rest)
    (head : List Char) (ts : List Located)
    (hpos : ∀ cs, pos + (String.ofList (head ++ cs)).utf8ByteSize =
      pos' + (String.ofList cs).utf8ByteSize)
    (hstep : ∀ tail, scan p pos (head ++ tail) = (scan p' pos' tail).map (ts ++ ·)) :
    Placed p pos (head ++ cs) (ts ++ before) offset w after (head ++ front) rest where
  split := by rw [h.split, List.append_assoc]
  offset_eq := by rw [h.offset_eq, hpos]
  follows := by
    intro tail
    rw [List.append_assoc, hstep, h.follows tail, hpos]
    cases scan .nothing (pos' + (String.ofList front).utf8ByteSize) tail <;> simp [Except.map]
  isWord := h.isWord
  breaks := h.breaks
  scan_rest := h.scan_rest

theorem Placed.cons (h : Placed p' (pos + c.utf8Size) cs before offset w after front rest)
    (ts : List Located)
    (hstep : ∀ tail, scan p pos (c :: tail) = (scan p' (pos + c.utf8Size) tail).map (ts ++ ·)) :
    Placed p pos (c :: cs) (ts ++ before) offset w after (c :: front) rest :=
  h.append [c] ts (add_utf8ByteSize_cons pos c) hstep

theorem Placed.ne_nil (h : Placed p pos cs before offset w after front rest) : cs ≠ [] := by
  rw [h.split]
  simp [h.isWord.ne_nil]

/-- A backslash in a string with a word behind it escapes a character, so one that escapes none
    is not there. -/
theorem Placed.not_escaped (h : Placed p pos cs before offset w after front rest)
    (hescape : ∀ c' cs', c = '\\' → cs = c' :: cs' → False) {tail : List Char} :
    ∀ c' cs', c = '\\' → tail = c' :: cs' → False := by
  obtain ⟨c', cs', hcs⟩ := List.exists_cons_of_ne_nil h.ne_nil
  exact fun _ _ hc _ => hescape c' cs' hc hcs

theorem map_nil_append (result : Except ReadError (List Located)) :
    result.map ([] ++ ·) = result := by
  cases result <;> rfl

theorem emit_eq_append {start : Nat} {result : Except ReadError (List Located)}
    (ht : before ≠ [] ∨ ∀ w, t ≠ .word w)
    (h : emit start t result = .ok (before ++ ⟨offset, .word w⟩ :: after)) :
    ∃ before', before = ⟨start, t⟩ :: before' ∧
      result = .ok (before' ++ ⟨offset, .word w⟩ :: after) := by
  obtain ⟨tail, rfl, heq⟩ := emit_eq_ok.1 h
  cases before with
  | nil =>
    cases heq
    exact (ht.elim (· rfl) (· w rfl)).elim
  | cons t' before' =>
    cases heq
    exact ⟨before', rfl, rfl⟩

/-- The word that a character starts is the first of the tokens. -/
theorem placed_start (hc : Starts c)
    (h : scan (.word pos [c]) (pos + c.utf8Size) cs = .ok (⟨offset, .word w⟩ :: after)) :
    ∃ rest, Placed .nothing pos (c :: cs) [] offset w after [] rest := by
  have hsplit := List.takeWhile_append_dropWhile (p := fun x => decide (Plain x)) (l := cs)
  have hplain : ∀ x ∈ cs.takeWhile (fun x => decide (Plain x)), Plain x := by
    intro x hx
    exact of_decide_eq_true (List.mem_takeWhile_imp (p := fun x => decide (Plain x)) hx)
  have hbreaks : Breaks (cs.dropWhile (fun x => decide (Plain x))) := by
    intro c rest heq
    have hnot := List.head?_dropWhile_not (fun x => decide (Plain x)) cs
    rw [heq] at hnot
    simpa using hnot
  rw [← hsplit, scan_word hplain, scan_break hbreaks, emit_eq_ok] at h
  obtain ⟨tail, htail, heq⟩ := h
  cases heq
  rw [← add_utf8ByteSize_cons] at htail
  refine ⟨_, ?_, rfl, follows_nil _, ?_, hbreaks, htail⟩
  · rw [String.toList_ofList]
    simp [hsplit]
  · rw [String.toList_ofList]
    exact ⟨hc, hplain⟩

/-- An unfinished word is one of the tokens. -/
def Pending.Among : Pending → List Located → Prop
  | .word _ _, before => before ≠ []
  | _, _ => True

/-- **Every word has its place in the text.** -/
theorem exists_placed (p : Pending) (pos : Nat) (cs : List Char) :
    ∀ before, scan p pos cs = .ok (before ++ ⟨offset, .word w⟩ :: after) → p.Among before →
      ∃ front rest, Placed p pos cs before offset w after front rest := by
  fun_induction scan p pos cs with
  | case1 =>
    intro before h
    simp at h
  | case2 start v =>
    rintro (_ | ⟨t, before⟩) h hamong
    · exact absurd rfl hamong
    · simp at h
  | case3 | case16 => exact nofun
  | case4 pos c cs next hblank ih =>
    intro before h _
    obtain ⟨front, rest, hplaced⟩ := ih before h trivial
    refine ⟨_, _, hplaced.cons [] fun tail => ?_⟩
    rw [map_nil_append, scan, if_pos hblank]
  | case5 | case6 | case7 =>
    rename_i ih
    intro before h _
    obtain ⟨before, rfl, htail⟩ := emit_eq_append (.inr (by simp)) h
    obtain ⟨front, rest, hplaced⟩ := ih before htail trivial
    refine ⟨_, _, hplaced.cons [_] fun tail => ?_⟩
    rw [scan]
    simp only [*, if_true, if_false]
    rfl
  | case8 pos c cs next hblank hleft hright hbang hquote ih =>
    intro before h _
    obtain ⟨front, rest, hplaced⟩ := ih before h trivial
    refine ⟨_, _, hplaced.cons [] fun tail => ?_⟩
    rw [map_nil_append, scan, if_neg hblank, if_neg hleft, if_neg hright, if_neg hbang,
      if_pos hquote]
  | case9 pos c cs next hblank hleft hright hbang hquote ih =>
    intro before h _
    have hc : Starts c :=
      ⟨⟨Bool.eq_false_iff.2 hblank, hleft, hright⟩, hbang, not_or.1 hquote⟩
    cases before with
    | nil => exact ⟨_, placed_start hc h⟩
    | cons t before =>
      obtain ⟨front, rest, hplaced⟩ := ih _ h (List.cons_ne_nil _ _)
      refine ⟨_, _, hplaced.cons [] fun tail => ?_⟩
      rw [map_nil_append, scan_start hc]
  | case10 start u pos c cs next _ hblank ih =>
    intro before h hamong
    obtain ⟨before, rfl, htail⟩ := emit_eq_append (.inl hamong) h
    obtain ⟨front, rest, hplaced⟩ := ih before htail trivial
    refine ⟨_, _, hplaced.cons [_] fun tail => ?_⟩
    rw [scan, if_pos hblank]
    rfl
  | case11 | case12 =>
    rename_i ih
    intro before h hamong
    obtain ⟨before, rfl, hparen⟩ := emit_eq_append (.inl hamong) h
    obtain ⟨before, rfl, htail⟩ := emit_eq_append (.inr (by simp)) hparen
    obtain ⟨front, rest, hplaced⟩ := ih before htail trivial
    refine ⟨_, _, hplaced.cons [_, _] fun tail => ?_⟩
    rw [scan]
    simp only [*, if_true, if_false]
    generalize scan .nothing _ tail = result
    cases result <;> rfl
  | case13 start u pos c cs next hblank hleft hright ih =>
    intro before h hamong
    obtain ⟨front, rest, hplaced⟩ := ih _ h hamong
    refine ⟨_, _, hplaced.cons [] fun tail => ?_⟩
    rw [map_nil_append, scan, if_neg hblank, if_neg hleft, if_neg hright]
  | case14 start mark body pos c cs ih =>
    intro before h _
    obtain ⟨front, rest, hplaced⟩ := ih _ h trivial
    refine ⟨_, _, hplaced.append ['\\', c] [] ?_ fun tail => ?_⟩
    · intro cs
      exact (add_utf8ByteSize_cons _ _ _).trans (add_utf8ByteSize_cons _ _ _)
    · rw [map_nil_append]
      exact scan.eq_6 _ _ _ _ _ _
  | case15 start body pos c cs hescape next s hbody ih =>
    intro before h _
    obtain ⟨before, rfl, htail⟩ := emit_eq_append (.inr (by simp)) h
    obtain ⟨front, rest, hplaced⟩ := ih before htail trivial
    refine ⟨_, _, hplaced.cons [_] fun tail => ?_⟩
    rw [scan]
    · rw [if_pos rfl, hbody]
      rfl
    · exact hplaced.not_escaped hescape
  | case17 start mark body pos c cs hescape next hmark ih =>
    intro before h hamong
    obtain ⟨front, rest, hplaced⟩ := ih _ h trivial
    refine ⟨_, _, hplaced.cons [] fun tail => ?_⟩
    rw [map_nil_append, scan]
    · rw [if_neg hmark]
    · exact hplaced.not_escaped hescape

/-- **Another word of the same size can stand in its place**, between the same tokens. -/
theorem Placed.scan_replaced (h : Placed p pos cs before offset w after front rest) {w' : String}
    (hw : IsWord w'.toList) (hsize : w'.utf8ByteSize = w.utf8ByteSize) :
    scan p pos (front ++ (w'.toList ++ rest)) = .ok (before ++ ⟨offset, .word w'⟩ :: after) := by
  rw [h.follows, ← h.offset_eq, hw.scan h.breaks, String.ofList_toList, hsize, h.scan_rest]
  rfl

end EdgeFields.Filter
