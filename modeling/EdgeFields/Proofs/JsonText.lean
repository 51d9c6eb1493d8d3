/-
  EdgeFields/Proofs/JsonText.lean
  ===============================
  **The text of documents.**

  Compact text tells documents apart (`Json.text_inj`), also nested ones and those whose strings
  hold quotes, backslashes or brackets. It is proved for a text with anything behind it: the first
  character tells the kind of the value, a string ends where it is read to, a number ends at a
  delimiter, and arrays and objects go on with a comma or close.

  An integer and a double never share a text, since only the text of a double has a point or an
  exponent. The two zeros differ in their sign.
-/
import EdgeFields.Proofs.DoubleText
import EdgeFields.Proofs.SortOrder

namespace EdgeFields

/-- What a text inside of an array or an object is followed by. -/
def delimiters : List Char := [',', ']', '\x7d']

/-! ### Numbers -/

namespace Number

theorem render_int (i : Int) : (int i).render =
    if i < 0 then '-' :: Nat.toDigits 10 i.natAbs else Nat.toDigits 10 i.natAbs := rfl

theorem mem_render_int {i : Int} {c : Char} (hc : c ∈ (int i).render) :
    c.isDigit = true ∨ c = '-' := by
  have hdigits := digits_toDigits i.natAbs
  rw [render_int] at hc
  split at hc
  · rcases List.mem_cons.1 hc with rfl | hc
    · exact .inr rfl
    · exact .inl (hdigits.2 c hc)
  · exact .inl (hdigits.2 c hc)

theorem render_int_inj {i j : Int} (h : (int i).render = (int j).render) : i = j := by
  have hminus : ∀ n cs, Nat.toDigits 10 n ≠ '-' :: cs :=
    fun n cs => (digits_toDigits n).ne_cons rfl cs
  have habs : ∀ {m n : Nat}, Nat.toDigits 10 m = Nat.toDigits 10 n → m = n := by
    intro m n hdigits
    rw [← digitsValue_toDigits m, hdigits, digitsValue_toDigits]
  rw [render_int, render_int] at h
  split at h
  · split at h
    · have := habs (List.cons.inj h).2
      omega
    · exact absurd h.symm (hminus _ _)
  · split at h
    · exact absurd h (hminus _ _)
    · have := habs h
      omega

/-- A double is written with a point or an exponent. -/
theorem exists_mem_render_float (x : Double) : ∃ c ∈ (float x).render, c = '.' ∨ c = 'e' := by
  obtain ⟨sign, body, _, hrender, hbody⟩ := exists_render_eq x
  have hmark : ∃ c ∈ body, c = '.' ∨ c = 'e' := by
    rcases hbody with ⟨_, rfl⟩ | ⟨_, rfl | rfl⟩
    · exact ⟨'.', by simp, .inl rfl⟩
    · refine ⟨'.', ?_, .inl rfl⟩
      unfold Layout.placePoint
      dsimp only
      split
      · simp
      · split <;> simp
    · exact ⟨'e', by simp [Layout.scientific], .inr rfl⟩
  obtain ⟨c, hc, hmark⟩ := hmark
  exact ⟨c, hrender ▸ List.mem_append_right _ hc, hmark⟩

/-- **Numbers are told apart by their texts.** -/
theorem render_inj {m n : Number} : m.render = n.render ↔ m = n := by
  refine ⟨fun h => ?_, fun h => congrArg render h⟩
  have hmixed : ∀ i x, (int i).render ≠ (float x).render := by
    intro i x h
    obtain ⟨c, hc, hmark⟩ := exists_mem_render_float x
    rcases mem_render_int (h ▸ hc) with hdigit | rfl
    · rcases hmark with rfl | rfl <;> cases hdigit
    · rcases hmark with hmark | hmark <;> cases hmark
  cases m with
  | int i =>
    cases n with
    | int j => rw [render_int_inj h]
    | float y => exact absurd h (hmixed i y)
  | float x =>
    cases n with
    | int j => exact absurd h.symm (hmixed j x)
    | float y =>
      obtain ⟨p, hp, hx⟩ := exists_numeral_render x
      obtain ⟨q, hq, hy⟩ := exists_numeral_render y
      obtain rfl := hp.unique (h ▸ hq)
      rw [hx] at hy
      rw [Option.some.inj hy]

theorem not_mem_delimiters_of_mem_render {n : Number} {c : Char} (hc : c ∈ n.render) :
    c ∉ delimiters := by
  have hkind : c.isDigit = true ∨ c ∈ ['-', '+', '.', 'e', 'E'] := by
    cases n with
    | int i => exact (mem_render_int hc).imp_right fun h => by simp [h]
    | float x =>
      obtain ⟨p, hp, _⟩ := exists_numeral_render x
      exact hp.mem hc
  intro hdelimiter
  simp only [delimiters, List.mem_cons, List.not_mem_nil, or_false] at hdelimiter
  rcases hdelimiter with rfl | rfl | rfl <;> revert hkind <;> decide

end Number

/-! ### Documents -/

namespace Json

/-- A text is over here: nothing follows, or a delimiter does. -/
def Ends (rest : List Char) : Prop := ∀ c cs, rest = c :: cs → c ∈ delimiters

theorem ends_nil : Ends [] := by
  intro c cs h
  cases h

theorem ends_cons {c : Char} (hc : c ∈ delimiters) (cs : List Char) : Ends (c :: cs) := by
  rintro _ _ ⟨⟩
  exact hc

theorem ends_itemsAfter (xs : List Json) (rest : List Char) :
    Ends (itemsAfter [','] xs ++ rest) := by
  cases xs with
  | nil => exact ends_cons (by decide) _
  | cons x xs => exact ends_cons (by decide) _

theorem ends_membersAfter (ms : Members) (rest : List Char) :
    Ends (membersAfter [','] ms ++ rest) := by
  cases ms with
  | nil => exact ends_cons (by decide) _
  | cons m ms => exact ends_cons (by decide) _

variable {rest rest' : List Char}

theorem Ends.append_inj {as bs : List Char} (hrest : Ends rest) (hrest' : Ends rest')
    (has : ∀ c ∈ as, c ∉ delimiters) (hbs : ∀ c ∈ bs, c ∉ delimiters)
    (h : as ++ rest = bs ++ rest') : as = bs ∧ rest = rest' := by
  -- the longer one would hold what the shorter one is followed by
  rcases List.append_eq_append_iff.1 h with ⟨cs, hcs, hrests⟩ | ⟨cs, hcs, hrests⟩
  · cases cs with
    | nil => simp_all
    | cons c cs => exact absurd (hrest c _ hrests) (hbs c (by simp [hcs]))
  · cases cs with
    | nil => simp_all
    | cons c cs => exact absurd (hrest' c _ hrests) (has c (by simp [hcs]))

theorem renderString_append_inj {s t : String}
    (h : renderString s.toList ++ rest = renderString t.toList ++ rest') :
    s = t ∧ rest = rest' := by
  have hscan : ∀ (s rest : List Char), renderString s ++ rest =
      '"' :: (s.flatMap escapeChar ++ '"' :: rest) := by
    intro s rest
    simp [renderString]
  rw [hscan, hscan] at h
  have heq := congrArg scanString (List.cons.inj h).2
  rw [scanString_escape, scanString_escape] at heq
  obtain ⟨hs, hrest⟩ := Prod.mk.inj (Option.some.inj heq)
  exact ⟨String.toList_injective hs, hrest⟩

theorem lead_eq_of_render {x y : Json} (h : x.render ++ rest = y.render ++ rest') :
    x.lead = y.lead := by
  obtain ⟨c, cs, hx, hc⟩ := x.render_lead
  obtain ⟨d, ds, hy, hd⟩ := y.render_lead
  rw [hx, hy] at h
  obtain rfl := (List.cons.inj h).1
  have hminus : '-'.toNat < '0'.toNat := by decide
  have := x.lead_eq_or
  have := y.lead_eq_or
  omega

/-- No text begins with a character that ends one. -/
theorem render_append_ne {c : Char} (hc : c ∈ delimiters) (x : Json) (rest cs : List Char) :
    x.render ++ rest ≠ c :: cs := by
  intro h
  obtain ⟨d, ds, hx, hd⟩ := x.render_lead
  rw [hx] at h
  obtain rfl := (List.cons.inj h).1
  have hlead : x.lead ∉ [','.toNat, ']'.toNat, '\x7d'.toNat] := by
    cases x with
    | bool b => cases b <;> decide
    | _ => simp [lead]
  simp only [delimiters, List.mem_cons, List.not_mem_nil, or_false] at hc
  rcases hc with rfl | rfl | rfl <;> simp_all

mutual

/-- **What is written first is told apart from what follows it.** -/
theorem render_append_inj (x y : Json) {rest rest' : List Char} (hrest : Ends rest)
    (hrest' : Ends rest') (h : x.render ++ rest = y.render ++ rest') : x = y ∧ rest = rest' := by
  have hlead := lead_eq_of_render h
  cases x with
  | null =>
    cases y with
    | null => exact ⟨rfl, List.append_cancel_left h⟩
    | bool b => cases b <;> cases hlead
    | _ => cases hlead
  | bool a =>
    cases y with
    | bool b =>
      cases a <;> cases b <;> first | exact ⟨rfl, List.append_cancel_left h⟩ | cases hlead
    | _ => cases a <;> cases hlead
  | num m =>
    cases y with
    | num n =>
      have hinj := hrest.append_inj hrest' (fun c => Number.not_mem_delimiters_of_mem_render)
        (fun c => Number.not_mem_delimiters_of_mem_render) h
      exact ⟨congrArg num (Number.render_inj.1 hinj.1), hinj.2⟩
    | bool b => cases b <;> cases hlead
    | _ => cases hlead
  | str s =>
    cases y with
    | str t => exact (renderString_append_inj h).imp_left (congrArg str)
    | bool b => cases b <;> cases hlead
    | _ => cases hlead
  | arr xs =>
    cases y with
    | arr ys =>
      have hitems := (List.cons.inj h).2
      rw [← itemsAfter_nil, ← itemsAfter_nil] at hitems
      exact (items_append_inj [] xs ys (.inl rfl) hitems).imp_left (congrArg arr)
    | bool b => cases b <;> cases hlead
    | _ => cases hlead
  | obj ms =>
    cases y with
    | obj ns =>
      have hmembers := (List.cons.inj h).2
      rw [← membersAfter_nil, ← membersAfter_nil] at hmembers
      exact (members_append_inj [] ms ns (.inl rfl) hmembers).imp_left (congrArg obj)
    | bool b => cases b <;> cases hlead
    | _ => cases hlead

theorem items_append_inj (sep : List Char) (xs ys : List Json) {rest rest' : List Char}
    (hsep : sep = [] ∨ sep = [','])
    (h : itemsAfter sep xs ++ rest = itemsAfter sep ys ++ rest') : xs = ys ∧ rest = rest' := by
  -- a bracket begins neither a separator nor a text
  have hclosed : ∀ y ys cs cs', itemsAfter sep (y :: ys) ++ cs ≠ ']' :: cs' := by
    intro y ys cs cs' h
    rw [itemsAfter_cons, List.append_assoc, List.append_assoc] at h
    rcases hsep with rfl | rfl
    · exact render_append_ne (by decide) y _ _ h
    · cases h
  cases xs with
  | nil =>
    cases ys with
    | nil => exact ⟨rfl, List.append_cancel_left h⟩
    | cons y ys => exact absurd h.symm (hclosed y ys _ _)
  | cons x xs =>
    cases ys with
    | nil => exact absurd h (hclosed x xs _ _)
    | cons y ys =>
      rw [itemsAfter_cons, itemsAfter_cons, List.append_assoc, List.append_assoc, List.append_assoc,
        List.append_assoc] at h
      obtain ⟨rfl, htail⟩ := render_append_inj x y (ends_itemsAfter _ _) (ends_itemsAfter _ _)
        (List.append_cancel_left h)
      obtain ⟨rfl, hrest⟩ := items_append_inj [','] xs ys (.inr rfl) htail
      exact ⟨rfl, hrest⟩

theorem members_append_inj (sep : List Char) (ms ns : Members) {rest rest' : List Char}
    (hsep : sep = [] ∨ sep = [','])
    (h : membersAfter sep ms ++ rest = membersAfter sep ns ++ rest') : ms = ns ∧ rest = rest' := by
  have hclosed : ∀ n ns cs cs', membersAfter sep (n :: ns) ++ cs ≠ '\x7d' :: cs' := by
    intro n ns cs cs' h
    rw [membersAfter_cons] at h
    rcases hsep with rfl | rfl <;> cases h
  cases ms with
  | nil =>
    cases ns with
    | nil => exact ⟨rfl, List.append_cancel_left h⟩
    | cons n ns => exact absurd h.symm (hclosed n ns _ _)
  | cons m ms =>
    cases ns with
    | nil => exact absurd h (hclosed m ms _ _)
    | cons n ns =>
      obtain ⟨k, x⟩ := m
      obtain ⟨l, y⟩ := n
      simp only [membersAfter_cons, List.append_assoc] at h
      obtain ⟨rfl, hvalue⟩ := renderString_append_inj (List.append_cancel_left h)
      obtain ⟨rfl, htail⟩ := render_append_inj x y (ends_membersAfter _ _) (ends_membersAfter _ _)
        (List.append_cancel_left hvalue)
      obtain ⟨rfl, hrest⟩ := members_append_inj [','] ms ns (.inr rfl) htail
      exact ⟨rfl, hrest⟩

end

/-- **Documents are told apart by their texts.** -/
theorem text_inj {x y : Json} : x.text = y.text ↔ x = y := by
  refine ⟨fun h => ?_, fun h => congrArg text h⟩
  have hrender : x.render = y.render := String.ofList_injective h
  exact (render_append_inj x y ends_nil ends_nil (by rw [hrender])).1

end Json

end EdgeFields
