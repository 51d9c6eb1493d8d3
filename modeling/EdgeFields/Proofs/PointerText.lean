/-
  EdgeFields/Proofs/PointerText.lean
  ==================================
  **The text of a pointer.**

  A segment is written by two replacements, of the tildes and then of the slashes, and read by
  undoing them in the opposite order. The slashes come back first, from a text in which every
  tilde stands before a `0`, so that no `~1` in it can be mistaken for one of them
  (`Text.withoutPair_replaceChar`, `Text.replacePair_replaceChar_of_withoutPair`); then the
  tildes come back (`Text.replacePair_replaceChar`). A written segment has no slash, so that the
  text is cut into the segments again.

  Empty pieces of a text are skipped. A pointer therefore comes back without its empty segments
  (`Pointer.ofText_text_eq`), and what is read from a text has none
  (`Pointer.of_mem_segments_ofText`).
-/
import EdgeFields.Filter.Codec
import Mathlib.Data.List.Chain

namespace EdgeFields

namespace Text

variable {a b c d x separator : Char} {cs rest w piece : List Char}

/-! ### Replacements -/

/-- Every `a` becomes the text `w`. -/
def replaceChar (a : Char) (w cs : List Char) : List Char :=
  cs.flatMap fun x => if x = a then w else [x]

/-- No `a` stands before a `b`. -/
def WithoutPair (a b : Char) (cs : List Char) : Prop := cs.IsChain fun x y => x = a → y ≠ b

theorem replaceChar_cons_self : replaceChar a w (a :: cs) = w ++ replaceChar a w cs := by
  rw [replaceChar, List.flatMap_cons, if_pos rfl, replaceChar]

theorem replaceChar_cons_of_ne (h : x ≠ a) :
    replaceChar a w (x :: cs) = x :: replaceChar a w cs := by
  rw [replaceChar, List.flatMap_cons, if_neg h, List.singleton_append, replaceChar]

theorem not_mem_replaceChar (h : a ∉ w) : a ∉ replaceChar a w cs := by
  rw [replaceChar, List.mem_flatMap]
  rintro ⟨x, _, hx⟩
  split at hx
  · exact h hx
  · next hne => exact hne (List.mem_singleton.1 hx).symm

theorem replacePair_pair : replacePair a b c (a :: b :: rest) = c :: replacePair a b c rest := by
  rw [replacePair, if_pos ⟨rfl, rfl⟩]

theorem replacePair_cons (h : x = a → rest.head? ≠ some b) :
    replacePair a b c (x :: rest) = x :: replacePair a b c rest := by
  cases rest with
  | nil => rfl
  | cons y rest =>
    rw [replacePair, if_neg]
    rintro ⟨hx, rfl⟩
    exact h hx rfl

/-- **A character written as itself and a mark is read back**, whatever text it stands in. -/
theorem replacePair_replaceChar : replacePair a b a (replaceChar a [a, b] cs) = cs := by
  induction cs with
  | nil => rfl
  | cons x cs ih =>
    by_cases hx : x = a
    · subst hx
      rw [replaceChar_cons_self, List.cons_append, List.singleton_append, replacePair_pair, ih]
    · rw [replaceChar_cons_of_ne hx, replacePair_cons fun h => absurd h hx, ih]

/-- If every `a` is followed by a `d`, none is followed by another character. -/
theorem withoutPair_replaceChar (hda : d ≠ a) (hdb : d ≠ b) :
    WithoutPair a b (replaceChar a [a, d] cs) := by
  induction cs with
  | nil => exact .nil
  | cons x cs ih =>
    by_cases hx : x = a
    · subst hx
      rw [replaceChar_cons_self]
      refine List.isChain_cons_cons.2 ⟨fun _ => hdb, List.isChain_cons.2 ⟨?_, ih⟩⟩
      intro _ _ h
      exact absurd h hda
    · rw [replaceChar_cons_of_ne hx]
      refine List.isChain_cons.2 ⟨?_, ih⟩
      intro _ _ h
      exact absurd h hx

theorem head?_replaceChar_ne (hab : a ≠ b) (h : cs.head? ≠ some b) :
    (replaceChar c [a, b] cs).head? ≠ some b := by
  cases cs with
  | nil => exact h
  | cons x cs =>
    by_cases hx : x = c
    · subst hx
      rw [replaceChar_cons_self]
      simpa using hab
    · rw [replaceChar_cons_of_ne hx]
      exact h

/-- **A character written as a pair is read back** from a text that had no such pair. -/
theorem replacePair_replaceChar_of_withoutPair (hab : a ≠ b) (h : WithoutPair a b cs) :
    replacePair a b c (replaceChar c [a, b] cs) = cs := by
  induction cs with
  | nil => rfl
  | cons x cs ih =>
    obtain ⟨hhead, htail⟩ := List.isChain_cons.1 h
    by_cases hx : x = c
    · subst hx
      rw [replaceChar_cons_self, List.cons_append, List.singleton_append, replacePair_pair,
        ih htail]
    · rw [replaceChar_cons_of_ne hx, replacePair_cons, ih htail]
      -- an `a` of the text stays before what it stood before
      intro hxa
      exact head?_replaceChar_ne hab fun hb => hhead b hb hxa rfl

theorem mem_of_mem_replacePair (h : x ∈ replacePair a b c cs) : x = c ∨ x ∈ cs := by
  fun_induction replacePair a b c cs with
  | case1 x' y rest _ ih =>
    rcases List.mem_cons.1 h with h | h
    · exact .inl h
    · exact (ih h).imp_right fun h => List.mem_cons_of_mem _ (List.mem_cons_of_mem _ h)
  | case2 x' y rest _ ih =>
    rcases List.mem_cons.1 h with h | h
    · exact .inr (List.mem_cons.2 (.inl h))
    · exact (ih h).imp_right (List.mem_cons_of_mem _)
  | case3 => exact .inr h

theorem replacePair_eq_nil (h : replacePair a b c cs = []) : cs = [] := by
  match cs with
  | [] => rfl
  | [_] => cases h
  | x :: y :: rest =>
    rw [replacePair] at h
    split at h <;> cases h

/-! ### Pieces -/

theorem mem_of_mem_pieces (hpiece : piece ∈ pieces separator cs) (h : x ∈ piece) : x ∈ cs := by
  induction cs generalizing piece with
  | nil =>
    rw [List.mem_singleton.1 hpiece] at h
    exact h
  | cons c cs ih =>
    rw [pieces] at hpiece
    split at hpiece
    · rcases List.mem_cons.1 hpiece with rfl | hpiece
      · cases h
      · exact List.mem_cons_of_mem _ (ih hpiece h)
    · split at hpiece
      · next first others heq =>
        rcases List.mem_cons.1 hpiece with rfl | hpiece
        · rcases List.mem_cons.1 h with h | h
          · exact List.mem_cons.2 (.inl h)
          · exact List.mem_cons_of_mem _ (ih (heq ▸ List.mem_cons_self) h)
        · exact List.mem_cons_of_mem _ (ih (heq ▸ List.mem_cons_of_mem _ hpiece) h)
      · rw [List.mem_singleton.1 hpiece] at h
        exact List.mem_cons.2 (.inl (List.mem_singleton.1 h))

/-- A text without separators is one piece. -/
theorem pieces_eq_singleton (h : separator ∉ cs) : pieces separator cs = [cs] := by
  induction cs with
  | nil => rfl
  | cons c cs ih =>
    rw [List.mem_cons, not_or] at h
    rw [pieces, if_neg (Ne.symm h.1), ih h.2]

theorem pieces_ne_nil (separator : Char) (cs : List Char) : pieces separator cs ≠ [] := by
  induction cs with
  | nil => simp [pieces]
  | cons c cs _ =>
    rw [pieces]
    split
    · simp
    · split <;> simp

/-- A text is cut at a separator into the pieces before it and those after it. -/
theorem pieces_append_separator (separator : Char) (cs rest : List Char) :
    pieces separator (cs ++ separator :: rest) = pieces separator cs ++ pieces separator rest := by
  induction cs with
  | nil => simp [pieces]
  | cons c cs ih =>
    rw [List.cons_append, pieces, pieces, ih]
    split
    · rfl
    · cases hpieces : pieces separator cs with
      | nil => exact absurd hpieces (pieces_ne_nil separator cs)
      | cons p ps => rfl

theorem pieces_append (h : separator ∉ cs) (rest : List Char) :
    pieces separator (cs ++ separator :: rest) = cs :: pieces separator rest := by
  rw [pieces_append_separator, pieces_eq_singleton h, List.singleton_append]

end Text

namespace Pointer

/-! ### Segments -/

/-- Both characters are escaped at once: no tilde that a slash is written with is escaped again. -/
theorem flatMap_escapeChar (cs : List Char) : cs.flatMap escapeChar =
    Text.replaceChar '/' ['~', '1'] (Text.replaceChar '~' ['~', '0'] cs) := by
  induction cs with
  | nil => rfl
  | cons c cs ih =>
    rw [List.flatMap_cons, ih, escapeChar]
    split
    · next h =>
      subst h
      rfl
    · next htilde =>
      rw [Text.replaceChar_cons_of_ne htilde]
      split
      · next h =>
        subst h
        rfl
      · next hslash => rw [Text.replaceChar_cons_of_ne hslash, List.singleton_append]

/-- **An escaped segment is read as the segment.** -/
theorem unescape_escape (cs : List Char) : unescape (cs.flatMap escapeChar) = cs := by
  have htildes : Text.WithoutPair '~' '1' (Text.replaceChar '~' ['~', '0'] cs) :=
    Text.withoutPair_replaceChar (by decide) (by decide)
  rw [flatMap_escapeChar, unescape,
    Text.replacePair_replaceChar_of_withoutPair (by decide) htildes, Text.replacePair_replaceChar]

theorem slash_not_mem_escape (cs : List Char) : '/' ∉ cs.flatMap escapeChar := by
  rw [flatMap_escapeChar]
  exact Text.not_mem_replaceChar (by decide)

theorem escape_eq_nil_iff {cs : List Char} : cs.flatMap escapeChar = [] ↔ cs = [] := by
  refine ⟨fun h => ?_, fun h => by rw [h, List.flatMap_nil]⟩
  rw [← unescape_escape cs, h]
  rfl

/-! ### Whole pointers -/

/-- The pieces of written segments behind a piece without slashes. -/
theorem pieces_render {cs : List Char} (h : '/' ∉ cs) (segments : List String) :
    Text.pieces '/' (cs ++ segments.flatMap fun s => '/' :: s.toList.flatMap escapeChar) =
      cs :: segments.map fun s => s.toList.flatMap escapeChar := by
  induction segments generalizing cs with
  | nil => rw [List.flatMap_nil, List.append_nil, Text.pieces_eq_singleton h, List.map_nil]
  | cons s segments ih =>
    rw [List.flatMap_cons, List.cons_append, Text.pieces_append h, ih (slash_not_mem_escape _),
      List.map_cons]

theorem filter_pieces_render (segments : List String) :
    (Text.pieces '/' (render ⟨segments⟩)).filter (fun piece => !piece.isEmpty) =
      (segments.filter (· ≠ "")).map fun s => s.toList.flatMap escapeChar := by
  cases segments with
  | nil => rfl
  | cons s segments =>
    have hsplit := pieces_render (List.not_mem_nil : '/' ∉ []) (s :: segments)
    rw [List.nil_append] at hsplit
    show (Text.pieces '/' ((s :: segments).flatMap _)).filter _ = _
    -- the first piece stands before the first slash and is empty
    rw [hsplit, List.filter_cons_of_neg (by simp), List.filter_map]
    congr 2
    funext s
    rw [Bool.eq_iff_iff]
    simp [escape_eq_nil_iff, -List.flatMap_eq_nil_iff]

/-- **A pointer comes back without its empty segments.** -/
theorem ofText_text_eq (p : Pointer) : ofText p.text = ⟨p.segments.filter (· ≠ "")⟩ := by
  rw [ofText, text, String.toList_ofList, filter_pieces_render, List.map_map]
  congr
  refine List.map_id'' ?_ _
  intro s
  show String.ofList (unescape _) = s
  rw [unescape_escape, String.ofList_toList]

/-- **A pointer is read back as it is written exactly if no segment is empty.** -/
theorem ofText_text_iff {p : Pointer} : ofText p.text = p ↔ ∀ s ∈ p.segments, s ≠ "" := by
  obtain ⟨segments⟩ := p
  rw [ofText_text_eq, Pointer.mk.injEq, List.filter_eq_self]
  simp

theorem ofText_text {p : Pointer} (h : ∀ s ∈ p.segments, s ≠ "") : ofText p.text = p :=
  ofText_text_iff.2 h

/-- The segments that are read are not empty, and their characters are in the text, unless they
    stood escaped. -/
theorem of_mem_segments_ofText {text s : String} (h : s ∈ (ofText text).segments) :
    s ≠ "" ∧ ∀ c ∈ s.toList, c = '~' ∨ c = '/' ∨ c ∈ text.toList := by
  obtain ⟨piece, hpiece, rfl⟩ := List.mem_map.1 h
  obtain ⟨hpiece, hne⟩ := List.mem_filter.1 hpiece
  constructor
  · intro hempty
    have hnil : unescape piece = [] := by
      rw [← String.toList_ofList (l := unescape piece), hempty]
      rfl
    rw [Text.replacePair_eq_nil (Text.replacePair_eq_nil hnil)] at hne
    cases hne
  · intro c hc
    rw [String.toList_ofList] at hc
    rcases Text.mem_of_mem_replacePair hc with hc | hc
    · exact .inl hc
    · rcases Text.mem_of_mem_replacePair hc with hc | hc
      · exact .inr (.inl hc)
      · exact .inr (.inr (Text.mem_of_mem_pieces hpiece hc))

theorem text_inj {p q : Pointer} (hp : ∀ s ∈ p.segments, s ≠ "") (hq : ∀ s ∈ q.segments, s ≠ "")
    (h : p.text = q.text) : p = q :=
  calc p = ofText p.text := (ofText_text hp).symm
    _ = ofText q.text := by rw [h]
    _ = q := ofText_text hq

theorem ofJson?_toJson (p : Pointer) : ofJson? p.toJson = some (ofText p.text) := rfl

/-- **The text of a pointer is faithful.** A pointer is read back as it is written, by itself and
    in documents, exactly if no segment is empty, so that two such pointers have two texts; and
    whatever text a pointer was read from, it is read again from its own. -/
theorem text_faithful :
    (∀ segments : List String,
      (ofText (text ⟨segments⟩) = ⟨segments⟩ ↔ ∀ s ∈ segments, s ≠ "") ∧
      (ofJson? (toJson ⟨segments⟩) = some ⟨segments⟩ ↔ ∀ s ∈ segments, s ≠ "")) ∧
    (∀ p q : Pointer, (∀ s ∈ p.segments, s ≠ "") → (∀ s ∈ q.segments, s ≠ "") → p ≠ q →
      p.text ≠ q.text) ∧
    ∀ s : String, ofText (ofText s).text = ofText s := by
  refine ⟨fun segments => ⟨ofText_text_iff, ?_⟩, ?_, ?_⟩
  · rw [ofJson?_toJson, Option.some.injEq]
    exact ofText_text_iff
  · intro p q hp hq hne htext
    exact hne (text_inj hp hq htext)
  · intro s
    exact ofText_text fun segment hsegment => (of_mem_segments_ofText hsegment).1

/-- Segments of tildes, slashes and digits: if the tildes were read before the slashes, `~01` would
    become a slash and the two texts be read alike. An empty segment behind them is lost. -/
theorem text_faithful_tildes :
    text ⟨["~1", "/0"]⟩ = "/~01/~10" ∧
    ofText "/~01/~10" = ⟨["~1", "/0"]⟩ ∧
    text ⟨["~1", "/0"]⟩ ≠ text ⟨["/", "/0"]⟩ ∧
    ofText (text ⟨["~1", "/0", ""]⟩) ≠ ⟨["~1", "/0", ""]⟩ := by
  obtain ⟨hback, hdiffer, _⟩ := text_faithful
  have htext : text ⟨["~1", "/0"]⟩ = "/~01/~10" := by decide +kernel
  have hnonempty : ∀ s ∈ ["~1", "/0"], s ≠ "" := by decide
  refine ⟨htext, ?_, hdiffer _ _ hnonempty (by decide) (by decide), ?_⟩
  · rw [← htext]
    exact (hback _).1.2 hnonempty
  · intro h
    exact (hback _).1.1 h "" (by decide) rfl

end Pointer

end EdgeFields
