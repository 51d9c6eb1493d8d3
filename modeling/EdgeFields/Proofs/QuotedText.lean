/-
  EdgeFields/Proofs/QuotedText.lean
  =================================
  **Strings in filter expressions.**

  A string stands between double or single quotes, and its characters are respelled for double
  quotes before they are read as JSON. `Filter.Respelled` says which bodies are written for a
  given one, in either style: it follows the escapes, so a run of backslashes in front of a quote
  is taken in pairs. The scan goes to the closing quote and keeps the respelled body
  (`Filter.Respelled.scan_body`). Every body that JSON reads can be written in both styles
  (`Filter.exists_body_of_scanString`, `Filter.Respelled.exists_single`).
-/
import EdgeFields.Proofs.Scan
import EdgeFields.Proofs.Spelling

namespace EdgeFields.Filter

variable {mark c : Char} {written body cs rest s : List Char}

/-! ### Bodies -/

/-- What is written between quotes, and the body that it stands for between double quotes. An
    apostrophe may be escaped, a double quote may stand bare if it is not the mark. -/
inductive Respelled (mark : Char) : List Char → List Char → Prop
  | nil : Respelled mark [] []
  | escape {c : Char} {written body : List Char} (hc : c ≠ '\'') (h : Respelled mark written body) :
    Respelled mark ('\\' :: c :: written) ('\\' :: c :: body)
  | apostrophe {written body : List Char} (h : Respelled mark written body) :
    Respelled mark ('\\' :: '\'' :: written) ('\'' :: body)
  | bare {written body : List Char} (hmark : mark ≠ '"') (h : Respelled mark written body) :
    Respelled mark ('"' :: written) ('\\' :: '"' :: body)
  | char {c : Char} {written body : List Char} (hmark : c ≠ mark) (hquote : c ≠ '"')
    (hbackslash : c ≠ '\\') (h : Respelled mark written body) :
    Respelled mark (c :: written) (c :: body)

/-- The scan takes over the body, and goes on where it was written. -/
theorem Respelled.scan_body (h : Respelled mark written body) (start pos : Nat)
    (front rest : List Char) :
    scan (.quoted start mark front) pos (written ++ rest) =
      scan (.quoted start mark (front ++ body)) (pos + (String.ofList written).utf8ByteSize)
        rest := by
  induction h generalizing pos front with
  | nil => simp
  | escape hc _ ih =>
    rw [List.cons_append, List.cons_append, scan, respellEscape, if_neg hc, ih,
      add_utf8ByteSize_cons, add_utf8ByteSize_cons, List.append_assoc]
    rfl
  | apostrophe _ ih =>
    rw [List.cons_append, List.cons_append, scan, respellEscape, if_pos rfl, ih,
      add_utf8ByteSize_cons, add_utf8ByteSize_cons, List.append_assoc]
    rfl
  | bare hmark _ ih =>
    rw [List.cons_append, scan]
    · rw [if_neg (Ne.symm hmark), respellChar, if_pos rfl, ih, add_utf8ByteSize_cons,
        List.append_assoc]
      rfl
    · exact fun _ _ h => absurd h (by decide)
  | char hmark hquote hescape _ ih =>
    rw [List.cons_append, scan]
    · rw [if_neg hmark, respellChar, if_neg hquote, ih, add_utf8ByteSize_cons, List.append_assoc]
      rfl
    · exact fun _ _ h => absurd h hescape

/-! ### Literals -/

/-- The characters are one string token, whatever stands behind them. -/
def Quotes (literal : List Char) (s : String) : Prop :=
  ∀ pos rest, scan .nothing pos (literal ++ rest) =
    emit pos (.quoted s) (scan .nothing (pos + (String.ofList literal).utf8ByteSize) rest)

theorem Respelled.quotes {s : String} (h : Respelled mark written body)
    (hmark : mark = '"' ∨ mark = '\'') (hs : decodeBody body = some s) :
    Quotes (mark :: (written ++ [mark])) s := by
  intro pos rest
  have hbackslash : mark ≠ '\\' := by
    rcases hmark with rfl | rfl <;> decide
  have hopen : ∀ cs, scan .nothing pos (mark :: cs) =
      scan (.quoted pos mark []) (pos + mark.utf8Size) cs := by
    intro cs
    rw [scan]
    rcases hmark with rfl | rfl <;> rfl
  have hsize : pos + (String.ofList (mark :: (written ++ [mark]))).utf8ByteSize =
      pos + mark.utf8Size + (String.ofList written).utf8ByteSize + mark.utf8Size := by
    have hmarkSize : (String.ofList [mark]).utf8ByteSize = mark.utf8Size :=
      String.utf8ByteSize_singleton
    rw [add_utf8ByteSize_cons, String.ofList_append, String.utf8ByteSize_append, hmarkSize,
      Nat.add_assoc _ (String.ofList written).utf8ByteSize]
  rw [List.cons_append, List.append_assoc, List.singleton_append, hopen,
    h.scan_body, List.nil_append, scan, hsize]
  · rw [if_pos rfl, hs]
  · exact fun _ _ h => absurd h hbackslash

/-! ### JSON -/

theorem Respelled.append {mark : Char} {written written' body body' : List Char}
    (h : Respelled mark written body) (h' : Respelled mark written' body') :
    Respelled mark (written ++ written') (body ++ body') := by
  induction h with
  | nil => exact h'
  | escape hc _ ih => exact .escape hc ih
  | apostrophe _ ih => exact .apostrophe ih
  | bare hmark _ ih => exact .bare hmark ih
  | char hmark hquote hbackslash _ ih => exact .char hmark hquote hbackslash ih

/-- What stands between double quotes and needs no respelling. -/
theorem Respelled.plain {cs : List Char} (hcs : ∀ c ∈ cs, c ≠ '"' ∧ c ≠ '\\') :
    Respelled '"' cs cs := by
  induction cs with
  | nil => exact .nil
  | cons c cs ih =>
    rw [List.forall_mem_cons] at hcs
    exact .char hcs.1.1 hcs.1.1 hcs.1.2 (ih hcs.2)

theorem ne_of_hex4? {a b c d : Char} {n : Nat} (h : Json.hex4? a b c d = some n) :
    ∀ x ∈ [a, b, c, d], x ≠ '"' ∧ x ≠ '\\' := by
  have hdigit : ∀ {x k}, Json.hexValue? x = some k → x ≠ '"' ∧ x ≠ '\\' := by
    intro x k hx
    constructor <;> rintro rfl <;> cases hx
  simp only [Json.hex4?, Option.bind_eq_bind, Option.bind_eq_some_iff] at h
  obtain ⟨_, ha, _, hb, _, hc, _, hd, _⟩ := h
  simp only [List.forall_mem_cons]
  exact ⟨hdigit ha, hdigit hb, hdigit hc, hdigit hd, List.forall_mem_nil _⟩

theorem respelled_hex {a b c d : Char} {n : Nat} (h : Json.hex4? a b c d = some n) :
    Respelled '"' ['\\', 'u', a, b, c, d] ['\\', 'u', a, b, c, d] :=
  .escape (by decide) (.plain (ne_of_hex4? h))

/-- A text that JSON reads as a string, up to the closing quote, needs no respelling. -/
theorem exists_body_of_scanString (cs s rest : List Char)
    (h : Json.scanString cs = some (s, rest)) :
    ∃ body, cs = body ++ '"' :: rest ∧ Respelled '"' body body := by
  -- a character's spelling in front of what is read from there on
  have hstep : ∀ {front tail s : List Char} {x : Char}, Respelled '"' front front →
      (∀ s, Json.scanString tail = some (s, rest) →
        ∃ body, tail = body ++ '"' :: rest ∧ Respelled '"' body body) →
      (Json.scanString tail).map (fun p => (x :: p.1, p.2)) = some (s, rest) →
      ∃ body, front ++ tail = body ++ '"' :: rest ∧ Respelled '"' body body := by
    intro front tail s x hfront ih h
    obtain ⟨⟨s', rest'⟩, htail, heq⟩ := Option.map_eq_some_iff.1 h
    have hrest : rest' = rest := congrArg Prod.snd heq
    obtain ⟨body, rfl, hbody⟩ := ih s' (hrest ▸ htail)
    exact ⟨front ++ body, (List.append_assoc ..).symm, hfront.append hbody⟩
  fun_induction Json.scanString cs generalizing s with
  | case2 rest' =>
    cases h
    exact ⟨[], rfl, .nil⟩
  | case5 a b c d hi hhex _ a' b' c' d' rest' lo hhex' _ ih =>
    have hpair := (respelled_hex hhex).append (respelled_hex hhex')
    exact hstep hpair ih h
  | case9 a b c d rest' n hhex _ _ ih => exact hstep (respelled_hex hhex) ih h
  | case11 c rest' _ c' hescape ih =>
    have hc : c ≠ '\'' := by
      rintro rfl
      cases hescape
    exact hstep (.escape hc .nil) ih h
  | case14 c rest' hquote _ _ hbackslash _ ih =>
    exact hstep (.char hquote hquote hbackslash .nil) ih h
  | _ => cases h

/-- **Every body is written between single quotes, too.** -/
theorem Respelled.exists_single (h : Respelled '"' written body) :
    ∃ single, Respelled '\'' single body := by
  induction h with
  | nil => exact ⟨_, .nil⟩
  | escape hc _ ih =>
    obtain ⟨single, hsingle⟩ := ih
    exact ⟨_, .escape hc hsingle⟩
  | apostrophe _ ih =>
    obtain ⟨single, hsingle⟩ := ih
    exact ⟨_, .apostrophe hsingle⟩
  | bare hmark => exact absurd rfl hmark
  | @char c _ _ _ hquote hbackslash _ ih =>
    obtain ⟨single, hsingle⟩ := ih
    by_cases hc : c = '\''
    · subst hc
      exact ⟨_, .apostrophe hsingle⟩
    · exact ⟨_, .char hc hquote hbackslash hsingle⟩

/-! ### Both styles -/

/-- The body, read between double quotes in JSON, is the string. -/
def Denotes (body : List Char) (s : String) : Prop :=
  Json.scanString (body ++ ['"']) = some (s.toList, [])

theorem Denotes.respelled {s : String} (h : Denotes body s) : Respelled '"' body body := by
  obtain ⟨body', heq, hbody⟩ := exists_body_of_scanString _ _ _ h
  rwa [List.append_cancel_right heq]

theorem Denotes.decodeBody {s : String} (h : Denotes body s) : Filter.decodeBody body = some s := by
  rw [Filter.decodeBody, h]
  exact congrArg some String.ofList_toList

theorem quotes_renderString (s : String) : Quotes (Json.renderString s.toList) s := by
  have hbody : Denotes (s.toList.flatMap Json.escapeChar) s := Json.scanString_escape s.toList []
  exact hbody.respelled.quotes (.inl rfl) hbody.decodeBody

/-- **Every string is written in both styles.**  Its escape denotes it, and whatever body denotes
    it is one token between double quotes, and between single quotes in every respelling, of which
    there is one at least. -/
theorem quotes_both_styles (s : String) :
    Denotes (s.toList.flatMap Json.escapeChar) s ∧
    ∀ body, Denotes body s →
      Quotes ('"' :: (body ++ ['"'])) s ∧
      (∃ written, Respelled '\'' written body) ∧
      ∀ written, Respelled '\'' written body → Quotes ('\'' :: (written ++ ['\''])) s := by
  refine ⟨Json.scanString_escape s.toList [], fun body hbody => ⟨?_, ?_, ?_⟩⟩
  · exact hbody.respelled.quotes (.inl rfl) hbody.decodeBody
  · exact hbody.respelled.exists_single
  · intro written hwritten
    exact hwritten.quotes (.inr rfl) hbody.decodeBody

/-- A string with both quotes and a backslash at its end: its escape between double quotes, and
    between single quotes with a bare and with an escaped double quote. -/
theorem quotes_both_styles_mixed :
    Quotes "\"a\\\"b'\\\\\"".toList "a\"b'\\" ∧
    Quotes "'a\"b\\'\\\\'".toList "a\"b'\\" ∧
    Quotes "'a\\\"b\\'\\\\'".toList "a\"b'\\" := by
  obtain ⟨hescape, hall⟩ := quotes_both_styles "a\"b'\\"
  obtain ⟨hdouble, _, hsingle⟩ := hall _ hescape
  have hend : Respelled '\'' ['b', '\\', '\'', '\\', '\\'] ['b', '\'', '\\', '\\'] :=
    .char (by decide) (by decide) (by decide) (.apostrophe (.escape (by decide) .nil))
  refine ⟨hdouble, hsingle "a\"b\\'\\\\".toList ?_, hsingle "a\\\"b\\'\\\\".toList ?_⟩
  · exact .char (by decide) (by decide) (by decide) (.bare (by decide) hend)
  · exact .char (by decide) (by decide) (by decide) (.escape (by decide) hend)

end EdgeFields.Filter
