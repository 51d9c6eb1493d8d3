/-
  EdgeFields/Proofs/Paging.lean
  =============================
  **Paging visits every match exactly once.**

  A page is a window of the records that a request matches, and its cookie is the position
  behind the window (`MemoryStore.query_eq_ok_iff`). A request repeated with the cookie of
  its page therefore goes on where the page ended (`MemoryStore.start_cookie`), and as every
  page but the last one has as many records as the page size says, the position ascends: the
  pages come to an end (`MemoryStore.exists_pages`), and put together they are what the
  request finds without pages (`MemoryStore.pages_visit_matches`).

  Positions are read back from cookies as they were written while they fit 64 bits, so a
  store is taken to hold fewer than `2 ^ 64` records.
-/
import EdgeFields.Proofs.Literal
import EdgeFields.Proofs.OwnerScope
import Mathlib.Algebra.Group.Nat.Defs

namespace EdgeFields

/-! ### Positions in cookies -/

/-- **A position is read back from its text.** -/
theorem Text.index?_toString {n : Nat} (h : n < 2 ^ 64) : index? (toString n) = some n := by
  have hdigits : (toString n).toList = Nat.toDigits 10 n := Nat.toList_repr
  have hrun := Number.digits_toDigits n
  have hall : (Nat.toDigits 10 n).all Char.isDigit = true := List.all_eq_true.2 hrun.2
  unfold index?
  rw [hdigits]
  split
  · next heq => exact absurd heq (hrun.ne_cons (by decide) _)
  · dsimp only
    rw [List.isEmpty_eq_false_iff.2 hrun.1, hall, Number.digitsValue_toDigits]
    simpa using h

namespace MemoryStore

variable {s : MemoryStore} {c : String} {r : Request} {filters : List Filter} {first : Nat}
  {found : QueryResults}

/-! ### Single pages -/

/-- What is returned of a matched record. -/
def returned (r : Request) (record : Record) : Record :=
  match r.selection with
  | .idsOnly => .ofMembers record.id record.revision []
  | _ => record

/-- The page of a request that starts at a position. -/
def pageAt (s : MemoryStore) (c : String) (r : Request) (filters : List Filter) (first : Nat) :
    QueryResults :=
  let page := Paging.page r.pageSize first (s.matched c r filters)
  ⟨page.map (returned r), Paging.response r first page.length (s.matched c r filters).length⟩

/-- **A query answers the page at its start**, for any query id. -/
theorem query_eq_ok_iff :
    s.query c r = .ok found ↔ r.expression = none ∧ ∃ filters first,
      selectionFilters r = .ok filters ∧ Paging.start r = .ok first ∧
      found = s.pageAt c r filters first := by
  cases hexpression : r.expression with
  | some expression =>
    unfold query
    rw [hexpression]
    simp [bind, Except.bind, throw, throwThe, MonadExceptOf.throw]
  | none =>
    have hquery : s.query c r = (do
        let filters ← selectionFilters r
        let first ← (Paging.start r).mapError .invalidCookie
        .ok (s.pageAt c r filters first)) := by
      unfold query pageAt returned
      rw [hexpression]
      cases r.selection <;> simp <;> rfl
    simp only [hquery, Result.bind_eq_ok, Result.mapError_eq_ok, true_and, Except.ok.injEq]
    constructor
    · rintro ⟨filters, hfilters, first, hfirst, rfl⟩
      exact ⟨filters, first, hfilters, hfirst, rfl⟩
    · rintro ⟨filters, first, hfilters, hfirst, rfl⟩
      exact ⟨filters, hfilters, first, hfirst, rfl⟩

theorem length_matched_le (s : MemoryStore) (c : String) (r : Request) (filters : List Filter) :
    (s.matched c r filters).length ≤ s.records.length := by
  unfold matched container
  rw [(SortKey.sort_perm _ _ _).length_eq]
  exact Nat.le_trans (List.length_filter_le _ _) (List.length_filterMap_le _ _)

/-- What is left of the matches from a position on, as it is returned. -/
def returnedFrom (s : MemoryStore) (c : String) (r : Request) (filters : List Filter)
    (first : Nat) : List Record :=
  ((s.matched c r filters).drop first).map (returned r)

theorem length_returnedFrom (s : MemoryStore) (c : String) (r : Request) (filters : List Filter)
    (first : Nat) :
    (s.returnedFrom c r filters first).length = (s.matched c r filters).length - first := by
  rw [returnedFrom, List.length_map, List.length_drop]

/-- Without a page size the page is all that is left. -/
theorem records_pageAt_of_unpaged (hsize : r.pageSize = 0) :
    (s.pageAt c r filters first).records = s.returnedFrom c r filters first := by
  unfold pageAt Paging.page
  rw [if_pos hsize]
  rfl

/-- A page has the first ones of what is left. -/
theorem records_pageAt (hsize : 0 < r.pageSize) :
    (s.pageAt c r filters first).records =
      (s.returnedFrom c r filters first).take r.pageSize := by
  unfold pageAt Paging.page returnedFrom
  rw [if_neg (Nat.ne_of_gt hsize), ← List.map_take]

/-- What is left behind a page starts where the page ends. -/
theorem returnedFrom_add (n : Nat) :
    s.returnedFrom c r filters (first + n) = (s.returnedFrom c r filters first).drop n := by
  rw [returnedFrom, returnedFrom, ← List.map_drop, List.drop_drop]

/-- **A page tells how many matches lie behind it**, and where they begin. -/
theorem response_pageAt (hsize : 0 < r.pageSize) :
    (s.pageAt c r filters first).response =
      { cookie :=
          if (s.returnedFrom c r filters (first + r.pageSize)).isEmpty then none
          else some (toString (first + r.pageSize))
        remaining := some (s.returnedFrom c r filters (first + r.pageSize)).length
        total := if r.total = .none then none else some (s.matched c r filters).length } := by
  have hne : r.pageSize ≠ 0 := Nat.ne_of_gt hsize
  have hcount : (Paging.page r.pageSize first (s.matched c r filters)).length =
      min r.pageSize ((s.matched c r filters).length - first) := by
    rw [Paging.page, if_neg hne, List.length_take, List.length_drop]
  have hbehind : (s.matched c r filters).length -
      (first + min r.pageSize ((s.matched c r filters).length - first)) =
      (s.returnedFrom c r filters (first + r.pageSize)).length := by
    rw [length_returnedFrom]
    omega
  unfold pageAt Paging.response
  dsimp only
  rw [hcount, hbehind]
  simp only [hne, false_or, if_false, List.isEmpty_iff, ← List.length_eq_zero_iff]
  by_cases hlast : (s.returnedFrom c r filters (first + r.pageSize)).length = 0
  · simp only [hlast, if_true]
  · rw [if_neg hlast, if_neg hlast]
    -- what follows the page is there, so the page is full
    rw [length_returnedFrom] at hlast
    rw [Nat.min_eq_left (by omega)]

/-! ### Chains of pages -/

/-- The pages that are obtained one after the other: every request repeats the one before it
    with the cookie of its page, and a page without a cookie is the last one. -/
inductive Pages (s : MemoryStore) (c : String) : Request → List QueryResults → Prop
  | last {r : Request} {page : QueryResults} (h : s.query c r = .ok page)
    (hcookie : page.response.cookie = none) : Pages s c r [page]
  | next {r : Request} {page : QueryResults} {cookie : String} {pages : List QueryResults}
    (h : s.query c r = .ok page) (hcookie : page.response.cookie = some cookie)
    (hrest : Pages s c { r with cookie := some cookie } pages) : Pages s c r (page :: pages)

/-- There is one way to go through the pages. -/
theorem Pages.unique {pages pages' : List QueryResults} (h : Pages s c r pages)
    (h' : Pages s c r pages') : pages' = pages := by
  induction h generalizing pages' with
  | last hpage hcookie =>
    cases h' with
    | last hpage' _ =>
      rw [hpage] at hpage'
      cases hpage'
      rfl
    | next hpage' hcookie' _ =>
      rw [hpage] at hpage'
      cases hpage'
      rw [hcookie] at hcookie'
      cases hcookie'
  | next hpage hcookie _ ih =>
    cases h' with
    | last hpage' hcookie' =>
      rw [hpage] at hpage'
      cases hpage'
      rw [hcookie] at hcookie'
      cases hcookie'
    | next hpage' hcookie' hrest' =>
      rw [hpage] at hpage'
      cases hpage'
      rw [hcookie] at hcookie'
      cases hcookie'
      rw [ih hrest']

/-- What a page says about the records of the pages after it. -/
structure Announces (r : Request) (total : Nat) (page : QueryResults)
    (after : List QueryResults) : Prop where
  size : page.records.length ≤ r.pageSize
  remaining : page.response.remaining = some (after.flatMap (·.records)).length
  cookie : page.response.cookie.isSome ↔ 0 < (after.flatMap (·.records)).length
  total : page.response.total = if r.total = .none then none else some total

/-- **A request goes on where its page ended** when it is repeated with the cookie. -/
theorem start_cookie (r : Request) {n : Nat} (hn : n < 2 ^ 64) :
    Paging.start { r with cookie := some (toString n) } = .ok n := by
  unfold Paging.start
  simp only [Text.index?_toString hn]

/-- **From every position the pages come to an end**, and hold what is left from there on. -/
theorem exists_pages (hexpression : r.expression = none) (hsize : 0 < r.pageSize)
    (hfilters : selectionFilters r = .ok filters)
    (hcount : (s.matched c r filters).length < 2 ^ 64) {cookie : Option String}
    (hstart : Paging.start { r with cookie } = .ok first) :
    ∃ pages, Pages s c { r with cookie } pages ∧
      pages.flatMap (·.records) = s.returnedFrom c r filters first ∧
      ∀ before page after, pages = before ++ page :: after →
        Announces r (s.matched c r filters).length page after := by
  -- the matches that are left become fewer with every page that has a cookie
  induction hleft : (s.returnedFrom c r filters first).length using Nat.strongRecOn
    generalizing cookie first with
  | ind left ih =>
    have hpage : s.query c { r with cookie } = .ok (s.pageAt c r filters first) :=
      query_eq_ok_iff.2 ⟨hexpression, filters, first, hfilters, hstart, rfl⟩
    have hrecords := @records_pageAt s c r filters first hsize
    have hresponse := @response_pageAt s c r filters first hsize
    have hsplit := List.take_append_drop r.pageSize (s.returnedFrom c r filters first)
    rw [← returnedFrom_add] at hsplit
    have hfirst : ∀ after : List QueryResults,
        after.flatMap (·.records) = s.returnedFrom c r filters (first + r.pageSize) →
        Announces r (s.matched c r filters).length (s.pageAt c r filters first) after := by
      intro after hafter
      refine ⟨?_, ?_, ?_, ?_⟩
      · rw [hrecords]
        exact List.length_take_le _ _
      · rw [hresponse, hafter]
      · rw [hresponse, hafter, List.length_pos_iff]
        split <;> simp_all
      · rw [hresponse]
    by_cases hlast : s.returnedFrom c r filters (first + r.pageSize) = []
    · have hnone : (s.pageAt c r filters first).response.cookie = none := by
        rw [hresponse]
        simp only [hlast, List.isEmpty_nil, if_true]
      refine ⟨[s.pageAt c r filters first], .last hpage hnone, ?_, ?_⟩
      · rw [List.flatMap_singleton, hrecords]
        rw [hlast, List.append_nil] at hsplit
        exact hsplit
      · intro before page after heq
        obtain ⟨rfl, rfl, rfl⟩ : before = [] ∧ page = s.pageAt c r filters first ∧ after = [] := by
          cases before with
          | nil => simp_all
          | cons p ps => simp at heq
        exact hfirst [] hlast.symm
    · have hcookie : (s.pageAt c r filters first).response.cookie =
          some (toString (first + r.pageSize)) := by
        rw [hresponse]
        simp [hlast]
      have hbehind : first + r.pageSize < (s.matched c r filters).length := by
        have hpos := List.length_pos_iff.2 hlast
        rw [length_returnedFrom] at hpos
        omega
      have hfewer : (s.returnedFrom c r filters (first + r.pageSize)).length < left := by
        rw [← hleft, length_returnedFrom, length_returnedFrom]
        omega
      obtain ⟨pages, hpages, hall, hannounces⟩ :=
        ih _ hfewer (start_cookie r (Nat.lt_trans hbehind hcount)) rfl
      refine ⟨_, .next hpage hcookie hpages, ?_, ?_⟩
      · rw [List.flatMap_cons, hall, hrecords]
        exact hsplit
      · intro before page after heq
        cases before with
        | nil =>
          obtain ⟨rfl, rfl⟩ := List.cons.inj heq
          exact hfirst _ hall
        | cons p before =>
          exact hannounces before page after (List.cons.inj heq).2

/-- **Going from page to page visits every match from the offset on, once and in order.** The
    pages come to an end; together they are what the same request finds without pages, and each
    of them tells how many matches are still to come and how many there are in all. Behind the
    last match there is one page, an empty one. -/
theorem pages_visit_matches (hcookie : r.cookie = none) (hsize : 0 < r.pageSize)
    (hcount : s.records.length < 2 ^ 64) (h : s.query c r = .ok found) :
    ∃ all whole pages,
      s.query c { r with pageSize := 0, offset := 0 } = .ok all ∧
      s.query c { r with pageSize := 0 } = .ok whole ∧
      Pages s c r pages ∧ (∀ pages', Pages s c r pages' → pages' = pages) ∧
      pages.flatMap (·.records) = whole.records ∧
      whole.records = all.records.drop r.offset ∧
      (∀ before page after, pages = before ++ page :: after →
        Announces r all.records.length page after) ∧
      (all.records.length ≤ r.offset →
        ∃ page, pages = [page] ∧ page.records = [] ∧ page.response.cookie = none) := by
  obtain ⟨hexpression, filters, first, hfilters, hstart, rfl⟩ := query_eq_ok_iff.1 h
  have hoffset : ∀ offset pageSize,
      Paging.start { r with offset, pageSize } = .ok offset := by
    intro offset pageSize
    unfold Paging.start
    simp only [hcookie]
  obtain rfl : first = r.offset := Except.ok.inj (hstart.symm.trans (hoffset r.offset r.pageSize))
  have hmatched : (s.matched c r filters).length < 2 ^ 64 :=
    Nat.lt_of_le_of_lt (length_matched_le s c r filters) hcount
  have hunpaged : ∀ offset, s.query c { r with offset, pageSize := 0 } =
      .ok (s.pageAt c { r with offset, pageSize := 0 } filters offset) := fun offset =>
    query_eq_ok_iff.2 ⟨hexpression, filters, offset, hfilters, hoffset offset 0, rfl⟩
  have hrecords : ∀ offset,
      (s.pageAt c { r with offset, pageSize := 0 } filters offset).records =
        s.returnedFrom c r filters offset := fun offset => records_pageAt_of_unpaged rfl
  have hall : (s.returnedFrom c r filters 0).length = (s.matched c r filters).length :=
    length_returnedFrom s c r filters 0
  have hself : { r with cookie := none } = r := by
    rw [← hcookie]
  have hstart' : Paging.start { r with cookie := none } = .ok r.offset := by
    rw [hself]
    exact hstart
  obtain ⟨pages, hpages, hflat, hannounces⟩ :=
    exists_pages hexpression hsize hfilters hmatched hstart'
  rw [hself] at hpages
  refine ⟨_, _, pages, hunpaged 0, hunpaged r.offset, hpages, fun _ => hpages.unique, ?_, ?_, ?_,
    ?_⟩
  · rw [hflat]
    exact (hrecords r.offset).symm
  · rw [hrecords, hrecords, ← returnedFrom_add, Nat.zero_add]
  · rw [hrecords, hall]
    exact hannounces
  · rw [hrecords, hall]
    intro hpast
    have hnothing : s.returnedFrom c r filters r.offset = [] := by
      rw [← List.length_eq_zero_iff, length_returnedFrom]
      omega
    have hbehind : s.returnedFrom c r filters (r.offset + r.pageSize) = [] := by
      rw [returnedFrom_add, hnothing, List.drop_nil]
    have hnone : (s.pageAt c r filters r.offset).response.cookie = none := by
      rw [response_pageAt hsize]
      simp only [hbehind, List.isEmpty_nil, if_true]
    refine ⟨_, (hpages.unique (.last h hnone)).symm, ?_, hnone⟩
    rw [records_pageAt hsize, hnothing, List.take_nil]

end MemoryStore

/-- All roles but the first one, one to a page. -/
def laterRoles : Request where
  offset := 1
  pageSize := 1
  total := .exact

/-- Two of three roles are behind the offset: they are visited on two pages. -/
theorem MemoryStore.pages_visit_matches_laterRoles :
    ∃ pages, Pages Sample.store "managed/role" laterRoles pages ∧
      pages.flatMap (fun page => page.records.map (·.id)) = ["2", "3"] ∧
      ∀ page after, pages = page :: after →
        page.response.remaining = some (after.flatMap (·.records)).length ∧
          page.response.total = some 3 := by
  have hids : (Sample.store.query "managed/role" { laterRoles with pageSize := 0 }).toOption.map
      (fun whole => whole.records.map (·.id)) = some ["2", "3"] := by
    decide +kernel
  have hcount : (Sample.store.query "managed/role"
      { laterRoles with pageSize := 0, offset := 0 }).toOption.map
        (fun all => all.records.length) = some 3 := by
    decide +kernel
  have hok : (Sample.store.query "managed/role" laterRoles).isOk = true := by
    decide +kernel
  obtain ⟨found, h⟩ := Result.eq_ok_of_isOk hok
  obtain ⟨all, whole, pages, hall, hwhole, hpages, _, hflat, _, hannounces, _⟩ :=
    pages_visit_matches rfl (by decide) (by decide) h
  rw [hwhole] at hids
  rw [hall] at hcount
  have hthree : all.records.length = 3 := Option.some.inj hcount
  refine ⟨pages, hpages, ?_, ?_⟩
  · rw [← Option.some.inj hids]
    show _ = whole.records.map (·.id)
    rw [← hflat, List.map_flatMap]
  · rintro page after rfl
    have hpage := hannounces [] page after rfl
    refine ⟨hpage.remaining, ?_⟩
    rw [hpage.total, hthree]
    rfl

end EdgeFields
