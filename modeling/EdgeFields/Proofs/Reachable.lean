/-
  EdgeFields/Proofs/Reachable.lean
  ================================
  **How a created record can be reached.**

  A creation makes the path of its record from the trimmed container and the identifier, and asks
  nothing of the identifier.  All that takes paths trims them and splits them at their last
  slash.  The two agree when the identifier is not empty and has no slash, and the container is
  written without a slash at its end; then reading, replacing, removing and listing show the
  record until it is changed (`MemoryStore.Shows`).  Without one of these the path of container
  and identifier names another record or none (`MemoryStore.created_shows_iff`): a record under
  the identifier `a/b` is read back, from the same path, as the record `b` of another container.
-/
import EdgeFields.Proofs.History
import EdgeFields.Proofs.Paging

namespace EdgeFields

open MemoryStore (StoredRecord.toRecord)

/-! ### Containers with slashes at their ends -/

/-- A path is trimmed to the trimmed container and the identifier only if the container does not
    end in a slash. -/
theorem Path.getLast?_of_trim_join {c id : String} (hc : trim c ≠ "") (hid : IsId id)
    (h : trim (join c id) = join (trim c) id) : c.toList.getLast? ≠ some '/' := by
  have hjoin := hid.isAddress_join c
  have hne : c.toList.dropWhile (· == '/') ≠ [] := by
    intro hnil
    apply hc
    rw [← String.toList_inj, toList_trim, hnil]
    rfl
  have hcontainer : c.toList.dropWhile (· == '/') = (trim c).toList := by
    have htexts := congrArg String.toList h
    rw [hjoin.toList_trim, toList_join, toList_join, List.dropWhile_append, if_neg] at htexts
    · exact List.append_cancel_right htexts
    · simpa using hne
  intro hlast
  obtain ⟨front, hfront⟩ := List.dropWhile_suffix (l := c.toList) (· == '/')
  rw [← hfront, List.getLast?_append_of_ne_nil _ hne, hcontainer] at hlast
  exact (isContainer_trim hc).finish hlast

/-! ### Listings -/

theorem filter_eq_singleton {α β : Type} [BEq β] [LawfulBEq β] {f : α → β} {a : α} {l : List α}
    (h : l.Pairwise fun b b' => f b ≠ f b') (ha : a ∈ l) :
    (l.filter fun b => f b == f a) = [a] := by
  induction l with
  | nil => cases ha
  | cons b l ih =>
    rw [List.pairwise_cons] at h
    rcases List.mem_cons.1 ha with rfl | ha
    · have hrest : (l.filter fun b => f b == f a) = [] := by
        rw [List.filter_eq_nil_iff]
        intro b hb heq
        exact h.1 b hb (beq_iff_eq.1 heq).symm
      simp [hrest]
    · have hb : (f b == f a) = false := by simpa using h.1 a ha
      rw [List.filter_cons, hb]
      exact ih h.2 ha

/-- A request of all records of a container, in any order and on one page. -/
structure Request.Unfiltered (q : Request) : Prop where
  all : q.selection = .all
  expression : q.expression = none
  filter : q.filter = none
  pageSize : q.pageSize = 0
  offset : q.offset = 0
  cookie : q.cookie = none

namespace MemoryStore

variable {s t : MemoryStore} {c path : String} {record : Record} {q : Request}
  {r : StoredRecord}

/-- No two records of a container have the same revision. -/
theorem Dated.pairwise_container (hs : s.Dated) (c : String) :
    (s.container c).Pairwise fun record record' => record.revision ≠ record'.revision := by
  have hpaths := nodup_listed s c
  rw [List.Nodup, List.pairwise_map] at hpaths
  rw [container_eq_map_listed, List.pairwise_map]
  refine hpaths.imp_of_mem ?_
  rintro ⟨path, record⟩ ⟨path', record'⟩ hmem hmem' hne hsame
  obtain ⟨id, r, hget, _, rfl⟩ := mem_listed.1 hmem
  obtain ⟨id', r', hget', _, rfl⟩ := mem_listed.1 hmem'
  exact hne (hs.apart path path' r r' hget hget' (Record.revision_inj hsame))

/-- A request for everything finds the records of the container in its order. -/
theorem query_unfiltered (hq : q.Unfiltered) (s : MemoryStore) (c : String) :
    ∃ found, s.query c q = .ok found ∧
      found.records = SortKey.sort q.sortKeys Record.content (s.container c) := by
  have hquery : s.query c q = .ok (s.pageAt c q [] 0) := by
    refine query_eq_ok_iff.2 ⟨hq.expression, [], 0, ?_, ?_, rfl⟩
    · simp [selectionFilters, hq.all]
    · simp [Paging.start, hq.cookie, hq.offset]
  have hall : (s.container c).filter (fun record =>
      Filter.accepts (.all ([] ++ q.filter.toList)) record.content) = s.container c := by
    rw [hq.filter, List.filter_eq_self]
    intro record _
    rfl
  have hreturned : returned q = id := by
    funext record
    simp [returned, hq.all]
  refine ⟨_, hquery, ?_⟩
  rw [records_pageAt_of_unpaged hq.pageSize, returnedFrom, List.drop_zero, hreturned, List.map_id,
    matched, hall]

/-- What a query finds has the revisions of records of the container. -/
theorem exists_container_of_query {found : QueryResults} (h : s.query c q = .ok found)
    (hmem : record ∈ found.records) :
    ∃ record' ∈ s.container c, record.revision = record'.revision := by
  obtain ⟨_, filters, first, _, _, rfl⟩ := query_eq_ok_iff.1 h
  obtain ⟨record', hpage, rfl⟩ := List.mem_map.1 hmem
  have hmatched := (Paging.page_sublist _ _ _).subset hpage
  have hfiltered := (SortKey.sort_perm _ _ _).mem_iff.1 hmatched
  refine ⟨record', (List.mem_filter.1 hfiltered).1, ?_⟩
  unfold returned
  split <;> rfl

/-! ### Records that are shown -/

/-- Every view of the store shows a record under its identifier in a container. -/
structure Shows (s : MemoryStore) (c : String) (record : Record) : Prop where
  read : s.read (Path.join c record.id) = .ok record
  contains : s.contains (Path.join c record.id) = true
  update : ∀ expected ms, expected = none ∨ expected = some record.revision →
    ∃ record' t, s.update (Path.join c record.id) expected (.obj ms) = .ok (record', t) ∧
      t.read (Path.join c record.id) = .ok record'
  delete : ∀ expected, expected = none ∨ expected = some record.revision →
    ∃ t, s.delete (Path.join c record.id) expected = .ok (record, t) ∧
      t.contains (Path.join c record.id) = false
  listed : ∀ q : Request, q.Unfiltered → ∃ found, s.query c q = .ok found ∧
    (found.records.filter fun record' => record'.revision == record.revision) = [record]
  apart : ∀ c' q found, Path.trim c' ≠ Path.trim c → s.query c' q = .ok found →
    ∀ record' ∈ found.records, record'.revision ≠ record.revision

theorem read_eq_ok_iff : s.read path = .ok record ↔ ∃ c id r, Path.split? path = some (c, id) ∧
    Dict.get? s.records (Path.trim path) = some r ∧ record = StoredRecord.toRecord r id := by
  unfold MemoryStore.read
  constructor
  · intro h
    cases hfind : s.find path with
    | error e =>
      rw [hfind] at h
      cases h
    | ok found =>
      obtain ⟨⟨c, hsplit⟩, hget⟩ := find_eq_ok_iff.1 hfind
      rw [hfind] at h
      cases h
      exact ⟨c, found.1, found.2, hsplit, hget, rfl⟩
  · rintro ⟨c, id, r, hsplit, hget, rfl⟩
    rw [find_eq_ok_iff.2 ⟨⟨c, hsplit⟩, hget⟩]
    rfl

theorem contains_iff (s : MemoryStore) (path : String) :
    s.contains path = true ↔ ∃ r, Dict.get? s.records (Path.trim path) = some r := by
  unfold contains Dict.contains
  exact Option.isSome_iff_exists

@[simp] theorem id_toRecord (r : StoredRecord) (id : String) :
    (StoredRecord.toRecord r id).id = id := rfl

/-- A record under an identifier that can stand in a path is shown. -/
theorem shows_of_isAddress {id : String} (hs : s.Dated) (hc : Path.IsAddress c)
    (hid : Path.IsId id) (hcell : s.cell c id = some r) :
    s.Shows c (StoredRecord.toRecord r id) where
  read := by
    rw [id_toRecord, MemoryStore.read, find_join hc hid hcell]
    rfl
  contains := by
    rw [id_toRecord, contains_iff, hc.trim_join hid]
    exact ⟨r, hcell⟩
  update := by
    intro expected ms hexpected
    refine ⟨_, _, update_cell hc hid hcell hexpected ms, ?_⟩
    have hput : (s.put (Path.join (Path.trim c) id) (Record.withoutBookkeeping ms)).cell c id =
        some ⟨s.revisions + 1, Record.withoutBookkeeping ms⟩ := get?_put_self _ _ _
    rw [id_toRecord, MemoryStore.read, find_join hc hid hput]
    rfl
  delete := by
    intro expected hexpected
    refine ⟨_, delete_cell hc hid hcell hexpected, ?_⟩
    rw [← Bool.not_eq_true, id_toRecord, contains_iff, hc.trim_join hid, get?_remove, if_pos rfl]
    rintro ⟨r', hr'⟩
    cases hr'
  listed := by
    intro q hq
    obtain ⟨found, hquery, hrecords⟩ := query_unfiltered hq s c
    refine ⟨found, hquery, ?_⟩
    have hmem : StoredRecord.toRecord r id ∈ s.container c :=
      mem_container_iff.2 ⟨_, id, r, hcell, Path.split?_join hc.isContainer_trim hid, rfl⟩
    have hone := filter_eq_singleton (hs.pairwise_container c) hmem
    rw [hrecords, ← List.perm_singleton, ← hone]
    exact (SortKey.sort_perm _ _ _).filter _
  apart := by
    intro c' q found hne hquery record hmem hrevision
    obtain ⟨record', hcontainer, hsame⟩ := exists_container_of_query hquery hmem
    obtain ⟨path, id', r', hget, hsplit, rfl⟩ := mem_container_iff.1 hcontainer
    have hpath := hs.apart path _ r' r hget hcell
      (Record.revision_inj (hsame.symm.trans hrevision))
    rw [hpath, Path.split?_join hc.isContainer_trim hid] at hsplit
    exact hne (Prod.mk.inj (Option.some.inj hsplit)).1.symm

/-- **A record is shown exactly if its container and its identifier can stand in a path.** -/
theorem shows_iff {id : String} (hs : s.Dated) (hc : Path.trim c ≠ "") (hcell : s.cell c id = some r) :
    s.Shows c (StoredRecord.toRecord r id) ↔
      Path.IsId id ∧ c.toList.getLast? ≠ some '/' := by
  constructor
  · intro h
    obtain ⟨c', id', r', hsplit, hget, hrecord⟩ := read_eq_ok_iff.1 h.read
    obtain rfl : id = id' := congrArg Record.id hrecord
    have hid := Path.isId_of_split? hsplit
    have hpath := hs.apart _ _ r' r hget hcell
      (Record.revision_inj (congrArg Record.revision hrecord)).symm
    exact ⟨hid, Path.getLast?_of_trim_join hc hid hpath⟩
  · rintro ⟨hid, hlast⟩
    have haddress : Path.IsAddress c := by
      refine ⟨?_, hlast⟩
      rintro rfl
      exact hc rfl
    exact shows_of_isAddress hs haddress hid hcell

/-! ### Created records -/

/-- A creation leaves the record that it answers, under an identifier that can stand in a path if
    it is assigned. -/
theorem Effect.of_create {id : Option String} {content : Json}
    (h : Effect s (.create c id content) (.record record) t) :
    Path.trim c ≠ "" ∧ (id = none → Path.IsId record.id) ∧
      ∃ r, t.cell c record.id = some r ∧ record = StoredRecord.toRecord r record.id := by
  cases h with
  | created hc hname hunused =>
    rcases hname with ⟨rfl, rfl⟩ | ⟨rfl, hid, rfl⟩
    · refine ⟨hc, ?_, _, get?_put_self _ _ _, rfl⟩
      intro hnone
      cases hnone
    · exact ⟨hc, fun _ => hid, _, get?_put_self _ _ _, rfl⟩

/-- **A created record is shown until it is changed exactly if its path can be taken apart
    again**: its identifier is not empty and has no slash, and the container is spelled without a
    slash at its end. -/
theorem created_shows_iff (before between : List StoreCall) (c : String) (id : Option String)
    (content : Json) (record : Record)
    (hcreate : ((StoreCall.create c id content).run (empty.after before)).1 =
      .ok (.record record))
    (hkept : Path.join (Path.trim c) record.id ∉
      (empty.after (before ++ [.create c id content])).changed between) :
    (id = none → Path.IsId record.id) ∧
      ∀ c', Path.trim c' = Path.trim c →
        ((empty.after (before ++ .create c id content :: between)).Shows c' record ↔
          Path.IsId record.id ∧ c'.toList.getLast? ≠ some '/') := by
  have hdated : (empty.after (before ++ .create c id content :: between)).Dated :=
    dated_after dated_empty _
  rw [after_append] at hkept hdated ⊢
  generalize empty.after before = s at hcreate hkept hdated ⊢
  rw [after, after] at hkept
  rw [after] at hdated ⊢
  rcases run_cases (.create c id content) s with ⟨answer, t, hrun, heffect⟩ | ⟨e, hrun⟩
  · rw [hrun] at hcreate hkept hdated ⊢
    cases hcreate
    obtain ⟨hc, hassigned, r, hcell, hrecord⟩ := heffect.of_create
    refine ⟨hassigned, ?_⟩
    intro c' hsame
    have hheld : (t.after between).cell c' record.id = some r := by
      unfold cell at hcell ⊢
      rw [hsame]
      exact held_after hcell hkept
    rw [hrecord]
    exact shows_iff hdated (by rw [hsame]; exact hc) hheld
  · rw [hrun] at hcreate
    cases hcreate

/-- Two records of one container, the second under the identifier of the first one and a slash. -/
def slashed : List StoreCall :=
  [.create "things" (some "1") (.obj []), .create "/things/" (some "1/") (.obj []),
    .update "things/2" none (.obj []), .query "things" {}]

theorem created_shows_iff_slashed :
    (empty.after slashed).Shows "things" (.ofMembers "1" "1" []) ∧
      ¬(empty.after slashed).Shows "things" (.ofMembers "1/" "2" []) := by
  have hfirst := created_shows_iff [] (slashed.drop 1) "things" (some "1") (.obj [])
    (.ofMembers "1" "1" []) rfl (by decide)
  have hsecond := created_shows_iff (slashed.take 1) (slashed.drop 2) "/things/" (some "1/")
    (.obj []) (.ofMembers "1/" "2" []) rfl (by decide)
  refine ⟨(hfirst.2 "things" rfl).2 ⟨⟨by decide, by decide⟩, by decide⟩, ?_⟩
  intro h
  have hid := ((hsecond.2 "things" (by decide)).1 h).1
  exact hid.slashless (by decide)

/-- **A record under an identifier with a slash** is created, and then it is a record of another
    container. -/
theorem created_elsewhere :
    let create := StoreCall.create "things" (some "a/b") (.obj [])
    let s := empty.after [create]
    (create.run empty).1 = .ok (.record (.ofMembers "a/b" "1" [])) ∧
      s.read "things/a/b" = .ok (.ofMembers "b" "1" []) ∧ s.container "things" = [] ∧
      s.container "things/a" = [.ofMembers "b" "1" []] :=
  ⟨rfl, rfl, rfl, rfl⟩

end MemoryStore

end EdgeFields
