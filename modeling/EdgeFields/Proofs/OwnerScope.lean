/-
  EdgeFields/Proofs/OwnerScope.lean
  =================================
  **A query never leaves its owner.**

  A client chooses the filter, the query id, the parameters, the pages and the order of a
  query, but not whose edges it is about. Either the owner's filter stands beside the
  client's in one conjunction, or the owner is named by parameters that are put over those of
  the client (`Collection.involves_of_accepted`). What the store finds is picked out of the
  listing of the container, where no path stands twice (`MemoryStore.exists_listed_of_query`).
  Together: whatever is asked, the answer holds the client forms of edges of the owner, none
  of them twice (`Collection.queryWith_keeps_owner`).
-/
import EdgeFields.Proofs.Read
import EdgeFields.Proofs.Rejection
import EdgeFields.Proofs.SortOrder

namespace EdgeFields

open EngineM

/-! ### Pages pick from a list -/

theorem Paging.page_map {α β : Type} (pageSize first : Nat) (f : α → β) (items : List α) :
    page pageSize first (items.map f) = (page pageSize first items).map f := by
  unfold page
  split
  · exact List.map_drop.symm
  · rw [List.map_take, List.map_drop]

theorem Paging.page_sublist {α : Type} (pageSize first : Nat) (items : List α) :
    (page pageSize first items).Sublist items := by
  unfold page
  split
  · exact List.drop_sublist _ _
  · exact (List.take_sublist _ _).trans (List.drop_sublist _ _)

namespace MemoryStore

variable {s : MemoryStore} {c : String} {r : Request}

theorem query_eq_ok_cases {found : QueryResults} (hids : r.selection ≠ .idsOnly)
    (h : s.query c r = .ok found) :
    ∃ filters first, selectionFilters r = .ok filters ∧
      found.records = Paging.page r.pageSize first (s.matched c r filters) := by
  cases hexpression : r.expression with
  | some expression =>
    unfold query at h
    rw [hexpression] at h
    cases h
  | none =>
    rw [query_eq_of_records hexpression hids, Result.bind_eq_ok] at h
    obtain ⟨filters, hfilters, h⟩ := h
    obtain ⟨first, _, h⟩ := Result.bind_eq_ok.1 h
    cases h
    exact ⟨filters, first, hfilters, rfl⟩

/-- **What a store finds is picked from the listing of the container**, each record once. -/
theorem exists_listed_of_query {found : QueryResults} (hids : r.selection ≠ .idsOnly)
    (h : s.query c r = .ok found) :
    ∃ (filters : List Filter) (picked : List (String × Record)),
      selectionFilters r = .ok filters ∧ found.records = picked.map (·.2) ∧
      (picked.map (·.1)).Nodup ∧ ∀ p ∈ picked, p ∈ s.listed c ∧
        Filter.accepts (.all (filters ++ r.filter.toList)) p.2.content = true := by
  obtain ⟨filters, first, hfilters, hrecords⟩ := query_eq_ok_cases hids h
  let accepted := (s.listed c).filter fun p : String × Record =>
    Filter.accepts (.all (filters ++ r.filter.toList)) p.2.content
  let sorted := SortKey.sort r.sortKeys (fun p : String × Record => p.2.content) accepted
  have hmatched : s.matched c r filters = sorted.map (·.2) := by
    unfold matched
    rw [container_eq_map_listed, List.filter_map, SortKey.sort_map]
    rfl
  have hsub : (Paging.page r.pageSize first sorted).Sublist sorted := Paging.page_sublist _ _ _
  have hperm : sorted.Perm accepted := SortKey.sort_perm _ _ _
  have hnodup : (accepted.map (·.1)).Nodup :=
    (nodup_listed s c).sublist (List.filter_sublist.map _)
  refine ⟨filters, Paging.page r.pageSize first sorted, hfilters, ?_, ?_, ?_⟩
  · rw [hrecords, hmatched, Paging.page_map]
  · exact ((hperm.map _).nodup_iff.2 hnodup).sublist (hsub.map _)
  · intro p hp
    exact List.mem_filter.1 (hperm.mem_iff.1 (hsub.subset hp))

end MemoryStore

namespace Collection

variable {b : BoundField} {owner id : String} {r request : Request} {s : MemoryStore}

/-! ### The owner is bound -/

theorem selection_storeRequest (h : storeRequest b owner r = .ok request) :
    request.selection ≠ .idsOnly := by
  obtain ⟨_, rfl | rfl⟩ := storeRequest_cases h
  · show Request.Selection.relationships ≠ .idsOnly
    decide
  · show Request.Selection.all ≠ .idsOnly
    decide

/-- The parameters of the owner win over those of the client. -/
theorem selectionFilters_relatedRequest (b : BoundField) (owner : String) (r : Request) :
    MemoryStore.selectionFilters (relatedRequest b owner r) =
      .ok [MemoryStore.relationshipFilter owner b.field.name] := by
  have hsorted : Dict.Sorted (b.relationshipQuery owner).parameters :=
    b.sorted_parameters owner
  have hselection : (relatedRequest b owner r).selection = .relationships := rfl
  have hparameter : ∀ key value, (b.relationshipQuery owner).parameter? key = some value →
      (relatedRequest b owner r).parameter? key = some value := by
    intro key value hvalue
    unfold Request.parameter? at hvalue ⊢
    exact (Dict.get?_merge hsorted key).trans (by rw [hvalue]; rfl)
  unfold MemoryStore.selectionFilters
  simp only [hselection, hparameter _ _ (b.resource_relationshipQuery owner),
    hparameter _ _ (b.field_relationshipQuery owner)]

/-- **A store request leaves no choice of the owner**: whichever query id, filter and
    parameters a client sends, the edges that it accepts are at the field of the owner. -/
theorem involves_of_accepted {filters : List Filter} {ms : Members} {e : Edge}
    (hrequest : storeRequest b owner r = .ok request)
    (hfilters : MemoryStore.selectionFilters request = .ok filters) (hshows : Edge.Shows ms e)
    (h : Filter.accepts (.all (filters ++ request.filter.toList)) (.obj ms) = true) :
    e.involves owner b.field.name = true := by
  obtain ⟨_, rfl | rfl⟩ := storeRequest_cases hrequest
  · rw [selectionFilters_relatedRequest] at hfilters
    cases hfilters
    simp only [List.singleton_append, Filter.accepts, Filter.acceptsAll, Bool.and_eq_true] at h
    rw [← hshows.accepts_relationshipFilter]
    exact h.1
  · have hfilter : (listingRequest b owner r).filter = some (b.ownerFilter owner r.filter) := rfl
    cases hfilters
    simp only [hfilter, Option.toList_some, List.nil_append, Filter.accepts, Filter.acceptsAll,
      Bool.and_true] at h
    exact hshows.involves_of_accepts_ownerFilter h

/-! ### Answers -/

/-- **Whatever a client asks, it is answered about the owner**: with the client forms of
    edges at the owner's field, each stored under a path of its own. -/
theorem queryWith_keeps_owner (b : BoundField) (context : Context) (id : String) (r : Request)
    (more : List Reference → Reference → Bool) (s s' : MemoryStore)
    (answer : Answer (List Reference))
    (h : queryWith b context id r [] (collecting more) s = (.ok answer, s')) :
    ∃ edges : List (String × Edge), (edges.map (·.1)).Nodup ∧
      (∀ p ∈ edges, s.EdgeAt b.edgeContainer p.1 p.2 ∧
        p.2.involves (b.ownerPath id) b.field.name = true) ∧
      Reference.Forms answer.result (b.formsOf (b.ownerPath id) (edges.map (·.2))) := by
  have hanswer : (queryWith b context id r [] (collecting more)).answer s = .ok answer :=
    congrArg Prod.fst h
  rw [answer_queryWith, Result.bind_eq_ok] at hanswer
  obtain ⟨request, hrequest, hanswer⟩ := hanswer
  obtain ⟨found, hfound, hanswer⟩ := Result.bind_eq_ok.1 hanswer
  obtain ⟨result, hresult, hanswer⟩ := Result.bind_eq_ok.1 hanswer
  cases hanswer
  obtain ⟨filters, picked, hfilters, hrecords, hnodup, hpicked⟩ :=
    MemoryStore.exists_listed_of_query (selection_storeRequest hrequest)
      (Result.mapError_eq_ok.1 hfound)
  obtain ⟨n, rs, rfl, hgiven⟩ := exists_take_of_deliver hresult
  obtain ⟨es, hes, hforms⟩ := edges_of_given hgiven
  rw [hrecords, ← List.map_take] at hes
  obtain ⟨g, rfl, hg⟩ := Result.map_of_mapM_eq_ok hes
  have htaken : (picked.take n).Sublist picked := List.take_sublist n picked
  refine ⟨(picked.take n).map fun p => (p.1, g p.2), ?_, ?_, ?_⟩
  · rw [List.map_map]
    exact hnodup.sublist (htaken.map _)
  · intro q hq
    obtain ⟨p, hp, rfl⟩ := List.mem_map.1 hq
    obtain ⟨hlisted, haccepted⟩ := hpicked p (htaken.subset hp)
    have hedge := hg p.2 (List.mem_map_of_mem hp)
    refine ⟨MemoryStore.edgeAt_iff.2 ⟨p.2, hlisted, hedge⟩, ?_⟩
    have hmem : p.2 ∈ s.container b.edgeContainer := by
      rw [MemoryStore.container_eq_map_listed]
      exact List.mem_map_of_mem hlisted
    obtain ⟨ms, hms, hshows⟩ := MemoryStore.shows_of_mem_container hmem hedge
    rw [hms] at haccepted
    exact involves_of_accepted hrequest hfilters hshows haccepted
  · rw [List.map_map] at hforms ⊢
    exact hforms

/-- A request that names another role as the owner. -/
def otherOwner : Request where
  queryId := some Request.relationshipsId
  parameters := [(Request.fieldParameter, "members"), (Request.resourceParameter, "managed/role/2")]

/-- The members of the first role are asked for, and those of the second one named in the
    parameters: only the edge of the first role is answered. -/
theorem queryWith_keeps_owner_otherOwner :
    ∃ answer s', ∃ edges : List (String × Edge),
      queryWith Sample.members (.fresh 0) "1" otherOwner [] (collecting fun _ _ => true)
        Sample.store = (.ok answer, s') ∧
      answer.result.map (·.id) = [some "e1"] ∧
      (∀ p ∈ edges, Sample.store.EdgeAt Sample.members.edgeContainer p.1 p.2 ∧
        p.2.involves (Sample.members.ownerPath "1") Sample.members.field.name = true) ∧
      Reference.Forms answer.result
        (Sample.members.formsOf (Sample.members.ownerPath "1") (edges.map (·.2))) := by
  have hids : (queryWith Sample.members (.fresh 0) "1" otherOwner []
      (collecting fun _ _ => true) Sample.store).1.toOption.map
        (fun answer => answer.result.map (·.id)) = some [some "e1"] := by
    decide +kernel
  rcases h : queryWith Sample.members (.fresh 0) "1" otherOwner [] (collecting fun _ _ => true)
      Sample.store with ⟨e | answer, s'⟩
  · rw [h] at hids
    cases hids
  · rw [h] at hids
    obtain ⟨edges, _, hedges, hforms⟩ := queryWith_keeps_owner Sample.members (.fresh 0) "1"
      otherOwner (fun _ _ => true) Sample.store s' answer h
    exact ⟨answer, s', edges, rfl, Option.some.inj hids, hedges, hforms⟩

end Collection

end EdgeFields
