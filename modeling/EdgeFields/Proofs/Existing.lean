/-
  EdgeFields/Proofs/Existing.lean
  ===============================
  **The edges at a field of an owner.**

  `MemoryStore.HasEdge` says which edge the record under an identifier is, and
  `MemoryStore.EdgeAt` which one the record at a path is, also in stores with paths that the
  engine would never make. The edges that the engine finds at a field are exactly those that
  involve it (`BoundField.mem_existingEdges_iff`), each once in a store as the engine keeps it
  (`BoundField.existing_of_answer`). The engine finds none when one of the records that it
  looks at is no edge.
-/
import EdgeFields.Proofs.Edge
import EdgeFields.Proofs.Engine

namespace EdgeFields

open EngineM
open MemoryStore (StoredRecord.toRecord)

/-! ### Queries without pages -/

namespace MemoryStore

variable {s : MemoryStore} {c id : String} {e e' : Edge}

theorem sort_nil {α : Type} (document : α → Json) (items : List α) :
    SortKey.sort [] document items = items := rfl

/-- What a request finds that asks for whole records. -/
theorem query_eq_of_records {r : Request} (hexpression : r.expression = none)
    (hids : r.selection ≠ .idsOnly) :
    s.query c r = (do
      let filters ← selectionFilters r
      let first ← (Paging.start r).mapError .invalidCookie
      let records := Paging.page r.pageSize first (s.matched c r filters)
      .ok ⟨records, Paging.response r first records.length (s.matched c r filters).length⟩) := by
  unfold query
  simp only [hexpression, Option.isSome_none, Bool.false_eq_true, if_false]
  cases hselection : r.selection with
  | idsOnly => exact absurd hselection hids
  | all => rfl
  | relationships => rfl
  | unknown id => rfl

/-- What a request finds that has neither a cookie, an offset nor an order. -/
theorem query_eq_ok {r : Request} {filters : List Filter}
    (hexpression : r.expression = none) (hcookie : r.cookie = none) (hoffset : r.offset = 0)
    (hsort : r.sortKeys = []) (hids : r.selection ≠ .idsOnly)
    (hfilters : selectionFilters r = .ok filters) :
    ∃ response, s.query c r = .ok ⟨Paging.page r.pageSize 0 ((s.container c).filter fun record =>
      Filter.accepts (.all (filters ++ r.filter.toList)) record.content), response⟩ := by
  have hstart : Paging.start r = .ok 0 := by
    unfold Paging.start
    rw [hcookie, hoffset]
  rw [query_eq_of_records hexpression hids]
  simp only [hfilters, hstart, matched, hsort, sort_nil, Result.ok_bind, Result.mapError_ok]
  exact ⟨_, rfl⟩

/-! ### Records that are edges -/

/-- The record under an identifier is an edge. -/
structure HasEdge (s : MemoryStore) (c id : String) (e : Edge) : Prop where
  isId : Path.IsId id
  record : ∃ r, s.cell c id = some r ∧ Edge.ofRecord (StoredRecord.toRecord r id) = .ok e

namespace HasEdge

theorem id_eq (h : s.HasEdge c id e) : e.id = some id := by
  obtain ⟨_, r, _, he⟩ := h
  exact (Edge.ofRecord_eq_ok he).1

theorem revision_eq (h : s.HasEdge c id e) :
    ∃ r, s.cell c id = some r ∧ e.revision = some (toString r.revision) := by
  obtain ⟨_, r, hr, he⟩ := h
  exact ⟨r, hr, (Edge.ofRecord_eq_ok he).2⟩

theorem unique (h : s.HasEdge c id e) (h' : s.HasEdge c id e') : e = e' := by
  obtain ⟨_, r, hr, he⟩ := h
  obtain ⟨_, r', hr', he'⟩ := h'
  rw [hr] at hr'
  cases hr'
  rw [he] at he'
  exact Except.ok.inj he'

/-- A record with the content of an edge is that edge. -/
theorem of_content (hid : Path.IsId id) {revision : Nat}
    (h : s.cell c id = some ⟨revision, e.content⟩) :
    s.HasEdge c id { e with id := some id, revision := some (toString revision) } :=
  ⟨hid, _, h, Edge.ofRecord_content e _ _⟩

end HasEdge

/-- The records of the edges at a field of a resource. -/
def related (s : MemoryStore) (c owner field : String) : List Record :=
  (s.container c).filter fun record =>
    Filter.accepts (relationshipFilter owner field) record.content

theorem pairwise_related (hs : s.WellFormed) (c owner field : String) :
    (s.related c owner field).Pairwise fun r r' => r.id ≠ r'.id :=
  (pairwise_container hs c).filter _

/-- The edges of a container are its records that are edges. -/
theorem hasEdge_iff (hs : s.WellFormed) (hc : Path.IsAddress c) :
    s.HasEdge c id e ↔
      ∃ record ∈ s.container c, record.id = id ∧ Edge.ofRecord record = .ok e := by
  constructor
  · rintro ⟨hid, r, hr, he⟩
    exact ⟨_, (mem_container hs hc.isContainer_trim).2 ⟨id, r, hid, hr, rfl⟩, rfl, he⟩
  · rintro ⟨record, hmem, rfl, he⟩
    obtain ⟨id, r, hid, hr, rfl⟩ := (mem_container hs hc.isContainer_trim).1 hmem
    exact ⟨hid, r, hr, he⟩

theorem shows_of_mem_container {record : Record} (hmem : record ∈ s.container c)
    (he : Edge.ofRecord record = .ok e) :
    ∃ ms, record.content = .obj ms ∧ Edge.Shows ms e := by
  obtain ⟨_, id, r, _, _, rfl⟩ := mem_container_iff.1 hmem
  exact ⟨_, rfl, Edge.shows_of_ofRecord he⟩

theorem mem_related_iff {owner field : String} {record : Record}
    (he : Edge.ofRecord record = .ok e) :
    record ∈ s.related c owner field ↔
      record ∈ s.container c ∧ e.involves owner field = true := by
  unfold related
  rw [List.mem_filter, and_congr_right_iff]
  intro hmem
  obtain ⟨ms, hms, hshows⟩ := shows_of_mem_container hmem he
  rw [hms, hshows.accepts_relationshipFilter]

/-- The record at a path of a container is an edge, whatever the store is like. -/
def EdgeAt (s : MemoryStore) (c path : String) (e : Edge) : Prop :=
  ∃ id r, Dict.get? s.records path = some r ∧ Path.split? path = some (Path.trim c, id) ∧
    Edge.ofRecord (StoredRecord.toRecord r id) = .ok e

theorem edgeAt_iff {path : String} :
    s.EdgeAt c path e ↔ ∃ record, (path, record) ∈ s.listed c ∧ Edge.ofRecord record = .ok e := by
  constructor
  · rintro ⟨id, r, hget, hsplit, he⟩
    exact ⟨_, mem_listed.2 ⟨id, r, hget, hsplit, rfl⟩, he⟩
  · rintro ⟨record, hmem, he⟩
    obtain ⟨id, r, hget, hsplit, rfl⟩ := mem_listed.1 hmem
    exact ⟨id, r, hget, hsplit, he⟩

theorem exists_edgeAt_iff :
    (∃ path, s.EdgeAt c path e) ↔ ∃ record ∈ s.container c, Edge.ofRecord record = .ok e := by
  constructor
  · rintro ⟨path, id, r, hget, hsplit, he⟩
    exact ⟨_, mem_container_iff.2 ⟨path, id, r, hget, hsplit, rfl⟩, he⟩
  · rintro ⟨record, hmem, he⟩
    obtain ⟨path, id, r, hget, hsplit, rfl⟩ := mem_container_iff.1 hmem
    exact ⟨path, id, r, hget, hsplit, he⟩

/-- Edges that the engine looks at have identifiers that can stand in a path. -/
theorem EdgeAt.exists_id {path : String} (h : s.EdgeAt c path e) :
    ∃ id, e.id = some id ∧ Path.IsId id := by
  obtain ⟨id, r, _, hsplit, he⟩ := h
  exact ⟨id, (Edge.ofRecord_eq_ok he).1, Path.isId_of_split? hsplit⟩

end MemoryStore

namespace BoundField

variable {b : BoundField} {s : MemoryStore} {owner : String} {es : List Edge}

theorem toReference_eq_ok {record : Record} {r : Reference} :
    b.toReference owner record = .ok r ↔
      ∃ e, Edge.ofRecord record = .ok e ∧ r = .ofEdge e owner b.field.name := by
  unfold toReference
  cases Edge.ofRecord record <;> simp [eq_comm]

/-! ### What the engine finds -/

theorem selection_relationshipQuery (b : BoundField) (owner : String) :
    (b.relationshipQuery owner).selection = .relationships := rfl

theorem sorted_parameters (b : BoundField) (owner : String) :
    Dict.Sorted (b.relationshipQuery owner).parameters := by
  unfold relationshipQuery Request.withParameter
  exact Dict.Sorted.insert (Dict.Sorted.insert .nil)

theorem resource_relationshipQuery (b : BoundField) (owner : String) :
    (b.relationshipQuery owner).parameter? Request.resourceParameter = some owner := by
  unfold relationshipQuery Request.parameter? Request.withParameter
  rw [Dict.get?_insert_of_ne (by decide), Dict.get?_insert_self]

theorem field_relationshipQuery (b : BoundField) (owner : String) :
    (b.relationshipQuery owner).parameter? Request.fieldParameter = some b.field.name := by
  unfold relationshipQuery Request.parameter? Request.withParameter
  rw [Dict.get?_insert_self]

theorem selectionFilters_relationshipQuery (b : BoundField) (owner : String) :
    MemoryStore.selectionFilters (b.relationshipQuery owner) =
      .ok [MemoryStore.relationshipFilter owner b.field.name] := by
  unfold MemoryStore.selectionFilters
  simp only [selection_relationshipQuery, resource_relationshipQuery, field_relationshipQuery]

theorem query_relationshipQuery (b : BoundField) (s : MemoryStore) (owner : String) :
    ∃ response, s.query b.edgeContainer (b.relationshipQuery owner) =
      .ok ⟨s.related b.edgeContainer owner b.field.name, response⟩ := by
  obtain ⟨response, h⟩ := MemoryStore.query_eq_ok (s := s) (c := b.edgeContainer)
    (r := b.relationshipQuery owner) rfl rfl rfl rfl
    (by rw [selection_relationshipQuery]; decide) (selectionFilters_relationshipQuery b owner)
  refine ⟨response, h.trans ?_⟩
  have hfilter : (b.relationshipQuery owner).filter = none := rfl
  have hsize : (b.relationshipQuery owner).pageSize = 0 := rfl
  simp [Paging.page, hfilter, hsize, MemoryStore.related, Filter.accepts, Filter.acceptsAll]

theorem answer_relationshipQuery (b : BoundField) (owner : String) (s : MemoryStore) :
    ∃ response, (fromStore (Store.query b.edgeContainer (b.relationshipQuery owner)) :
      EngineM MemoryStore QueryResults).answer s =
        .ok ⟨s.related b.edgeContainer owner b.field.name, response⟩ := by
  obtain ⟨response, h⟩ := query_relationshipQuery b s owner
  have hquery := answer_reading (fun s => s.query b.edgeContainer (b.relationshipQuery owner)) s
  rw [h] at hquery
  exact ⟨response, hquery⟩

theorem readOnly_existingEdges (b : BoundField) (owner : String) :
    ReadOnly (b.existingEdges owner : EngineM MemoryStore (List Edge)) :=
  (readOnly_query _ _).bind fun _ => readOnly_ofResult _

theorem answer_existingEdges (b : BoundField) (owner : String) (s : MemoryStore) :
    (b.existingEdges owner).answer s =
      ((s.related b.edgeContainer owner b.field.name).mapM Edge.ofRecord).mapError .store := by
  obtain ⟨response, h⟩ := answer_relationshipQuery b owner s
  unfold existingEdges
  rw [(readOnly_query _ _).answer_bind, h]
  rfl

/-- A list of the edges at the field of an owner, each once. -/
structure Existing (b : BoundField) (owner : String) (s : MemoryStore) (es : List Edge) :
    Prop where
  mem : ∀ e, e ∈ es ↔ e.involves owner b.field.name = true ∧ ∃ id, s.HasEdge b.edgeContainer id e
  distinct : es.Pairwise fun e e' => e.id ≠ e'.id

/-- The edges that the engine finds are the results of the records that it looks at. -/
theorem answer_existingEdges_eq_ok (b : BoundField) (owner : String) (s : MemoryStore)
    (es : List Edge) :
    (b.existingEdges owner).answer s = .ok es ↔
      (s.related b.edgeContainer owner b.field.name).mapM Edge.ofRecord = .ok es := by
  rw [answer_existingEdges]
  cases (s.related b.edgeContainer owner b.field.name).mapM Edge.ofRecord <;>
    simp

instance : Nonempty Edge := ⟨⟨none, none, "", "", "", none, []⟩⟩

/-- In any store the engine finds what the container lists and the field involves. -/
theorem mem_existingEdges_iff (h : (b.existingEdges owner).answer s = .ok es) {e : Edge} :
    e ∈ es ↔ e.involves owner b.field.name = true ∧ ∃ path, s.EdgeAt b.edgeContainer path e := by
  rw [answer_existingEdges_eq_ok] at h
  obtain ⟨g, rfl, hg⟩ := Result.map_of_mapM_eq_ok h
  rw [List.mem_map, MemoryStore.exists_edgeAt_iff]
  constructor
  · rintro ⟨record, hmem, rfl⟩
    have he := hg record hmem
    obtain ⟨hcontainer, hinvolves⟩ := (MemoryStore.mem_related_iff he).1 hmem
    exact ⟨hinvolves, record, hcontainer, he⟩
  · rintro ⟨hinvolves, record, hcontainer, he⟩
    have hmem := (MemoryStore.mem_related_iff he).2 ⟨hcontainer, hinvolves⟩
    have hrecord := hg record hmem
    rw [he] at hrecord
    exact ⟨record, hmem, (Except.ok.inj hrecord).symm⟩

theorem exists_id_of_mem (h : (b.existingEdges owner).answer s = .ok es) {e : Edge} (he : e ∈ es) :
    ∃ id, e.id = some id ∧ Path.IsId id := by
  obtain ⟨_, path, hat⟩ := (mem_existingEdges_iff h).1 he
  exact hat.exists_id

theorem ids_of_found (h : (b.existingEdges owner).answer s = .ok es) :
    ∀ e ∈ es, ∃ id, e.id = some id := by
  intro e he
  obtain ⟨id, hid, _⟩ := exists_id_of_mem h he
  exact ⟨id, hid⟩

/-- **The edges that the engine finds are the edges at the field**, each once. -/
theorem existing_of_answer (hs : s.WellFormed) (hc : Path.IsAddress b.edgeContainer)
    (h : (b.existingEdges owner).answer s = .ok es) : b.Existing owner s es := by
  constructor
  · intro e
    rw [mem_existingEdges_iff h, MemoryStore.exists_edgeAt_iff]
    apply and_congr_right
    intro _
    simp only [MemoryStore.hasEdge_iff hs hc]
    constructor
    · rintro ⟨record, hmem, he⟩
      exact ⟨record.id, record, hmem, rfl, he⟩
    · rintro ⟨_, record, hmem, _, he⟩
      exact ⟨record, hmem, he⟩
  · rw [answer_existingEdges_eq_ok] at h
    obtain ⟨g, rfl, hg⟩ := Result.map_of_mapM_eq_ok h
    rw [List.pairwise_map]
    refine (MemoryStore.pairwise_related hs _ _ _).imp_of_mem ?_
    intro r r' hr hr' hne heq
    rw [(Edge.ofRecord_eq_ok (hg r hr)).1, (Edge.ofRecord_eq_ok (hg r' hr')).1] at heq
    exact hne (Option.some.inj heq)

namespace Existing

variable {e e' : Edge} {id : String}

theorem hasEdge (h : b.Existing owner s es) (he : e ∈ es) :
    ∃ id, e.id = some id ∧ s.HasEdge b.edgeContainer id e := by
  obtain ⟨_, id, hedge⟩ := (h.mem e).1 he
  exact ⟨id, hedge.id_eq, hedge⟩

theorem eq_of_id_eq (h : b.Existing owner s es) (he : e ∈ es) (he' : e' ∈ es)
    (hid : e.id = e'.id) : e = e' := by
  obtain ⟨id, heid, hedge⟩ := h.hasEdge he
  obtain ⟨id', heid', hedge'⟩ := h.hasEdge he'
  rw [heid, heid'] at hid
  cases hid
  exact hedge.unique hedge'

end Existing

end BoundField

end EdgeFields
