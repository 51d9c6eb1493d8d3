/-
  EdgeFields/Proofs/Listing.lean
  ==============================
  **What a listing of a field leaves out.**

  There are two ways to read a collection. A read asks the store for the edges at the field,
  at either endpoint (`MemoryStore.related`). A listing asks it for the records that the owner's
  filter accepts, and that filter looks at the second endpoint for reverse fields only
  (`Edge.Shows.accepts_ownerFilter`). Out of the references that the read answers the listing
  therefore answers those whose edge it looks at, in the same order
  (`Collection.query_all_of_get`). Both agree just when that is every edge at the field: always
  for a reverse field, and for any other field as long as no edge was made from the other side.
-/
import EdgeFields.Proofs.BothSides
import EdgeFields.Proofs.ClientFilter

namespace EdgeFields

open EngineM

/-! ### Accepted records -/

theorem Edge.Shows.accepts_ownerFilter {ms : Members} {e : Edge} (h : Edge.Shows ms e)
    (b : BoundField) (owner : String) :
    Filter.accepts (b.ownerFilter owner none) (.obj ms) = b.looksAt owner e := by
  have hendpoint : ∀ fromSecond, Filter.accepts (b.endpointFilter owner none fromSecond) (.obj ms) =
      if fromSecond then e.secondIs owner b.field.name else e.firstIs owner b.field.name := by
    intro fromSecond
    rw [h.accepts_endpointFilter, Option.all_none, Bool.and_true]
  unfold BoundField.ownerFilter BoundField.looksAt
  cases b.field.isReverse with
  | false => simp [hendpoint]
  | true => simp [Filter.accepts, Filter.acceptsAny, hendpoint]

namespace BoundField

variable {b : BoundField} {owner : String} {e : Edge}

theorem accepts_relationshipFilter_of_ownerFilter {d : Json}
    (h : Filter.accepts (b.ownerFilter owner none) d = true) :
    Filter.accepts (MemoryStore.relationshipFilter owner b.field.name) d = true := by
  unfold ownerFilter at h
  unfold MemoryStore.relationshipFilter
  split at h <;>
    simp only [endpointFilter, Option.map_none, Option.toList_none, List.append_nil,
      Filter.accepts, Filter.acceptsAny, Filter.acceptsAll, Bool.and_true, Bool.or_false,
      Bool.or_eq_true, Bool.and_eq_true] at h ⊢
  · exact h
  · exact .inl h

theorem looksAt_of_isReverse (hreverse : b.field.isReverse = true) (owner : String) (e : Edge) :
    b.looksAt owner e = e.involves owner b.field.name := by
  rw [looksAt, hreverse, Bool.true_and, Edge.involves]

end BoundField

namespace Collection

variable {b : BoundField} {context context' : Context} {id owner : String} {r : Request}
  {s s' : MemoryStore} {rs : List Reference}

/-- A listing without a client's filter takes the edges that it looks at out of all edges at
    the field. -/
theorem accepted_none {edge : Record → Edge}
    (hedge : ∀ record ∈ s.related b.edgeContainer owner b.field.name,
      Edge.ofRecord record = .ok (edge record)) :
    accepted b owner none s = (s.related b.edgeContainer owner b.field.name).filter fun record =>
      b.looksAt owner (edge record) := by
  -- what is accepted is related, also if it is no edge
  have hrelated : accepted b owner none s =
      (s.related b.edgeContainer owner b.field.name).filter fun record =>
        Filter.accepts (b.ownerFilter owner none) record.content := by
    unfold accepted MemoryStore.related
    rw [List.filter_filter]
    apply List.filter_congr
    intro record _
    rw [Bool.eq_iff_iff, Bool.and_eq_true]
    exact ⟨fun h => ⟨h, BoundField.accepts_relationshipFilter_of_ownerFilter h⟩, And.left⟩
  rw [hrelated]
  apply List.filter_congr
  intro record hrecord
  obtain ⟨ms, hms, hshows⟩ :=
    MemoryStore.shows_of_mem_container (List.mem_filter.1 hrecord).1 (hedge record hrecord)
  rw [hms, hshows.accepts_ownerFilter]

/-! ### Reading and listing -/

/-- A request for everything at a field: without a filter, pages and an order. -/
structure WholeRequest (r : Request) : Prop extends WholeListing r where
  all : r.queryId = some Request.allId
  filter : r.filter = none
  expression : r.expression = none

theorem WholeRequest.expanding_eq (hwhole : WholeRequest r) (b : BoundField) :
    expanding b r = b.settings.expandReferences := by
  simp [expanding, Request.selection, hwhole.all]

theorem WholeRequest.query_eq (hwhole : WholeRequest r) (b : BoundField) (context : Context)
    (id : String) {edge : Record → Edge} {form : Record → Reference}
    (hedge : ∀ record ∈ s.related b.edgeContainer (b.ownerPath id) b.field.name,
      Edge.ofRecord record = .ok (edge record))
    (hform : ∀ record ∈ s.related b.edgeContainer (b.ownerPath id) b.field.name,
      (given b (b.ownerPath id) b.settings.expandReferences record).answer s = .ok (form record)) :
    ∃ answer, query b context id r s = (.ok answer, s) ∧
      answer.result = ((s.related b.edgeContainer (b.ownerPath id) b.field.name).filter
        fun record => b.looksAt (b.ownerPath id) (edge record)).map form := by
  have hfields : ∀ f, r.filter = some f → f.foreignFields = [] := by
    intro f hf
    rw [hwhole.filter] at hf
    cases hf
  obtain ⟨response, hanswer⟩ := hwhole.answer_query hwhole.expression hfields b context id s
  rw [hwhole.filter, hwhole.expanding_eq, accepted_none hedge,
    Result.mapM_eq_ok_map fun record hrecord => hform record (List.mem_filter.1 hrecord).1]
    at hanswer
  have hquery := (readOnly_query b context id r).apply s
  rw [hanswer] at hquery
  exact ⟨_, hquery, rfl⟩

/-- All elements pass a filter if the images of those that do are as many. -/
theorem map_filter_eq_map_iff {α β : Type} {p : α → Bool} {f : α → β} {l : List α} :
    (l.filter p).map f = l.map f ↔ ∀ a ∈ l, p a = true := by
  constructor
  · intro h
    have hlength := congrArg List.length h
    rw [List.length_map, List.length_map] at hlength
    exact List.length_filter_eq_length_iff.1 hlength
  · intro h
    rw [List.filter_eq_self.2 h]

/-- **A listing answers those references of a read whose edge it looks at**, in the order of
    the read. The read finds the edges at the field and answers a reference for each; the
    listing succeeds too. It answers all of them just when it looks at every edge at the field,
    which is so for every reverse field. -/
theorem query_all_of_get (b : BoundField) (context context' : Context) (id : String) (r : Request)
    (s s' : MemoryStore) (rs : List Reference) (hwhole : WholeRequest r)
    (h : get b context id s = (.ok rs, s')) :
    ∃ (found : List (Edge × Reference)) (answer : Answer (List Reference)),
      (b.existingEdges (b.ownerPath id)).answer s = .ok (found.map (·.1)) ∧
      rs = found.map (·.2) ∧
      (∀ p ∈ found, p.2.bare = (Reference.ofEdge p.1 (b.ownerPath id) b.field.name).bare) ∧
      query b context' id r s = (.ok answer, s) ∧
      answer.result = (found.filter fun p => b.looksAt (b.ownerPath id) p.1).map (·.2) ∧
      (answer.result = rs ↔ ∀ path e, s.EdgeAt b.edgeContainer path e →
        e.involves (b.ownerPath id) b.field.name = true →
          b.looksAt (b.ownerPath id) e = true) ∧
      (b.field.isReverse = true → answer.result = rs) := by
  have hget : (get b context id).answer s = .ok rs := congrArg Prod.fst h
  rw [answer_get] at hget
  obtain ⟨form, hrs, hform⟩ := Result.map_of_mapM_eq_ok hget
  obtain ⟨es, hes, _⟩ := edges_of_given hget
  obtain ⟨edge, rfl, hedge⟩ := Result.map_of_mapM_eq_ok hes
  let found := (s.related b.edgeContainer (b.ownerPath id) b.field.name).map fun record =>
    (edge record, form record)
  have hedges : found.map (·.1) =
      (s.related b.edgeContainer (b.ownerPath id) b.field.name).map edge := List.map_map
  have hforms : rs = found.map (·.2) := by
    rw [hrs, List.map_map]
    rfl
  have hexisting : (b.existingEdges (b.ownerPath id)).answer s = .ok (found.map (·.1)) := by
    rw [hedges, BoundField.answer_existingEdges_eq_ok]
    exact hes
  have hbare : ∀ p ∈ found, p.2.bare =
      (Reference.ofEdge p.1 (b.ownerPath id) b.field.name).bare := by
    intro p hp
    obtain ⟨record, hrecord, rfl⟩ := List.mem_map.1 hp
    obtain ⟨e, he, hbare, _⟩ := edge_of_given (hform record hrecord)
    rw [hedge record hrecord] at he
    cases he
    exact hbare
  obtain ⟨answer, hanswer, hresult⟩ := hwhole.query_eq b context' id hedge hform
  have hlisted : answer.result =
      (found.filter fun p => b.looksAt (b.ownerPath id) p.1).map (·.2) := by
    rw [hresult, List.filter_map, List.map_map]
    rfl
  have hall : answer.result = rs ↔ ∀ path e, s.EdgeAt b.edgeContainer path e →
      e.involves (b.ownerPath id) b.field.name = true → b.looksAt (b.ownerPath id) e = true := by
    rw [hlisted, hforms, map_filter_eq_map_iff]
    constructor
    · intro hlooks path e hat hinvolves
      have hmem := (BoundField.mem_existingEdges_iff hexisting).2 ⟨hinvolves, path, hat⟩
      obtain ⟨p, hp, rfl⟩ := List.mem_map.1 hmem
      exact hlooks p hp
    · intro hlooks p hp
      obtain ⟨hinvolves, path, hat⟩ :=
        (BoundField.mem_existingEdges_iff hexisting).1 (List.mem_map_of_mem hp)
      exact hlooks path p.1 hat hinvolves
  refine ⟨found, answer, hexisting, hforms, hbare, hanswer, hlisted, hall, ?_⟩
  intro hreverse
  refine hall.2 fun path e _ hinvolves => ?_
  rw [BoundField.looksAt_of_isReverse hreverse, hinvolves]

end Collection

/-! ### A role that is given from its own side -/

namespace Sample

/-- The role takes the user as its member. -/
def take : BoundField.Call := .set true "1" (.arr [.obj [("_ref", .str "managed/user/1")]])

def taken : MemoryStore := (take.run members seeds).2

end Sample

namespace Collection

/-- The role reads and lists its member. -/
theorem query_all_of_get_taken :
    ∃ rs answer, get Sample.members (.fresh 0) "1" Sample.taken = (.ok rs, Sample.taken) ∧
      query Sample.members (.fresh 0) "1" { queryId := some Request.allId } Sample.taken =
        (.ok answer, Sample.taken) ∧
      rs.length = 1 ∧ answer.result = rs := by
  have hlength : (get Sample.members (.fresh 0) "1" Sample.taken).1.toOption.map List.length =
      some 1 := by
    decide +kernel
  have hwhole : WholeRequest { queryId := some Request.allId } :=
    ⟨⟨by decide, rfl, rfl, rfl, rfl⟩, rfl, rfl, rfl⟩
  rcases h : get Sample.members (.fresh 0) "1" Sample.taken with ⟨e | rs, s'⟩
  · rw [h] at hlength
    cases hlength
  · rw [h] at hlength
    obtain ⟨_, answer, _, _, _, hanswer, _, _, hreverse⟩ := query_all_of_get Sample.members
      (.fresh 0) (.fresh 0) "1" { queryId := some Request.allId } Sample.taken s' rs hwhole h
    have hsame : s' = Sample.taken := by
      have hread := readOnly_get Sample.members (.fresh 0) "1" Sample.taken
      rw [h] at hread
      exact hread
    exact ⟨rs, answer, by rw [hsame], hanswer, Option.some.inj hlength, hreverse rfl⟩

/-- **A listing may leave out what a read answers.** The user, whose field is no reverse one,
    reads the role that has taken him, but does not list it. -/
theorem query_all_misses_taken :
    ∃ s rs answer, BoundField.Reaches Sample.roles Sample.members Sample.seeds s ∧
      Sample.roles.field.cardinality = .collection ∧
      get Sample.roles (.fresh 0) "1" s = (.ok rs, s) ∧
      query Sample.roles (.fresh 0) "1" { queryId := some Request.allId } s = (.ok answer, s) ∧
      rs.map (·.target) = [some "managed/role/1"] ∧ answer.result = [] := by
  have hread : (get Sample.roles (.fresh 0) "1" Sample.taken).1.toOption.map
      (List.map (·.target)) = some [some "managed/role/1"] := by
    decide +kernel
  have hlisted : (query Sample.roles (.fresh 0) "1" { queryId := some Request.allId }
      Sample.taken).1.toOption.map (fun answer => answer.result.length) = some 0 := by
    decide +kernel
  have hget := (readOnly_get Sample.roles (.fresh 0) "1").apply Sample.taken
  have hquery := (readOnly_query Sample.roles (.fresh 0) "1"
    { queryId := some Request.allId }).apply Sample.taken
  rw [hget] at hread
  rw [hquery] at hlisted
  cases hrs : (get Sample.roles (.fresh 0) "1").answer Sample.taken with
  | error e =>
    rw [hrs] at hread
    cases hread
  | ok rs =>
    cases hanswer : (query Sample.roles (.fresh 0) "1" { queryId := some Request.allId }).answer
      Sample.taken with
    | error e =>
      rw [hanswer] at hlisted
      cases hlisted
    | ok answer =>
      rw [hrs] at hread hget
      rw [hanswer] at hlisted hquery
      exact ⟨Sample.taken, rs, answer, .back .refl Sample.take, rfl, hget, hquery,
        Option.some.inj hread, List.length_eq_zero_iff.1 (Option.some.inj hlisted)⟩

end Collection

end EdgeFields
