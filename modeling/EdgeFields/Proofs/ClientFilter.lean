/-
  EdgeFields/Proofs/ClientFilter.lean
  ===================================
  **Filtering in the store is filtering the client form.**

  A client filter is never evaluated on references. The store evaluates it on records, with
  its fields renamed to members of stored edges, once for each endpoint at which the field
  may stand. The renaming is right when every field of the filter reads the same in both
  forms (`Pointer.resolve_stored`); then so does the filter, negations included, as it is a
  function of what its leaves read (`Filter.accepts_mapFields`). A query with the filter
  therefore answers exactly the references that satisfy it, out of those that the query
  without it answers (`Collection.query_filters`).
-/
import EdgeFields.Proofs.Read
import EdgeFields.Proofs.Rejection

namespace EdgeFields

open EngineM
open MemoryStore (StoredRecord.toRecord)

/-! ### Filters see fields only -/

namespace Filter

mutual

/-- **Renaming the fields of a filter is reading them elsewhere.** -/
theorem accepts_mapFields {rename : Pointer → Pointer} {d d' : Json} :
    ∀ f : Filter, (∀ p ∈ f.fields, (rename p).resolve d = p.resolve d') →
      (f.mapFields rename).accepts d = f.accepts d'
  | .const value, _ => by simp only [mapFields, accepts]
  | .all fs, h => by
    simp only [mapFields, accepts]
    exact acceptsAll_mapFieldsList fs h
  | .any fs, h => by
    simp only [mapFields, accepts]
    exact acceptsAny_mapFieldsList fs h
  | .not f, h => by
    simp only [mapFields, accepts]
    rw [accepts_mapFields f h]
  | .compare p o v, h => by
    simp only [mapFields, accepts]
    rw [h p (List.mem_singleton.2 rfl)]
  | .present p, h => by
    simp only [mapFields, accepts]
    rw [h p (List.mem_singleton.2 rfl)]

theorem acceptsAll_mapFieldsList {rename : Pointer → Pointer} {d d' : Json} :
    ∀ fs : List Filter, (∀ p ∈ fieldsList fs, (rename p).resolve d = p.resolve d') →
      acceptsAll (mapFieldsList rename fs) d = acceptsAll fs d'
  | [], _ => by simp only [mapFieldsList, acceptsAll]
  | f :: fs, h => by
    simp only [mapFieldsList, acceptsAll]
    rw [accepts_mapFields f fun p hp => h p (List.mem_append_left _ hp),
      acceptsAll_mapFieldsList fs fun p hp => h p (List.mem_append_right _ hp)]

theorem acceptsAny_mapFieldsList {rename : Pointer → Pointer} {d d' : Json} :
    ∀ fs : List Filter, (∀ p ∈ fieldsList fs, (rename p).resolve d = p.resolve d') →
      acceptsAny (mapFieldsList rename fs) d = acceptsAny fs d'
  | [], _ => by simp only [mapFieldsList, acceptsAny]
  | f :: fs, h => by
    simp only [mapFieldsList, acceptsAny]
    rw [accepts_mapFields f fun p hp => h p (List.mem_append_left _ hp),
      acceptsAny_mapFieldsList fs fun p hp => h p (List.mem_append_right _ hp)]

end

end Filter

/-! ### Fields that read the same in both forms -/

namespace Pointer

/-- A client field that a record of the edge holds too: what `_refProperties` says of the
    identifier and the revision is not stored among the properties. -/
inductive Shared : Pointer → Prop
  | id : Shared (.field Record.idKey)
  | revision : Shared (.field Record.revisionKey)
  | target : Shared (.field Reference.targetKey)
  | property {name : String} {rest : List String} (hid : name ≠ Record.idKey)
    (hrevision : name ≠ Record.revisionKey) : Shared ⟨Reference.propertiesKey :: name :: rest⟩

theorem resolve_field (key : String) (ms : Members) :
    (field key).resolve (.obj ms) = Dict.get? ms key := by
  simp [resolve, field, step]

theorem resolve_cons (segment : String) (rest : List String) (d : Json) :
    (⟨segment :: rest⟩ : Pointer).resolve d = (step d segment).bind fun v =>
      (⟨rest⟩ : Pointer).resolve v := by
  unfold resolve
  rw [List.foldlM_cons]
  rfl

theorem Shared.isClientField {p : Pointer} (h : p.Shared) : p.isClientField = true := by
  cases h <;> rfl

end Pointer

theorem Filter.foreignFields_of_shared {f : Filter} (h : ∀ p ∈ f.fields, p.Shared) :
    f.foreignFields = [] := by
  unfold foreignFields
  rw [List.filter_eq_nil_iff]
  intro p hp
  simp [(h p hp).isClientField]

namespace Edge

/-- The members of an edge's record show what its client form is made of. -/
structure ShowsForm (ms : Members) (e : Edge) : Prop extends Shows ms e where
  id : Dict.get? ms Record.idKey = e.id.map .str
  revision : Dict.get? ms Record.revisionKey = e.revision.map .str
  properties : Dict.get? ms propertiesKey = some (.obj e.properties) ∨
    (e.properties = [] ∧ Dict.get? ms propertiesKey = none)

theorem showsForm_of_ofRecord {id revision : String} {fields : Members} {e : Edge}
    (h : ofRecord (.ofMembers id revision fields) = .ok e) :
    ShowsForm (Record.withBookkeeping id revision fields) e := by
  obtain ⟨hid, hrevision⟩ := ofRecord_eq_ok h
  refine ⟨shows_of_ofRecord h, ?_, ?_, ?_⟩
  · rw [Record.get?_withBookkeeping_id, hid]
    rfl
  · rw [hrevision]
    exact Dict.get?_insert_self _ _ _
  · unfold ofRecord Record.ofMembers at h
    split at h
    · rename_i e' he'
      cases h
      simp only [ofJson?, Json.asObj?, bind, Option.bind_eq_some_iff, Option.some.injEq,
        exists_eq_left', pure] at he'
      obtain ⟨_, _, _, _, _, _, _, _, _, _, _, _, properties, hproperties, rfl⟩ := he'
      exact Json.defaulted_asObj?_eq_some hproperties
    · cases h

end Edge

section Forms

variable {ms ms' : Members} {e : Edge} {owner field : String} {fromSecond : Bool}

/-- **A shared field reads in a record what it reads in the client form**, when it is renamed
    for the endpoint from which the edge is seen. -/
theorem Pointer.resolve_stored (hrecord : Edge.ShowsForm ms e)
    (hform : Reference.Shows ms' (.ofEdge e owner field))
    (hside : e.opposite owner field = if fromSecond then e.firstId else e.secondId)
    {p : Pointer} (hp : p.Shared) :
    (p.stored fromSecond).resolve (.obj ms) = p.resolve (.obj ms') := by
  cases hp with
  | id =>
    have hsame : (Pointer.field Record.idKey).stored fromSecond = .field Record.idKey := rfl
    rw [hsame, resolve_field, resolve_field, hrecord.id, hform.id]
    rfl
  | revision =>
    have hsame : (Pointer.field Record.revisionKey).stored fromSecond =
      .field Record.revisionKey := rfl
    rw [hsame, resolve_field, resolve_field, hrecord.revision, hform.revision]
    rfl
  | target =>
    have hopposite : (Pointer.field Reference.targetKey).stored fromSecond =
        .field (if fromSecond then Edge.firstIdKey else Edge.secondIdKey) := rfl
    have htarget : (Reference.ofEdge e owner field).target = some (e.opposite owner field) := rfl
    rw [hopposite, resolve_field, resolve_field, hform.target, htarget, hside]
    cases fromSecond with
    | true => exact hrecord.firstId
    | false => exact hrecord.secondId
  | @property name rest hname hname' =>
    have hrenamed : (⟨Reference.propertiesKey :: name :: rest⟩ : Pointer).stored fromSecond =
        ⟨Edge.propertiesKey :: name :: rest⟩ := rfl
    simp only [hrenamed, resolve_cons, step, hform.properties, Option.bind_some,
      Reference.get?_properties_ofEdge hname hname']
    rcases hrecord.properties with hsome | ⟨hempty, hnone⟩
    · rw [hsome]
      rfl
    · -- a record without the member stands for an edge without properties
      rw [hnone, hempty]
      rfl

end Forms

namespace BoundField

variable {b : BoundField} {owner : String} {f : Filter} {ms ms' : Members} {e : Edge}

/-- The owner's part of a filter stays when a client's part is added. -/
theorem accepts_ownerFilter_none {d : Json}
    (h : Filter.accepts (b.ownerFilter owner (some f)) d = true) :
    Filter.accepts (b.ownerFilter owner none) d = true := by
  have hendpoint : ∀ fromSecond,
      Filter.accepts (b.endpointFilter owner (some f) fromSecond) d = true →
      Filter.accepts (b.endpointFilter owner none fromSecond) d = true := by
    intro fromSecond hboth
    simp only [endpointFilter, Option.map_some, Option.toList_some, List.cons_append,
      List.nil_append, Filter.accepts, Filter.acceptsAll, Bool.and_eq_true, and_true] at hboth
    simp only [endpointFilter, Option.map_none, Option.toList_none, List.cons_append,
      List.nil_append, Filter.accepts, Filter.acceptsAll, Bool.and_eq_true, and_true]
    exact ⟨hboth.1, hboth.2.1⟩
  unfold ownerFilter at h ⊢
  split
  · rename_i hreverse
    rw [if_pos hreverse] at h
    simp only [Filter.accepts, Filter.acceptsAny, Bool.or_false, Bool.or_eq_true] at h ⊢
    exact h.imp (hendpoint false) (hendpoint true)
  · rename_i hforward
    rw [if_neg hforward] at h
    exact hendpoint false h

/-- **The owner's filter with a client's part holds of the edges of the owner whose client
    form satisfies that part.** -/
theorem accepts_ownerFilter_client (hrecord : Edge.ShowsForm ms e)
    (hform : Reference.Shows ms' (.ofEdge e owner b.field.name))
    (hshared : ∀ p ∈ f.fields, p.Shared) :
    Filter.accepts (b.ownerFilter owner (some f)) (.obj ms) =
      (Filter.accepts (b.ownerFilter owner none) (.obj ms) && f.accepts (.obj ms')) := by
  have hshows := hrecord.toShows
  have hclient : ∀ fromSecond,
      e.opposite owner b.field.name = (if fromSecond then e.firstId else e.secondId) →
      (f.stored fromSecond).accepts (.obj ms) = f.accepts (.obj ms') := by
    intro fromSecond hside
    exact Filter.accepts_mapFields f fun p hp =>
      Pointer.resolve_stored hrecord hform hside (hshared p hp)
  -- each endpoint has the client's part seen from there, also when the field is at both
  have hendpoint : ∀ fromSecond,
      Filter.accepts (b.endpointFilter owner (some f) fromSecond) (.obj ms) =
        (Filter.accepts (b.endpointFilter owner none fromSecond) (.obj ms) &&
          f.accepts (.obj ms')) := by
    intro fromSecond
    rw [hshows.accepts_endpointFilter, hshows.accepts_endpointFilter]
    simp only [Option.all_some, Option.all_none, Bool.and_true]
    cases fromSecond with
    | true =>
      cases hsecond : e.secondIs owner b.field.name with
      | true => rw [hclient true (Edge.opposite_of_secondIs hsecond)]
      | false => rfl
    | false =>
      cases hfirst : e.firstIs owner b.field.name with
      | true => rw [hclient false (Edge.opposite_of_firstIs hfirst)]
      | false => rfl
  unfold ownerFilter
  split
  · simp only [Filter.accepts, Filter.acceptsAny, Bool.or_false, hendpoint,
      Bool.and_or_distrib_right]
  · exact hendpoint false

end BoundField

namespace Collection

variable {b : BoundField} {context : Context} {id : String} {r : Request} {s : MemoryStore}

/-! ### Requests for a listing -/

/-- The query ids under which a field is listed: none, all, and identifiers only. -/
def listingIds : List (Option String) := [none, some Request.allId, some Request.idsOnlyId]

/-- A request for the whole listing of a field, in the order of the store. -/
structure WholeListing (r : Request) : Prop where
  queryId : r.queryId ∈ listingIds
  pageSize : r.pageSize = 0
  offset : r.offset = 0
  cookie : r.cookie = none
  sortKeys : r.sortKeys = []

theorem selection_listingRequest (b : BoundField) (owner : String) (r : Request) :
    (listingRequest b owner r).selection = .all := rfl

/-- The edge records that the owner's filter accepts. -/
def accepted (b : BoundField) (owner : String) (client : Option Filter) (s : MemoryStore) :
    List Record :=
  (s.container b.edgeContainer).filter fun record =>
    Filter.accepts (b.ownerFilter owner client) record.content

/-- No record is accepted for a client's filter that is not accepted without it. -/
theorem accepted_some (b : BoundField) (owner : String) (f : Filter) (s : MemoryStore) :
    accepted b owner (some f) s = (accepted b owner none s).filter fun record =>
      Filter.accepts (b.ownerFilter owner (some f)) record.content := by
  unfold accepted
  rw [List.filter_filter]
  apply List.filter_congr
  intro record _
  rw [Bool.eq_iff_iff, Bool.and_eq_true]
  exact ⟨fun h => ⟨h, BoundField.accepts_ownerFilter_none h⟩, And.left⟩

namespace WholeListing

theorem storeRequest_eq (h : WholeListing r) (hexpression : r.expression = none)
    (hfields : ∀ f, r.filter = some f → f.foreignFields = []) (b : BoundField) (owner : String) :
    storeRequest b owner r = .ok (listingRequest b owner r) := by
  have hforeign : (r.filter.map Filter.foreignFields).getD [] = [] := by
    cases hfilter : r.filter with
    | none => rfl
    | some f => exact hfields f hfilter
  have hselection : r.selection = .all ∨ r.selection = .idsOnly := by
    have hid := h.queryId
    simp only [listingIds, List.mem_cons, List.not_mem_nil, or_false] at hid
    unfold Request.selection
    rcases hid with hid | hid | hid
    · rw [hid]
      exact .inl rfl
    · rw [hid]
      exact .inl rfl
    · rw [hid]
      exact .inr rfl
  unfold storeRequest
  rw [hexpression]
  rcases hselection with hselection | hselection
  · simp only [hselection, hforeign]
    rfl
  · simp only [hselection, hforeign]
    rfl

/-- **A listing answers what is given of the records that the owner's filter accepts.** -/
theorem answer_query (h : WholeListing r) (hexpression : r.expression = none)
    (hfields : ∀ f, r.filter = some f → f.foreignFields = []) (b : BoundField)
    (context : Context) (id : String) (s : MemoryStore) :
    ∃ response, (query b context id r).answer s = (do
      let rs ← (accepted b (b.ownerPath id) r.filter s).mapM fun record =>
        (given b (b.ownerPath id) (expanding b r) record).answer s
      .ok ⟨rs, response, Activity.ofSuccess context "query" (b.ownerPath id)⟩) := by
  have hselection : (listingRequest b (b.ownerPath id) r).selection ≠ .idsOnly := by
    rw [selection_listingRequest]
    decide
  obtain ⟨response, hfound⟩ := MemoryStore.query_eq_ok (s := s) (c := b.edgeContainer)
    (r := listingRequest b (b.ownerPath id) r) rfl h.cookie h.offset h.sortKeys hselection rfl
  have hsize : (listingRequest b (b.ownerPath id) r).pageSize = 0 := h.pageSize
  have hfilter : (listingRequest b (b.ownerPath id) r).filter =
      some (b.ownerFilter (b.ownerPath id) r.filter) := rfl
  refine ⟨response, ?_⟩
  rw [Collection.answer_query, h.storeRequest_eq hexpression hfields, Result.ok_bind, hfound]
  simp only [Paging.page, hsize, hfilter, if_true, List.drop_zero, Result.mapError_ok,
    Result.ok_bind, Option.toList_some, List.nil_append, Filter.accepts, Filter.acceptsAll,
    Bool.and_true]
  rfl

end WholeListing

theorem expression_eq_none_of_query {answer : Answer (List Reference)}
    (h : (query b context id r).answer s = .ok answer) : r.expression = none := by
  rw [Collection.answer_query, Result.bind_eq_ok] at h
  obtain ⟨_, hrequest, _⟩ := h
  exact (storeRequest_cases hrequest).1

/-! ### Filtered listings -/

/-- What a visitor is given of a record of the container shows whether the store's filter
    accepts the record. -/
theorem accepts_of_given {expanded : Bool} {record : Record} {x : Reference} {f : Filter}
    {owner : String} (hmem : record ∈ s.container b.edgeContainer)
    (hgiven : (given b owner expanded record).answer s = .ok x)
    (hshared : ∀ p ∈ f.fields, p.Shared) :
    Filter.accepts (b.ownerFilter owner (some f)) record.content =
      (Filter.accepts (b.ownerFilter owner none) record.content && f.accepts x.toJson) := by
  obtain ⟨e, he, hbare, hunreserved⟩ := edge_of_given hgiven
  obtain ⟨_, id, stored, _, _, rfl⟩ := MemoryStore.mem_container_iff.1 hmem
  obtain ⟨ms, hdocument, hshows⟩ := hunreserved.shows
  rw [hdocument]
  exact BoundField.accepts_ownerFilter_client (Edge.showsForm_of_ofRecord he)
    (hshows.of_bare hbare) hshared

/-- **A filtered listing holds the references of the whole one that satisfy the filter**, in
    the same order: filtering records in the store is filtering the documents that are
    answered. -/
theorem query_filters (b : BoundField) (context : Context) (id : String) (r : Request)
    (f : Filter) (s s' : MemoryStore) (whole : Answer (List Reference))
    (hlisting : WholeListing r) (hshared : ∀ p ∈ f.fields, p.Shared)
    (h : query b context id { r with filter := none } s = (.ok whole, s')) :
    ∃ filtered, query b context id { r with filter := some f } s = (.ok filtered, s) ∧
      filtered.result = whole.result.filter fun x => f.accepts x.toJson := by
  have hwhole : (query b context id { r with filter := none }).answer s = .ok whole :=
    congrArg Prod.fst h
  have hexpression : r.expression = none :=
    expression_eq_none_of_query (r := { r with filter := none }) hwhole
  have hlisting' : ∀ filter, WholeListing { r with filter } := fun _ =>
    ⟨hlisting.queryId, hlisting.pageSize, hlisting.offset, hlisting.cookie, hlisting.sortKeys⟩
  have hforeign : ∀ f', some f = some f' → f'.foreignFields = [] := by
    rintro _ ⟨⟩
    exact Filter.foreignFields_of_shared hshared
  obtain ⟨response, hanswer⟩ := (hlisting' none).answer_query hexpression
    (fun _ hf => nomatch hf) b context id s
  obtain ⟨response', hanswer'⟩ := (hlisting' (some f)).answer_query hexpression hforeign b
    context id s
  rw [hanswer, Result.bind_eq_ok] at hwhole
  obtain ⟨rs, hrs, hwhole⟩ := hwhole
  cases hwhole
  have hfiltered : ((accepted b (b.ownerPath id) (some f) s).mapM fun record =>
      (given b (b.ownerPath id) (expanding b r) record).answer s) =
        .ok (rs.filter fun x => f.accepts x.toJson) := by
    rw [accepted_some]
    apply Result.mapM_filter hrs
    intro record hrecord x hx
    obtain ⟨hmem, haccepts⟩ := List.mem_filter.1 hrecord
    rw [accepts_of_given hmem hx hshared, haccepts, Bool.true_and]
  have hexpanding : expanding b { r with filter := some f } = expanding b r := rfl
  refine ⟨⟨rs.filter fun x => f.accepts x.toJson, response',
    Activity.ofSuccess context "query" (b.ownerPath id)⟩, ?_, rfl⟩
  rw [(readOnly_query b context id _).apply s, hanswer', hexpanding, hfiltered]
  rfl

/-- The roles of users, looked for at both endpoints. -/
def rolesEitherWay : BoundField :=
  { Sample.roles with field := { Sample.roles.field with isReverse := true } }

/-- All roles but the first one. -/
def otherRoles : Filter := .not (.equalTo (.field Reference.targetKey) (.str "managed/role/1"))

/-- Of the two roles of a user, which stand at different endpoints of their edges, the filter
    leaves the second one. -/
theorem query_filters_otherRoles :
    ∃ whole filtered s',
      query rolesEitherWay (.fresh 0) "1" {} Sample.store = (.ok whole, s') ∧
      query rolesEitherWay (.fresh 0) "1" { filter := some otherRoles } Sample.store =
        (.ok filtered, Sample.store) ∧
      (filtered.result = whole.result.filter fun x => otherRoles.accepts x.toJson) ∧
      whole.result.map (·.target) = [some "managed/role/1", some "managed/role/2"] ∧
      filtered.result.map (·.target) = [some "managed/role/2"] := by
  have hwhole : (query rolesEitherWay (.fresh 0) "1" {} Sample.store).1.toOption.map
      (fun answer => answer.result.map (·.target)) =
        some [some "managed/role/1", some "managed/role/2"] := by
    decide +kernel
  have hleft : (query rolesEitherWay (.fresh 0) "1" { filter := some otherRoles }
      Sample.store).1.toOption.map (fun answer => answer.result.map (·.target)) =
        some [some "managed/role/2"] := by
    decide +kernel
  have hlisting : WholeListing {} := ⟨List.mem_cons_self .., rfl, rfl, rfl, rfl⟩
  have hshared : ∀ p ∈ otherRoles.fields, p.Shared := by
    intro p hp
    rw [List.mem_singleton.1 hp]
    exact .target
  rcases h : query rolesEitherWay (.fresh 0) "1" {} Sample.store with ⟨e | whole, s'⟩
  · rw [h] at hwhole
    cases hwhole
  · obtain ⟨filtered, hfiltered, hresult⟩ := query_filters rolesEitherWay (.fresh 0) "1" {}
      otherRoles Sample.store s' whole hlisting hshared h
    rw [h] at hwhole
    rw [hfiltered] at hleft
    exact ⟨whole, filtered, s', rfl, hfiltered, hresult, Option.some.inj hwhole,
      Option.some.inj hleft⟩

end Collection

end EdgeFields
