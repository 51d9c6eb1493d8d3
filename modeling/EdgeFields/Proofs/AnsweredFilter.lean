/-
  EdgeFields/Proofs/AnsweredFilter.lean
  =====================================
  **Where the answers do not follow the client's filter.**

  Filtering in the store is filtering the client form as long as every field of the filter reads
  the same in both, and the filter gets to the store. Neither is always so.

  The client form of an edge repeats the identifier and the revision among the properties, where
  no record has them. Of all fields that references have, exactly three therefore read something
  else in the record: the properties as a whole, and the identifier and the revision among them
  (`Pointer.resolve_stored_iff`). A filter on one of these is taken and tests another value.

  A request for all edges at a field is answered by a store query of its own, into which no
  filter is put: it is answered as if it had none. Under all other query ids whatever is answered
  satisfies the filter (`Collection.queryWith_keeps_filter`).
-/
import EdgeFields.Proofs.ClientFilter
import EdgeFields.Proofs.OwnerScope

namespace EdgeFields

open EngineM

/-! ### Bookkeeping among the properties -/

namespace Reference

variable {e : Edge} {id revision owner field : String}

theorem get?_properties_ofEdge_id (h : e.id = some id) :
    Dict.get? (ofEdge e owner field).properties Record.idKey = some (.str id) := by
  show Dict.get? (Dict.insert? Record.revisionKey _ (Dict.insert? Record.idKey _ _)) _ = _
  rw [Dict.get?_insert?, if_neg (by decide), Dict.get?_insert?, if_pos rfl, h]
  rfl

theorem get?_properties_ofEdge_revision (h : e.revision = some revision) :
    Dict.get? (ofEdge e owner field).properties Record.revisionKey = some (.str revision) := by
  show Dict.get? (Dict.insert? Record.revisionKey _ (Dict.insert? Record.idKey _ _)) _ = _
  rw [Dict.get?_insert?, if_pos rfl, h]
  rfl

end Reference

namespace Pointer

/-- A client field that reads the bookkeeping among the properties: they all, or one of the two
    members below that are bookkeeping. -/
def readsBookkeeping (p : Pointer) : Bool :=
  match p.segments with
  | [s] => s == Reference.propertiesKey
  | s :: name :: _ =>
    s == Reference.propertiesKey && (name == Record.idKey || name == Record.revisionKey)
  | [] => false

/-- The client fields whose value is, or contains, bookkeeping among the properties. -/
def bookkeepingFields : List Pointer :=
  [.field Reference.propertiesKey, ⟨[Reference.propertiesKey, Record.idKey]⟩,
    ⟨[Reference.propertiesKey, Record.revisionKey]⟩]

theorem shared_of_isClientField {p : Pointer} (hclient : p.isClientField = true)
    (hbookkeeping : p.readsBookkeeping = false) : p.Shared := by
  obtain ⟨segments⟩ := p
  match segments with
  | [] => cases hclient
  | [s] =>
    have hs : s ≠ Reference.propertiesKey := by simpa [readsBookkeeping] using hbookkeeping
    simp only [isClientField, Reference.reserved, List.contains_eq_mem, List.mem_cons,
      List.not_mem_nil, or_false, decide_eq_true_eq] at hclient
    rcases hclient with rfl | rfl | rfl | rfl
    · exact .id
    · exact .revision
    · exact .target
    · exact absurd rfl hs
  | s :: name :: rest =>
    have hs : s = Reference.propertiesKey := by simpa [isClientField] using hclient
    subst hs
    simp only [readsBookkeeping, beq_self_eq_true, Bool.true_and, Bool.or_eq_false_iff,
      beq_eq_false_iff_ne] at hbookkeeping
    exact .property hbookkeeping.1 hbookkeeping.2

theorem readsBookkeeping_of_mem {p : Pointer} (h : p ∈ bookkeepingFields) :
    p.readsBookkeeping = true := by
  revert p
  decide

/-- Nothing is found below a text. -/
theorem resolve_str (rest : List String) (x : String) :
    (⟨rest⟩ : Pointer).resolve (.str x) = if rest = [] then some (.str x) else none := by
  cases rest with
  | nil => rfl
  | cons s rest =>
    rw [resolve_cons, if_neg (List.cons_ne_nil s rest)]
    rfl

end Pointer

section Fields

variable {e : Edge} {ms ms' : Members} {id revision owner field : String} {p : Pointer}

/-- Below a property that the edge does not have, nothing is found in the record. -/
theorem Edge.ShowsForm.resolve_absent (hrecord : Edge.ShowsForm ms e) {name : String}
    (hnone : Dict.get? e.properties name = none) (rest : List String) :
    (⟨Edge.propertiesKey :: name :: rest⟩ : Pointer).resolve (.obj ms) = none := by
  simp only [Pointer.resolve_cons, Pointer.step]
  rcases hrecord.properties with hsome | ⟨_, habsent⟩
  · simp only [hsome, Option.bind_some, hnone, Option.bind_none]
  · rw [habsent, Option.bind_none]

/-- A property of a reference that is a text is found, and nothing below it. -/
theorem Reference.Shows.resolve_text {r : Reference} (hform : Reference.Shows ms' r)
    {name x : String} (hname : Dict.get? r.properties name = some (.str x)) (rest : List String) :
    (⟨Reference.propertiesKey :: name :: rest⟩ : Pointer).resolve (.obj ms') =
      if rest = [] then some (.str x) else none := by
  simp only [Pointer.resolve_cons, Pointer.step, hform.properties, Option.bind_some, hname]
  exact Pointer.resolve_str rest x

/-- The properties as a whole are others in the client form, which has the identifier among
    them. -/
theorem Pointer.resolve_properties_ne (hrecord : Edge.ShowsForm ms e)
    (hform : Reference.Shows ms' (.ofEdge e owner field)) (hid : e.id = some id)
    (hplain : Record.Plain e.properties) :
    (Pointer.field Edge.propertiesKey).resolve (.obj ms) ≠
      (Pointer.field Reference.propertiesKey).resolve (.obj ms') := by
  intro hsame
  rw [resolve_field, resolve_field, hform.properties] at hsame
  rcases hrecord.properties with hsome | ⟨_, habsent⟩
  · have hproperties : e.properties = (Reference.ofEdge e owner field).properties := by
      simpa using hsome.symm.trans hsame
    have hnone := hplain.id
    rw [hproperties, Reference.get?_properties_ofEdge_id hid] at hnone
    cases hnone
  · rw [habsent] at hsame
    cases hsame

/-- Where the properties have no bookkeeping of their own, a field that reaches bookkeeping in the
    client form reads the same in the record only if it goes on below it and so finds nothing. -/
theorem Pointer.resolve_stored_bookkeeping (hrecord : Edge.ShowsForm ms e)
    (hform : Reference.Shows ms' (.ofEdge e owner field)) (hid : e.id = some id)
    (hrevision : e.revision = some revision) (hplain : Record.Plain e.properties)
    (hbookkeeping : p.readsBookkeeping = true) (fromSecond : Bool) :
    (p.stored fromSecond).resolve (.obj ms) = p.resolve (.obj ms') ↔ p ∉ bookkeepingFields := by
  obtain ⟨segments⟩ := p
  rcases segments with _ | ⟨s, _ | ⟨name, rest⟩⟩
  · cases hbookkeeping
  · obtain rfl : s = Reference.propertiesKey := by simpa [readsBookkeeping] using hbookkeeping
    exact iff_of_false (resolve_properties_ne hrecord hform hid hplain)
      (fun hnot => hnot (List.mem_cons_self ..))
  · simp only [readsBookkeeping, Bool.and_eq_true, beq_iff_eq, Bool.or_eq_true] at hbookkeeping
    obtain ⟨rfl, hname⟩ := hbookkeeping
    have hstored : (⟨Reference.propertiesKey :: name :: rest⟩ : Pointer).stored fromSecond =
        ⟨Edge.propertiesKey :: name :: rest⟩ := rfl
    rw [hstored]
    rcases hname with rfl | rfl
    · rw [hrecord.resolve_absent hplain.id,
        hform.resolve_text (Reference.get?_properties_ofEdge_id hid)]
      simp [bookkeepingFields, Pointer.field, Record.idKey, Record.revisionKey]
    · rw [hrecord.resolve_absent hplain.revision,
        hform.resolve_text (Reference.get?_properties_ofEdge_revision hrevision)]
      simp [bookkeepingFields, Pointer.field, Record.idKey, Record.revisionKey]

/-- **Exactly three client fields read something else in the record**, if the properties of the
    edge have no bookkeeping of their own. Whatever the properties are, all fields that do not
    reach bookkeeping among them read the same. -/
theorem Pointer.resolve_stored_iff (e : Edge) (id revision owner field : String)
    (fromSecond : Bool) (p : Pointer) (hid : e.id = some id) (hrevision : e.revision = some revision)
    (hside : (if fromSecond then e.secondIs owner field else e.firstIs owner field) = true)
    (hclient : p.isClientField = true) :
    (p.readsBookkeeping = false →
      (p.stored fromSecond).resolve (Record.ofMembers id revision e.content).content =
        p.resolve (Reference.ofEdge e owner field).toJson) ∧
    (Record.Plain e.properties →
      ((p.stored fromSecond).resolve (Record.ofMembers id revision e.content).content =
        p.resolve (Reference.ofEdge e owner field).toJson ↔ p ∉ bookkeepingFields)) := by
  have hrecord : Edge.ShowsForm (Record.withBookkeeping id revision e.content) e := by
    have hread := Edge.ofRecord_content e id revision
    rw [← hid, ← hrevision] at hread
    exact Edge.showsForm_of_ofRecord hread
  obtain ⟨ms', hdocument, hform⟩ := (Reference.unreserved_ofEdge e owner field).shows
  rw [hdocument]
  have hopposite : e.opposite owner field = if fromSecond then e.firstId else e.secondId := by
    cases fromSecond with
    | true => exact Edge.opposite_of_secondIs hside
    | false => exact Edge.opposite_of_firstIs hside
  have hshared : p.readsBookkeeping = false → (p.stored fromSecond).resolve
      (Record.ofMembers id revision e.content).content = p.resolve (.obj ms') := fun hfree =>
    resolve_stored hrecord hform hopposite (shared_of_isClientField hclient hfree)
  refine ⟨hshared, fun hplain => ?_⟩
  cases hbookkeeping : p.readsBookkeeping with
  | true => exact resolve_stored_bookkeeping hrecord hform hid hrevision hplain hbookkeeping _
  | false =>
    refine iff_of_true (hshared hbookkeeping) fun hmem => ?_
    rw [readsBookkeeping_of_mem hmem] at hbookkeeping
    cases hbookkeeping

end Fields

/-! ### A role with a grant -/

namespace Sample

/-- The edge of a user's role, stored, with a property. -/
def granted : Edge :=
  { assigned with id := some "e1", revision := some "5", properties := [("grant", .str "direct")] }

/-- The identifier of the edge, as the client form has it among the properties. -/
def propertyId : Pointer := ⟨[Reference.propertiesKey, Record.idKey]⟩

end Sample

/-- The grant reads the same from the user's side in the record, the identifier does not. -/
theorem Pointer.resolve_stored_iff_granted :
    ((⟨["_refProperties", "grant"]⟩ : Pointer).stored false).resolve
        (Record.ofMembers "e1" "5" Sample.granted.content).content =
      (⟨["_refProperties", "grant"]⟩ : Pointer).resolve
        (Reference.ofEdge Sample.granted "managed/user/1" "roles").toJson ∧
    (Sample.propertyId.stored false).resolve
        (Record.ofMembers "e1" "5" Sample.granted.content).content ≠
      Sample.propertyId.resolve (Reference.ofEdge Sample.granted "managed/user/1" "roles").toJson := by
  have hplain : Record.Plain Sample.granted.properties := ⟨rfl, rfl⟩
  refine ⟨(resolve_stored_iff Sample.granted "e1" "5" "managed/user/1" "roles" false _ rfl rfl rfl
    rfl).1 rfl, fun hsame => ?_⟩
  exact ((resolve_stored_iff Sample.granted "e1" "5" "managed/user/1" "roles" false
    Sample.propertyId rfl rfl rfl rfl).2 hplain).1 hsame (by decide)

/-- **A field that references have may read nothing in the record**: the identifier of the edge
    among the properties. The user's listing that asks for it is empty, although the reference of
    the edge satisfies the filter. -/
theorem Pointer.resolve_stored_misses_id :
    Sample.propertyId.isClientField = true ∧
    Sample.granted.firstIs "managed/user/1" "roles" = true ∧
    (Sample.propertyId.stored false).resolve
      (Record.ofMembers "e1" "5" Sample.granted.content).content = none ∧
    Sample.propertyId.resolve (Reference.ofEdge Sample.granted "managed/user/1" "roles").toJson =
      some (.str "e1") ∧
    (Collection.query Sample.roles (.fresh 0) "1" { filter := some (.present Sample.propertyId) }
      Sample.store).1.toOption.map (·.result.length) = some 0 ∧
    (Collection.query Sample.roles (.fresh 0) "1" {} Sample.store).1.toOption.map
      (fun answer => answer.result.map fun x =>
        (Filter.present Sample.propertyId).accepts x.toJson) = some [true] := by
  refine ⟨rfl, rfl, rfl, rfl, ?_, ?_⟩ <;> decide +kernel

namespace Collection

variable {b : BoundField} {context : Context} {id owner : String} {r : Request}
  {s s' : MemoryStore} {f : Filter}

/-! ### Answers satisfy the filter -/

theorem selection_eq_relationships_iff :
    r.selection = .relationships ↔ r.queryId = some Request.relationshipsId := by
  unfold Request.selection
  cases r.queryId with
  | none => simp
  | some queryId =>
    simp only [Option.some.injEq]
    constructor
    · intro h
      split at h
      · cases h
      · split at h
        · cases h
        · split at h
          · assumption
          · cases h
    · rintro rfl
      decide

/-- No filter is part of what the store is asked for all edges at a field. -/
theorem storeRequest_without_filter (h : r.queryId = some Request.relationshipsId) :
    storeRequest b owner { r with filter := none } = storeRequest b owner r := by
  have hselection : r.selection = .relationships := selection_eq_relationships_iff.2 h
  have hselection' : ({ r with filter := none } : Request).selection = .relationships := hselection
  unfold storeRequest
  simp only [hselection, hselection']
  rfl

/-- What a visitor is given of an accepted record satisfies the client's filter. -/
theorem accepts_of_listed {found : QueryResults} {expanded : Bool} {record : Record}
    {x : Reference} (hfilter : r.filter = some f) (hshared : ∀ p ∈ f.fields, p.Shared)
    (hfound : s.query b.edgeContainer (listingRequest b owner r) = .ok found)
    (hrecord : record ∈ found.records)
    (hgiven : (given b owner expanded record).answer s = .ok x) : f.accepts x.toJson = true := by
  have hids : (listingRequest b owner r).selection ≠ .idsOnly := by
    rw [selection_listingRequest]
    decide
  obtain ⟨filters, picked, hfilters, hrecords, _, hpicked⟩ :=
    MemoryStore.exists_listed_of_query hids hfound
  rw [hrecords] at hrecord
  obtain ⟨p, hp, rfl⟩ := List.mem_map.1 hrecord
  obtain ⟨hlisted, haccepted⟩ := hpicked p hp
  have hmem : p.2 ∈ s.container b.edgeContainer := by
    rw [MemoryStore.container_eq_map_listed]
    exact List.mem_map_of_mem hlisted
  cases hfilters
  simp only [listingRequest, hfilter, Option.toList_some, List.nil_append, Filter.accepts,
    Filter.acceptsAll, Bool.and_true] at haccepted
  rw [accepts_of_given hmem hgiven hshared, Bool.and_eq_true] at haccepted
  exact haccepted.2

/-- **Whatever is answered satisfies the client's filter**, in any order and on any page, unless
    all edges at the field are asked for: that request is answered as if it had no filter. -/
theorem queryWith_keeps_filter (b : BoundField) (context : Context) (id : String) (r : Request)
    (f : Filter) (more : List Reference → Reference → Bool) (s s' : MemoryStore)
    (answer : Answer (List Reference)) (hfilter : r.filter = some f)
    (hshared : ∀ p ∈ f.fields, p.Shared)
    (h : queryWith b context id r [] (collecting more) s = (.ok answer, s')) :
    (r.queryId ≠ some Request.relationshipsId → ∀ x ∈ answer.result, f.accepts x.toJson = true) ∧
    (r.queryId = some Request.relationshipsId →
      queryWith b context id { r with filter := none } [] (collecting more) s =
        (.ok answer, s')) := by
  constructor
  · intro hid x hx
    have hanswer : (queryWith b context id r [] (collecting more)).answer s = .ok answer :=
      congrArg Prod.fst h
    rw [answer_queryWith, Result.bind_eq_ok] at hanswer
    obtain ⟨request, hrequest, hanswer⟩ := hanswer
    obtain ⟨found, hfound, hanswer⟩ := Result.bind_eq_ok.1 hanswer
    obtain ⟨result, hresult, hanswer⟩ := Result.bind_eq_ok.1 hanswer
    cases hanswer
    obtain ⟨n, rs, rfl, hrs⟩ := exists_take_of_deliver hresult
    obtain ⟨form, rfl, hform⟩ := Result.map_of_mapM_eq_ok hrs
    obtain ⟨record, hrecord, rfl⟩ := List.mem_map.1 hx
    obtain ⟨_, ⟨hselection, _⟩ | ⟨_, rfl⟩⟩ := storeRequest_cases_of_selection hrequest
    · exact absurd (selection_eq_relationships_iff.1 hselection) hid
    · exact accepts_of_listed hfilter hshared (Result.mapError_eq_ok.1 hfound)
        (List.mem_of_mem_take hrecord) (hform record hrecord)
  · intro hid
    rw [← h]
    unfold queryWith
    rw [storeRequest_without_filter hid]
    rfl

/-- Asks for the identifiers of all roles but the first, one on a page. -/
def otherRoleIds : Request where
  queryId := some Request.idsOnlyId
  filter := some otherRoles
  pageSize := 1
  sortKeys := [⟨.field Record.idKey, false⟩]

/-- The page holds the second role, which the filter lets through. -/
theorem queryWith_keeps_filter_otherRoles :
    ∃ answer s', queryWith rolesEitherWay (.fresh 0) "1" otherRoleIds []
        (collecting fun _ _ => true) Sample.store = (.ok answer, s') ∧
      answer.result.map (·.target) = [some "managed/role/2"] ∧
      ∀ x ∈ answer.result, otherRoles.accepts x.toJson = true := by
  have htargets : (queryWith rolesEitherWay (.fresh 0) "1" otherRoleIds []
      (collecting fun _ _ => true) Sample.store).1.toOption.map
        (fun answer => answer.result.map (·.target)) = some [some "managed/role/2"] := by
    decide +kernel
  have hshared : ∀ p ∈ otherRoles.fields, p.Shared := by
    intro p hp
    rw [List.mem_singleton.1 hp]
    exact .target
  rcases h : queryWith rolesEitherWay (.fresh 0) "1" otherRoleIds [] (collecting fun _ _ => true)
      Sample.store with ⟨e | answer, s'⟩
  · rw [h] at htargets
    cases htargets
  · rw [h] at htargets
    exact ⟨answer, s', rfl, Option.some.inj htargets,
      (queryWith_keeps_filter rolesEitherWay (.fresh 0) "1" otherRoleIds otherRoles _ Sample.store
        s' answer rfl hshared h).1 (by decide)⟩

/-- **A filter is dropped when all edges at a field are asked for**: the first role is answered,
    which the filter excludes. -/
theorem query_relationships_drops_filter :
    (∀ p ∈ otherRoles.fields, p.Shared) ∧
    (query Sample.roles (.fresh 0) "1"
      { queryId := some Request.relationshipsId, filter := some otherRoles }
      Sample.store).1.toOption.map (fun answer => answer.result.map fun x =>
        (x.target, otherRoles.accepts x.toJson)) =
      some [(some "managed/role/1", false), (some "managed/role/2", true)] := by
  refine ⟨fun p hp => ?_, by decide +kernel⟩
  rw [List.mem_singleton.1 hp]
  exact .target

end Collection

end EdgeFields
