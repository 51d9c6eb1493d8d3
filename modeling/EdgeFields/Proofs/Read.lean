/-
  EdgeFields/Proofs/Read.lean
  ===========================
  **What reading a field answers.**

  What a visitor of a query is given of a record is the client form of the record's edge, and
  no more than that once the members of the referenced resource are left out
  (`Collection.edge_of_given`). Expansion never fails: a reference whose resource cannot be
  read stays as it is. A query answers what its visitor makes of the records that the store
  finds (`Collection.answer_queryWith`); a visitor that collects is given the first of them
  (`Collection.exists_take_of_deliver`).

  A read of a field answers the client forms of the edges at the field, for collections
  (`Collection.get_of_existing`, `Collection.existing_of_get`) as for singletons
  (`Singleton.existing_of_get`). Reading a value back therefore gives references that name all
  edges and say of each what the store says (`BoundField.getValue_of_existing`).
-/
import EdgeFields.Engine.Value
import EdgeFields.Proofs.Existing
import EdgeFields.Proofs.Reference

namespace EdgeFields

open EngineM

/-! ### Expansion -/

namespace BoundField

variable {b : BoundField} {owner : String} {s : MemoryStore} {es : List Edge}

theorem readOnly_expand (r : Reference) : ReadOnly (expand r : EngineM MemoryStore Reference) := by
  unfold expand
  cases r.target with
  | none => exact readOnly_throw _
  | some target => exact (readOnly_read target).bind fun _ => readOnly_pure _

/-- **Expansion never fails**, in whatever store, and adds members of the referenced resource at
    most. -/
theorem expandOrKeep_cases {σ : Type} [Store σ] (r : Reference) (s : σ) :
    ∃ r' t, expandOrKeep r s = (.ok r', t) ∧ (r' = r ∨ ∃ referent, r' = r.expand referent) := by
  unfold expandOrKeep
  rw [tryCatch_apply]
  rcases hexpand : expand r s with ⟨e | r', t⟩
  · exact ⟨r, t, rfl, .inl rfl⟩
  · refine ⟨r', t, rfl, .inr ?_⟩
    unfold expand at hexpand
    cases htarget : r.target with
    | none =>
      rw [htarget] at hexpand
      cases hexpand
    | some target =>
      rw [htarget] at hexpand
      obtain ⟨referent, _, _, hreturn⟩ := of_bind_eq_ok hexpand
      cases hreturn
      exact ⟨referent.content, rfl⟩

theorem expandOrKeep_apply (r : Reference) (s : MemoryStore) :
    ∃ r', expandOrKeep r s = (.ok r', s) ∧ (r' = r ∨ ∃ referent, r' = r.expand referent) := by
  have hread : ReadOnly (expandOrKeep r : EngineM MemoryStore Reference) :=
    (readOnly_expand r).tryCatch fun _ => readOnly_pure _
  obtain ⟨r', t, hrun, hr'⟩ := expandOrKeep_cases r s
  obtain rfl := (hread.eq_ok_of_apply hrun).2
  exact ⟨r', hrun, hr'⟩

end BoundField

/-! ### Client forms -/

namespace Reference

variable {r r' : Reference} {rs rs' : List Reference}

/-- References that are the client forms of edges, perhaps expanded. -/
structure Forms (rs forms : List Reference) : Prop where
  bare : rs.map Reference.bare = forms.map Reference.bare
  unreserved : ∀ r ∈ rs, Unreserved r

namespace Forms

variable {forms : List Reference} (h : Forms rs forms)
include h

theorem exists_form (hr : r ∈ rs) : ∃ r' ∈ forms, r.bare = r'.bare := by
  have hmem : r.bare ∈ forms.map Reference.bare := h.bare ▸ List.mem_map_of_mem hr
  obtain ⟨r', hr', hbare⟩ := List.mem_map.1 hmem
  exact ⟨r', hr', hbare.symm⟩

theorem exists_of_form (hr' : r' ∈ forms) : ∃ r ∈ rs, r.bare = r'.bare := by
  have hmem : r'.bare ∈ rs.map Reference.bare := h.bare ▸ List.mem_map_of_mem hr'
  exact List.mem_map.1 hmem

end Forms

theorem edgeId?_eq_of_bare (h : r.bare = r'.bare) : r.edgeId? = r'.edgeId? := by
  show r.bare.edgeId? = r'.bare.edgeId?
  rw [h]

theorem target_eq_of_bare (h : r.bare = r'.bare) : r.target = r'.target := by
  show r.bare.target = r'.bare.target
  rw [h]

theorem edgeProperties_eq_of_bare (h : r.bare = r'.bare) :
    r.edgeProperties = r'.edgeProperties := by
  show r.bare.edgeProperties = r'.bare.edgeProperties
  rw [h]

theorem identity_eq_of_bare (h : r.bare = r'.bare) : r.identity = r'.identity := by
  show r.bare.identity = r'.bare.identity
  rw [h]

theorem revision_eq_of_bare (h : r.bare = r'.bare) : r.revision = r'.revision := by
  show r.bare.revision = r'.bare.revision
  rw [h]

end Reference

theorem BoundField.checkShape_eq_of_bare (b : BoundField) {r r' : Reference}
    (h : r.bare = r'.bare) : b.checkShape r = b.checkShape r' := by
  show b.checkShape r.bare = b.checkShape r'.bare
  rw [h]

namespace Collection

variable {b : BoundField} {owner : String} {s : MemoryStore} {es : List Edge}
  {r request : Request}

/-! ### Store requests -/

/-- What the store is asked for a listing: for the records that the owner's filter and the
    client's accept. -/
def listingRequest (b : BoundField) (owner : String) (r : Request) : Request :=
  { ({} : Request).withPagingFrom r with
    filter := some (b.ownerFilter owner r.filter)
    parameters := r.parameters }

/-- What the store is asked for all edges at a field: the owner is put over what the client
    says in the parameters. -/
def relatedRequest (b : BoundField) (owner : String) (r : Request) : Request :=
  { ({} : Request).withPagingFrom r with
    queryId := some Request.relationshipsId
    parameters := Dict.merge r.parameters (b.relationshipQuery owner).parameters }

/-- What the store is asked depends on the query id alone. -/
theorem storeRequest_cases_of_selection (h : storeRequest b owner r = .ok request) :
    r.expression = none ∧
      ((r.selection = .relationships ∧ request = relatedRequest b owner r) ∨
        (r.selection ≠ .relationships ∧ request = listingRequest b owner r)) := by
  unfold storeRequest at h
  cases hexpression : r.expression with
  | some expression =>
    rw [hexpression] at h
    cases h
  | none =>
    rw [hexpression] at h
    refine ⟨rfl, ?_⟩
    cases hselection : r.selection with
    | relationships =>
      simp only [hselection] at h
      cases h
      exact .inl ⟨rfl, rfl⟩
    | unknown id =>
      simp only [hselection] at h
      cases h
    | all =>
      simp only [hselection] at h
      split at h
      · cases h
      · cases h
        exact .inr ⟨nofun, rfl⟩
    | idsOnly =>
      simp only [hselection] at h
      split at h
      · cases h
      · cases h
        exact .inr ⟨nofun, rfl⟩

theorem storeRequest_cases (h : storeRequest b owner r = .ok request) :
    r.expression = none ∧
      (request = relatedRequest b owner r ∨ request = listingRequest b owner r) := by
  obtain ⟨hexpression, hrequest⟩ := storeRequest_cases_of_selection h
  exact ⟨hexpression, hrequest.imp And.right And.right⟩

theorem storeRequest_relationships (b : BoundField) (owner : String) :
    storeRequest b owner { queryId := some Request.relationshipsId } =
      .ok (b.relationshipQuery owner) := by
  have hbound : storeRequest b owner { queryId := some Request.relationshipsId } =
      .ok { b.relationshipQuery owner with
        parameters := Dict.merge [] (b.relationshipQuery owner).parameters } := rfl
  rw [hbound, Dict.merge_nil_of_sorted (b.sorted_parameters owner)]

/-! ### Visits -/

/-- The client form of a record as a visitor sees it. -/
def shown (expanded : Bool) (r : Reference) : EngineM MemoryStore Reference :=
  if expanded then BoundField.expandOrKeep r else pure r

theorem shown_apply (expanded : Bool) {r : Reference} (h : Reference.Unreserved r)
    (s : MemoryStore) :
    ∃ r', shown expanded r s = (.ok r', s) ∧ r'.bare = r.bare ∧ Reference.Unreserved r' := by
  cases expanded with
  | false => exact ⟨r, rfl, rfl, h⟩
  | true =>
    obtain ⟨r', hrun, hr'⟩ := BoundField.expandOrKeep_apply r s
    refine ⟨r', hrun, ?_⟩
    rcases hr' with rfl | ⟨referent, rfl⟩
    · exact ⟨rfl, h⟩
    · exact ⟨Reference.bare_expand r referent, h.expand referent⟩

theorem readOnly_shown (expanded : Bool) (r : Reference) : ReadOnly (shown expanded r) := by
  unfold shown
  split
  · exact ReadOnly.tryCatch (BoundField.readOnly_expand r) fun _ => readOnly_pure _
  · exact readOnly_pure _

/-- What a visitor is given of a record. -/
def given (b : BoundField) (owner : String) (expanded : Bool) (record : Record) :
    EngineM MemoryStore Reference := do
  let r ← ofResult (b.toReference owner record)
  shown expanded r

theorem readOnly_given (b : BoundField) (owner : String) (expanded : Bool) (record : Record) :
    ReadOnly (given b owner expanded record) :=
  (readOnly_ofResult _).bind fun _ => readOnly_shown expanded _

theorem exists_given_of_edge {record : Record} {e : Edge} (h : Edge.ofRecord record = .ok e)
    (b : BoundField) (owner : String) (expanded : Bool) (s : MemoryStore) :
    ∃ r, (given b owner expanded record).answer s = .ok r ∧
      r.bare = (Reference.ofEdge e owner b.field.name).bare ∧ Reference.Unreserved r := by
  obtain ⟨r, hrun, hr⟩ :=
    shown_apply expanded (Reference.unreserved_ofEdge e owner b.field.name) s
  refine ⟨r, ?_, hr⟩
  unfold given BoundField.toReference answer
  rw [h]
  exact congrArg Prod.fst hrun

/-- **A visitor is given the client form of an edge**, perhaps expanded. -/
theorem edge_of_given {expanded : Bool} {record : Record} {r : Reference}
    (h : (given b owner expanded record).answer s = .ok r) :
    ∃ e, Edge.ofRecord record = .ok e ∧
      r.bare = (Reference.ofEdge e owner b.field.name).bare ∧ Reference.Unreserved r := by
  cases hrecord : Edge.ofRecord record with
  | error e =>
    unfold given BoundField.toReference at h
    rw [hrecord] at h
    cases h
  | ok e =>
    obtain ⟨r', hr', hform⟩ := exists_given_of_edge hrecord b owner expanded s
    rw [h] at hr'
    cases hr'
    exact ⟨e, rfl, hform⟩

theorem given_of_edges {expanded : Bool} {records : List Record}
    (h : records.mapM Edge.ofRecord = .ok es) :
    ∃ rs, (records.mapM fun record => (given b owner expanded record).answer s) = .ok rs ∧
      Reference.Forms rs (b.formsOf owner es) := by
  induction records generalizing es with
  | nil =>
    cases h
    exact ⟨[], rfl, rfl, fun _ hr => nomatch hr⟩
  | cons record records ih =>
    rw [Result.mapM_cons, Result.bind_eq_ok] at h
    obtain ⟨e, he, h⟩ := h
    obtain ⟨es', hes', h⟩ := Result.bind_eq_ok.1 h
    cases h
    obtain ⟨r, hr, hbare, hunreserved⟩ := exists_given_of_edge he b owner expanded s
    obtain ⟨rs, hrs, hbares, hunreserveds⟩ := ih hes'
    refine ⟨r :: rs, ?_, ?_, ?_⟩
    · rw [Result.mapM_cons, hr, hrs]
      rfl
    · rw [List.map_cons, hbare, hbares]
      rfl
    · rw [List.forall_mem_cons]
      exact ⟨hunreserved, hunreserveds⟩

theorem edges_of_given {expanded : Bool} {records : List Record} {rs : List Reference}
    (h : (records.mapM fun record => (given b owner expanded record).answer s) = .ok rs) :
    ∃ es, records.mapM Edge.ofRecord = .ok es ∧ Reference.Forms rs (b.formsOf owner es) := by
  have hedges : ∃ es, records.mapM Edge.ofRecord = .ok es := by
    obtain ⟨g, _, hg⟩ := Result.map_of_mapM_eq_ok h
    apply Result.exists_mapM_eq_ok
    intro record hrecord
    obtain ⟨e, he, _⟩ := edge_of_given (hg record hrecord)
    exact ⟨e, he⟩
  obtain ⟨es, hes⟩ := hedges
  refine ⟨es, hes, ?_⟩
  obtain ⟨rs', hrs', hforms⟩ := given_of_edges hes
  rw [h] at hrs'
  cases hrs'
  exact hforms

section Visitors

variable {β : Type}

theorem deliver_cons (b : BoundField) (owner : String) (expanded : Bool)
    (visit : β → Reference → β × Bool) (acc : β) (record : Record) (records : List Record) :
    deliver b owner expanded visit acc (record :: records) = (do
      let r ← given b owner expanded record
      if (visit acc r).2 then deliver b owner expanded visit (visit acc r).1 records
      else pure (visit acc r).1) := by
  unfold given shown
  cases expanded <;> simp [deliver]

theorem readOnly_deliver (b : BoundField) (owner : String) (expanded : Bool)
    (visit : β → Reference → β × Bool) (acc : β) (records : List Record) :
    ReadOnly (deliver b owner expanded visit acc records : EngineM MemoryStore β) := by
  induction records generalizing acc with
  | nil => exact readOnly_pure acc
  | cons record records ih =>
    rw [deliver_cons]
    refine (readOnly_given b owner expanded record).bind fun r => ?_
    split
    · exact ih _
    · exact readOnly_pure _

end Visitors

/-- A visitor that collects what it is given until it wants no more. -/
def collecting (more : List Reference → Reference → Bool) (front : List Reference)
    (r : Reference) : List Reference × Bool :=
  (front ++ [r], more front r)

/-- What is collected is what was given of the first records. -/
theorem exists_take_of_deliver {expanded : Bool} {more : List Reference → Reference → Bool}
    {front result : List Reference} {records : List Record}
    (h : (deliver b owner expanded (collecting more) front records).answer s = .ok result) :
    ∃ n rs, result = front ++ rs ∧
      ((records.take n).mapM fun record => (given b owner expanded record).answer s) =
        .ok rs := by
  induction records generalizing front with
  | nil =>
    cases h
    exact ⟨0, [], (List.append_nil _).symm, rfl⟩
  | cons record records ih =>
    rw [deliver_cons, (readOnly_given b owner expanded record).answer_bind,
      Result.bind_eq_ok] at h
    obtain ⟨r, hr, h⟩ := h
    split at h
    · obtain ⟨n, rs, hresult, hrs⟩ := ih h
      refine ⟨n + 1, r :: rs, ?_, ?_⟩
      · rw [hresult, collecting, List.append_assoc, List.singleton_append]
      · rw [List.take_succ_cons, Result.mapM_cons, hr, hrs]
        rfl
    · cases h
      refine ⟨1, [r], rfl, ?_⟩
      rw [List.take_succ_cons, List.take_zero, Result.mapM_cons, hr]
      rfl

/-- Without an end to its wishes a visitor collects what is given of all records. -/
theorem answer_deliver_collecting (b : BoundField) (owner : String) (expanded : Bool)
    (front : List Reference) (records : List Record) (s : MemoryStore) :
    (deliver b owner expanded (collecting fun _ _ => true) front records).answer s = (do
      let rs ← records.mapM fun record => (given b owner expanded record).answer s
      .ok (front ++ rs)) := by
  induction records generalizing front with
  | nil =>
    show Except.ok front = .ok (front ++ [])
    rw [List.append_nil]
  | cons record records ih =>
    rw [deliver_cons, (readOnly_given b owner expanded record).answer_bind, Result.mapM_cons]
    cases (given b owner expanded record).answer s with
    | error e => rfl
    | ok r =>
      show (deliver b owner expanded (collecting fun _ _ => true) (front ++ [r]) records).answer
        s = _
      rw [ih]
      cases records.mapM fun record => (given b owner expanded record).answer s with
      | error e => rfl
      | ok rs =>
        show Except.ok (front ++ [r] ++ rs) = .ok (front ++ r :: rs)
        rw [List.append_assoc, List.singleton_append]

/-! ### Queries -/

section Queries

variable {β : Type}

theorem readOnly_queryWith (b : BoundField) (context : Context) (id : String) (r : Request)
    (init : β) (visit : β → Reference → β × Bool) :
    ReadOnly (queryWith b context id r init visit : EngineM MemoryStore (Answer β)) :=
  (readOnly_ofResult _).bind fun _ => (readOnly_query _ _).bind fun _ =>
    (readOnly_deliver b _ _ _ _ _).bind fun _ => readOnly_pure _

/-- **A query answers what its visitor makes of the records that the store finds.** -/
theorem answer_queryWith (b : BoundField) (context : Context) (id : String) (r : Request)
    (init : β) (visit : β → Reference → β × Bool) (s : MemoryStore) :
    (queryWith b context id r init visit).answer s = (do
      let request ← storeRequest b (b.ownerPath id) r
      let found ← (s.query b.edgeContainer request).mapError .store
      let result ← (deliver b (b.ownerPath id) (expanding b r) visit init found.records).answer s
      .ok ⟨result, found.response, Activity.ofSuccess context "query" (b.ownerPath id)⟩) := by
  unfold queryWith
  simp only [(readOnly_ofResult _).answer_bind, answer_ofResult, (readOnly_query _ _).answer_bind,
    (readOnly_deliver b _ _ _ _ _).answer_bind, answer_pure]
  rfl

end Queries

theorem readOnly_query (b : BoundField) (context : Context) (id : String) (r : Request) :
    ReadOnly (query b context id r : EngineM MemoryStore (Answer (List Reference))) :=
  readOnly_queryWith b context id r _ _

/-- What a query collects is what a visitor is given of all records that the store finds. -/
theorem answer_query (b : BoundField) (context : Context) (id : String) (r : Request)
    (s : MemoryStore) :
    (query b context id r).answer s = (do
      let request ← storeRequest b (b.ownerPath id) r
      let found ← (s.query b.edgeContainer request).mapError .store
      let rs ← found.records.mapM fun record =>
        (given b (b.ownerPath id) (expanding b r) record).answer s
      .ok ⟨rs, found.response, Activity.ofSuccess context "query" (b.ownerPath id)⟩) := by
  have hcollecting : query b context id r =
      (queryWith b context id r [] (collecting fun _ _ => true) : EngineM MemoryStore _) := rfl
  rw [hcollecting, answer_queryWith]
  simp only [answer_deliver_collecting, bind_assoc, Result.ok_bind, List.nil_append]

/-! ### Reads -/

theorem readOnly_get (b : BoundField) (context : Context) (id : String) :
    ReadOnly (get b context id : EngineM MemoryStore (List Reference)) :=
  (readOnly_query b _ id _).bind fun _ => readOnly_pure _

theorem answer_get (b : BoundField) (context : Context) (id : String) (s : MemoryStore) :
    (get b context id).answer s =
      (s.related b.edgeContainer (b.ownerPath id) b.field.name).mapM fun record =>
        (given b (b.ownerPath id) b.settings.expandReferences record).answer s := by
  have hexpanding : expanding b { queryId := some Request.relationshipsId } =
      b.settings.expandReferences := Bool.and_true _
  obtain ⟨response, hfound⟩ := BoundField.query_relationshipQuery b s (b.ownerPath id)
  unfold get
  rw [(readOnly_query b _ id _).answer_bind, answer_query, storeRequest_relationships,
    hexpanding]
  simp only [Result.ok_bind, hfound, Result.mapError_ok, bind_assoc, answer_pure]
  exact bind_pure _

/-- **A read answers the client forms of the edges at the field.** -/
theorem get_of_existing (b : BoundField) (context : Context) (id : String)
    (h : (b.existingEdges (b.ownerPath id)).answer s = .ok es) :
    ∃ rs, Reference.Forms rs (b.formsOf (b.ownerPath id) es) ∧
      get b context id s = (.ok rs, s) := by
  rw [BoundField.answer_existingEdges_eq_ok] at h
  obtain ⟨rs, hrs, hforms⟩ := given_of_edges h
  refine ⟨rs, hforms, ?_⟩
  rw [(readOnly_get b context id).apply, answer_get, hrs]

/-- A read that succeeds finds the edges at the field. -/
theorem existing_of_get {context : Context} {id : String} {rs : List Reference}
    (h : (get b context id).answer s = .ok rs) :
    ∃ es, (b.existingEdges (b.ownerPath id)).answer s = .ok es ∧
      Reference.Forms rs (b.formsOf (b.ownerPath id) es) := by
  rw [answer_get] at h
  obtain ⟨es, hes, hforms⟩ := edges_of_given h
  exact ⟨es, (BoundField.answer_existingEdges_eq_ok b _ s es).2 hes, hforms⟩

end Collection

namespace Singleton

variable {b : BoundField} {owner : String} {s : MemoryStore}

theorem readOnly_current (b : BoundField) (owner : String) :
    ReadOnly (current b owner : EngineM MemoryStore (Option Reference)) := by
  refine (BoundField.readOnly_existingEdges b owner).bind fun es => ?_
  split
  · exact readOnly_pure _
  · exact readOnly_pure _
  · exact readOnly_throw _

theorem existing_of_current {form : Option Reference}
    (h : (current b owner).answer s = .ok form) :
    ∃ es, (b.existingEdges owner).answer s = .ok es ∧ form.toList = b.formsOf owner es := by
  unfold current at h
  rw [(BoundField.readOnly_existingEdges b owner).answer_bind, Result.bind_eq_ok] at h
  obtain ⟨es, hes, h⟩ := h
  refine ⟨es, hes, ?_⟩
  split at h
  · cases h
    rfl
  · cases h
    rfl
  · cases h

/-- A read that succeeds finds at most one edge at the field. -/
theorem existing_of_get {id : String} {read : Option Reference}
    (h : (get b id).answer s = .ok read) :
    ∃ es, (b.existingEdges (b.ownerPath id)).answer s = .ok es ∧
      Reference.Forms read.toList (b.formsOf (b.ownerPath id) es) := by
  unfold get at h
  rw [(readOnly_current b _).answer_bind, Result.bind_eq_ok] at h
  obtain ⟨form, hform, h⟩ := h
  obtain ⟨es, hes, hforms⟩ := existing_of_current hform
  refine ⟨es, hes, ?_⟩
  rw [← hforms]
  cases form with
  | none =>
    cases h
    exact ⟨rfl, fun _ hr => nomatch hr⟩
  | some r =>
    have hshown : (if b.settings.expandReferences = true then some <$> BoundField.expandOrKeep r
        else pure (some r) : EngineM MemoryStore (Option Reference)) =
        some <$> Collection.shown b.settings.expandReferences r := by
      unfold Collection.shown
      split <;> rfl
    have hmem : r ∈ b.formsOf (b.ownerPath id) es := hforms ▸ List.mem_singleton.2 rfl
    obtain ⟨e, _, rfl⟩ := List.mem_map.1 hmem
    obtain ⟨r', hrun, hbare, hunreserved⟩ := Collection.shown_apply
      b.settings.expandReferences (Reference.unreserved_ofEdge e _ b.field.name) s
    simp only [hshown, answer_map] at h
    unfold answer at h
    rw [hrun] at h
    cases h
    exact ⟨congrArg (fun r => [r]) hbare, fun r hr => List.mem_singleton.1 hr ▸ hunreserved⟩

end Singleton

namespace BoundField

variable {b : BoundField} {s : MemoryStore} {es : List Edge}

/-- **The value of a collection is read back as the client forms of its edges.** -/
theorem getValue_of_existing (context : Context) (id : String)
    (hcollection : b.field.cardinality = .collection)
    (h : (b.existingEdges (b.ownerPath id)).answer s = .ok es) :
    ∃ xs rs, b.getValue context id s = (.ok (.arr xs), s) ∧
      Reference.listOfJson (.arr xs) = .ok rs ∧
      rs.map Reference.bare = (b.formsOf (b.ownerPath id) es).map Reference.bare := by
  obtain ⟨rs, hrs, hget⟩ := Collection.get_of_existing b context id h
  obtain ⟨rs', hread, hbare⟩ := Reference.listOfJson_listToJson hrs.unreserved
  refine ⟨rs.map Reference.toJson, rs', ?_, hread, hbare.trans hrs.bare⟩
  unfold getValue
  rw [hcollection]
  show (Reference.listToJson <$> Collection.get b context id) s = _
  rw [map_apply, hget]
  rfl

end BoundField

end EdgeFields
