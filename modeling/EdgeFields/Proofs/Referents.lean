/-
  EdgeFields/Proofs/Referents.lean
  ================================
  **Referenced resources have no say in the references to them.**

  Two runs are compared, in stores that may be of different kinds: reads of referenced
  resources may be answered differently in them, or fail, and either run may expand its
  references or leave them as they are. As long as the stores answer the queries of the edges
  alike, the runs fail with the same error or give references that are the client forms of
  the same edges (`Reference.Twins`), since expansion never fails and adds members that are
  not a reference's own (`BoundField.expandOrKeep_cases`). The steps of a visit keep this
  (`Collection.deliver_alike`) and so do whole queries (`Collection.queryWith_alike`).

  Of twins a client sees the same own members and reads back the same relationship
  (`Reference.Agrees`). Two memory stores answer the queries of the edges alike when they have
  the same records in the container of the edges, whatever else they have
  (`MemoryStore.SameRecords.query_eq`).
-/
import EdgeFields.Proofs.Read
import EdgeFields.Proofs.Rejection
import EdgeFields.Store.Monitored
import Mathlib.Data.List.Forall2

namespace EdgeFields

open EngineM

variable {σ τ α β γ δ : Type}

/-! ### Two runs -/

/-- Results of two runs are alike: they fail with the same error, or both succeed, with values
    that are related. -/
inductive Result.Alike {ε : Type} (R : α → β → Prop) : Except ε α → Except ε β → Prop
  | ok {a : α} {b : β} : R a b → Alike R (.ok a) (.ok b)
  | error (e : ε) : Alike R (.error e) (.error e)

namespace Result.Alike

variable {ε : Type} {R S : α → β → Prop} {x : Except ε α} {y : Except ε β}

theorem imp (h : Alike R x y) (hRS : ∀ a b, R a b → S a b) : Alike S x y := by
  cases h with
  | ok hab => exact .ok (hRS _ _ hab)
  | error e => exact .error e

theorem refl (x : Except ε α) : Alike (· = ·) x x := by
  cases x with
  | ok a => exact .ok rfl
  | error e => exact .error e

end Result.Alike

/-- After two runs that came out alike, further steps need to be alike for related values only,
    at whatever states they start. -/
theorem EngineM.alike_bind {R : α → β → Prop} {S : γ → δ → Prop} {m : EngineM σ α}
    {m' : EngineM τ β} {f : α → EngineM σ γ} {f' : β → EngineM τ δ} {s : σ} {t : τ}
    (h : Result.Alike R (m s).1 (m' t).1)
    (hnext : ∀ a b, R a b → ∀ s t, Result.Alike S (f a s).1 (f' b t).1) :
    Result.Alike S ((m >>= f) s).1 ((m' >>= f') t).1 := by
  rw [bind_apply, bind_apply]
  generalize m s = run at h ⊢
  generalize m' t = run' at h ⊢
  obtain ⟨x, s'⟩ := run
  obtain ⟨x', t'⟩ := run'
  cases h with
  | ok hab => exact hnext _ _ hab s' t'
  | error e => exact .error e

/-! ### References to one edge -/

namespace Reference

variable {r r' : Reference} {key : String}

/-- References that differ in members of the referenced resource at most. -/
structure Twins (r r' : Reference) : Prop where
  bare : r.bare = r'.bare
  unreserved : Unreserved r
  unreserved' : Unreserved r'

/-- What a client can take for the same reference: a reference's own members are equal in
    both documents, and the first document is read back as the relationship of the second
    reference. -/
structure Agrees (r r' : Reference) : Prop where
  members : ∀ key ∈ reserved, r.toJson.member? key = r'.toJson.member? key
  decoded : ∃ d, ofJson r.toJson = .ok d ∧ d.edgeId? = r'.edgeId? ∧ d.revision = r'.revision ∧
    d.edgeProperties = r'.edgeProperties ∧ d.identity = r'.identity

theorem Shows.get?_eq {ms ms' : Members} (h : Shows ms r) (h' : Shows ms' r)
    (hkey : key ∈ reserved) : Dict.get? ms key = Dict.get? ms' key := by
  simp only [reserved, List.mem_cons, List.not_mem_nil, or_false] at hkey
  rcases hkey with rfl | rfl | rfl | rfl
  · rw [h.id, h'.id]
  · rw [h.revision, h'.revision]
  · rw [h.target, h'.target]
  · rw [h.properties, h'.properties]

/-- **Twins are the same to a client**, whatever members the referenced resources have. -/
theorem Twins.agrees (h : Twins r r') : Agrees r r' where
  members := by
    intro key hkey
    obtain ⟨ms, hdocument, hshows⟩ := h.unreserved.shows
    obtain ⟨ms', hdocument', hshows'⟩ := h.unreserved'.shows
    rw [hdocument, hdocument']
    exact (hshows.of_bare h.bare).get?_eq hshows' hkey
  decoded := by
    obtain ⟨d, hd, hbare⟩ := ofJson_toJson h.unreserved
    have hsame : d.bare = r'.bare := hbare.trans h.bare
    exact ⟨d, hd, edgeId?_eq_of_bare hsame, revision_eq_of_bare hsame,
      edgeProperties_eq_of_bare hsame, identity_eq_of_bare hsame⟩

theorem bare_of_twins {rs rs' : List Reference} (h : List.Forall₂ Twins rs rs') :
    rs.map Reference.bare = rs'.map Reference.bare := by
  induction h with
  | nil => rfl
  | cons htwins _ ih => rw [List.map_cons, List.map_cons, htwins.bare, ih]

end Reference

open Reference (Twins Agrees Unreserved)

/-! ### Expansion -/

/-- The field with the expansion of references switched on or off. -/
def BoundField.withExpansion (b : BoundField) (expanded : Bool) : BoundField :=
  { b with settings := { b.settings with expandReferences := expanded } }

namespace Collection

variable [Store σ] [Store τ] {b : BoundField} {s : σ} {t : τ} {x y : Bool}

/-- What a visitor is given of a record, in a store of any kind (`given` in memory stores). -/
def delivered (b : BoundField) (owner : String) (expanded : Bool) (record : Record) :
    EngineM σ Reference := do
  let r ← ofResult (b.toReference owner record)
  if expanded then BoundField.expandOrKeep r else pure r

theorem exists_delivered {record : Record} {e : Edge} (h : Edge.ofRecord record = .ok e)
    (b : BoundField) (owner : String) (expanded : Bool) (s : σ) :
    ∃ r s', delivered b owner expanded record s = (.ok r, s') ∧
      r.bare = (Reference.ofEdge e owner b.field.name).bare ∧ Unreserved r := by
  have hform := Reference.unreserved_ofEdge e owner b.field.name
  unfold delivered BoundField.toReference
  rw [h]
  simp only [ofResult_ok_bind]
  cases expanded with
  | false => exact ⟨_, s, rfl, rfl, hform⟩
  | true =>
    obtain ⟨r, s', hrun, hr⟩ :=
      BoundField.expandOrKeep_cases (Reference.ofEdge e owner b.field.name) s
    refine ⟨r, s', hrun, ?_⟩
    rcases hr with rfl | ⟨referent, rfl⟩
    · exact ⟨rfl, hform⟩
    · exact ⟨Reference.bare_expand _ referent, hform.expand referent⟩

/-- Of one record two visitors see the same client form, but for the members of the referenced
    resource. -/
theorem delivered_alike (b : BoundField) (owner : String) (x y : Bool) (record : Record) (s : σ)
    (t : τ) :
    Result.Alike Twins (delivered b owner x record s).1 (delivered b owner y record t).1 := by
  cases hrecord : Edge.ofRecord record with
  | error e =>
    unfold delivered BoundField.toReference
    rw [hrecord]
    exact .error (Error.store e)
  | ok e =>
    obtain ⟨r, s', hrun, hbare, hunreserved⟩ := exists_delivered hrecord b owner x s
    obtain ⟨r', t', hrun', hbare', hunreserved'⟩ := exists_delivered hrecord b owner y t
    rw [hrun, hrun']
    exact .ok ⟨hbare.trans hbare'.symm, hunreserved, hunreserved'⟩

/-! ### Visits -/

section Visitors

variable {R : β → γ → Prop} {visit : β → Reference → β × Bool} {visit' : γ → Reference → γ × Bool}

theorem deliver_cons_eq (b : BoundField) (owner : String) (expanded : Bool)
    (visit : β → Reference → β × Bool) (acc : β) (record : Record) (records : List Record) :
    (deliver b owner expanded visit acc (record :: records) : EngineM σ β) = (do
      let r ← delivered b owner expanded record
      if (visit acc r).2 then deliver b owner expanded visit (visit acc r).1 records
      else pure (visit acc r).1) := by
  unfold delivered
  cases expanded <;> simp [deliver]

/-- Whether references are expanded is said beside the field. -/
theorem deliver_withExpansion (b : BoundField) (owner : String) (expanded : Bool)
    (visit : β → Reference → β × Bool) (acc : β) (records : List Record) :
    (deliver (b.withExpansion x) owner expanded visit acc records : EngineM σ β) =
      deliver b owner expanded visit acc records := by
  induction records generalizing acc with
  | nil => rfl
  | cons record records ih =>
    have hdelivered : (delivered (b.withExpansion x) owner expanded record : EngineM σ Reference) =
        delivered b owner expanded record := rfl
    simp only [deliver_cons_eq, hdelivered, ih]

/-- **Visitors that treat twins alike make alike results of the same records**, in whatever
    stores the referenced resources are looked up. -/
theorem deliver_alike (b : BoundField) (owner : String) (x y : Bool)
    (hvisit : ∀ acc acc' r r', R acc acc' → Twins r r' →
      R (visit acc r).1 (visit' acc' r').1 ∧ (visit acc r).2 = (visit' acc' r').2)
    {acc : β} {acc' : γ} (hacc : R acc acc') (records : List Record) (s : σ) (t : τ) :
    Result.Alike R (deliver b owner x visit acc records s).1
      (deliver b owner y visit' acc' records t).1 := by
  induction records generalizing acc acc' s t with
  | nil => exact .ok hacc
  | cons record records ih =>
    rw [deliver_cons_eq, deliver_cons_eq]
    refine alike_bind (delivered_alike b owner x y record s t) fun r r' htwins s t => ?_
    obtain ⟨hnext, hmore⟩ := hvisit acc acc' r r' hacc htwins
    rw [hmore]
    split
    · exact ih hnext s t
    · exact .ok hnext

end Visitors

/-! ### Queries -/

/-- Two stores answer the queries of a container alike. Their other operations are free. -/
def QueriedAlike (c : String) (s : σ) (t : τ) : Prop :=
  ∀ r, (Store.query c r s).1 = (Store.query c r t).1

/-- Answers to a query that are alike. -/
structure Answer.Alike (R : β → γ → Prop) (a : Answer β) (a' : Answer γ) : Prop where
  result : R a.result a'.result
  response : a.response = a'.response
  activity : a.activity = a'.activity

/-- **A query gives its visitor twins**, in stores that answer the queries of the edges alike. -/
theorem queryWith_alike {R : β → γ → Prop} {visit : β → Reference → β × Bool}
    {visit' : γ → Reference → γ × Bool} (h : QueriedAlike b.edgeContainer s t)
    (context : Context) (id : String) (r : Request)
    (hvisit : ∀ acc acc' r r', R acc acc' → Twins r r' →
      R (visit acc r).1 (visit' acc' r').1 ∧ (visit acc r).2 = (visit' acc' r').2)
    {init : β} {init' : γ} (hinit : R init init') :
    Result.Alike (Answer.Alike R)
      (queryWith (b.withExpansion x) context id r init visit s).1
      (queryWith (b.withExpansion y) context id r init' visit' t).1 := by
  unfold queryWith
  have hrequest : storeRequest (b.withExpansion x) ((b.withExpansion x).ownerPath id) r =
      storeRequest (b.withExpansion y) ((b.withExpansion y).ownerPath id) r := rfl
  rw [hrequest]
  cases storeRequest (b.withExpansion y) ((b.withExpansion y).ownerPath id) r with
  | error e => exact .error e
  | ok request =>
    simp only [ofResult_ok_bind]
    have hfound : Result.Alike (· = ·)
        ((fromStore (Store.query b.edgeContainer request) : EngineM σ QueryResults) s).1
        ((fromStore (Store.query b.edgeContainer request) : EngineM τ QueryResults) t).1 := by
      rw [fromStore_apply, fromStore_apply, h request]
      exact .refl _
    refine alike_bind hfound fun found found' heq s t => ?_
    subst heq
    simp only [deliver_withExpansion]
    refine alike_bind (deliver_alike b (b.ownerPath id) _ _ hvisit hinit found.records s t)
      fun result result' hresult s t => ?_
    exact .ok ⟨hresult, rfl, rfl⟩

/-- The references that a visitor collects are twins, if it decides about going on by what is
    there without expansion. -/
theorem collecting_twins (more : List Reference → Reference → Bool)
    (front front' : List Reference) (r r' : Reference) (hfront : List.Forall₂ Twins front front')
    (hr : Twins r r') :
    List.Forall₂ Twins (front ++ [r]) (front' ++ [r']) ∧
      more (front.map Reference.bare) r.bare = more (front'.map Reference.bare) r'.bare := by
  constructor
  · exact List.rel_append hfront (.cons hr .nil)
  · rw [Reference.bare_of_twins hfront, hr.bare]

theorem agrees_of_twins {rs rs' : List Reference} (h : List.Forall₂ Twins rs rs') :
    List.Forall₂ Agrees rs rs' := h.imp fun _ _ => Twins.agrees

/-- Reads and queries of a field come out alike in two stores, with expansion as it is said for
    either of them. Where nothing is expanded in the second one, this compares with the
    unexpanded references. -/
structure ReadAlike (b : BoundField) (x y : Bool) (s : σ) (t : τ) : Prop where
  get : ∀ context id, Result.Alike (List.Forall₂ Agrees)
    (get (b.withExpansion x) context id s).1 (get (b.withExpansion y) context id t).1
  query : ∀ context id r, Result.Alike (Answer.Alike (List.Forall₂ Agrees))
    (query (b.withExpansion x) context id r s).1 (query (b.withExpansion y) context id r t).1
  /-- Visitors may end a query by the references that they have got, expansion left out. -/
  queryWith : ∀ context id r (more : List Reference → Reference → Bool),
    Result.Alike (Answer.Alike (List.Forall₂ Agrees))
      (queryWith (b.withExpansion x) context id r []
        (collecting fun front r => more (front.map Reference.bare) r.bare) s).1
      (queryWith (b.withExpansion y) context id r []
        (collecting fun front r => more (front.map Reference.bare) r.bare) t).1

theorem query_twins (h : QueriedAlike b.edgeContainer s t) (context : Context) (id : String)
    (r : Request) :
    Result.Alike (Answer.Alike (List.Forall₂ Twins))
      (query (b.withExpansion x) context id r s).1
      (query (b.withExpansion y) context id r t).1 :=
  queryWith_alike h context id r (collecting_twins fun _ _ => true) .nil

theorem readAlike_of_queriedAlike (h : QueriedAlike b.edgeContainer s t) :
    ReadAlike b x y s t where
  get := by
    intro context id
    refine (alike_bind (query_twins h _ id _) (S := List.Forall₂ Twins)
      fun answer answer' halike _ _ => .ok halike.result).imp fun _ _ => agrees_of_twins
  query := by
    intro context id r
    exact (query_twins h context id r).imp fun _ _ halike =>
      ⟨agrees_of_twins halike.result, halike.response, halike.activity⟩
  queryWith := by
    intro context id r more
    exact (queryWith_alike h context id r (collecting_twins more) .nil).imp fun _ _ halike =>
      ⟨agrees_of_twins halike.result, halike.response, halike.activity⟩

end Collection

/-! ### Memory stores -/

namespace MemoryStore

variable {s t u : MemoryStore} {c path : String}

/-- Two stores have the same records in a container, whatever they have outside of it. -/
def SameRecords (c : String) (s t : MemoryStore) : Prop :=
  ∀ path id, Path.split? path = some (Path.trim c, id) →
    Dict.get? s.records path = Dict.get? t.records path

/-- Whether a path is split into a container. -/
def inside (c path : String) : Bool := (Path.split? path).any fun p => p.1 = Path.trim c

theorem inside_iff : inside c path = true ↔ ∃ id, Path.split? path = some (Path.trim c, id) := by
  unfold inside
  cases Path.split? path with
  | none => simp
  | some p => simp [Prod.ext_iff]

/-- A container is listed by its own records alone. -/
theorem container_eq_of_inside (s : MemoryStore) (c : String) :
    s.container c = (s.records.filter fun e => inside c e.1).filterMap fun e =>
      (Path.split? e.1).map fun p => StoredRecord.toRecord e.2 p.2 := by
  unfold container inside
  rw [List.filterMap_filter]
  refine List.filterMap_congr fun e _ => ?_
  cases hsplit : Path.split? e.1 with
  | none => simp [hsplit]
  | some p => by_cases hname : p.1 = Path.trim c <;> simp [hsplit, hname]

namespace SameRecords

theorem container_eq (h : SameRecords c s t) : s.container c = t.container c := by
  have hinside : (s.records.filter fun e => inside c e.1) =
      t.records.filter fun e => inside c e.1 := by
    refine (s.sorted.filter _).ext (t.sorted.filter _) fun path => ?_
    rw [Dict.get?_filter, Dict.get?_filter]
    split
    · rename_i hpath
      obtain ⟨id, hsplit⟩ := inside_iff.1 hpath
      exact h path id hsplit
    · rfl
  rw [container_eq_of_inside s, container_eq_of_inside t, hinside]

/-- **What is outside of a container has no say in its queries.** -/
theorem query_eq (h : SameRecords c s t) (r : Request) : s.query c r = t.query c r := by
  unfold query matched
  rw [h.container_eq]

theorem queriedAlike (h : SameRecords c s t) : Collection.QueriedAlike c s t := by
  intro r
  show s.query c r = t.query c r
  exact h.query_eq r

/-- A record outside of the container does not count. -/
theorem put_outside (hpath : inside c path = false) (s : MemoryStore) (fields : Members) :
    SameRecords c (s.put path fields) s := by
  intro key id hkey
  rw [get?_put, if_neg]
  rintro rfl
  rw [inside_iff.2 ⟨id, hkey⟩] at hpath
  cases hpath

/-- A record that is put into both stores at the same revision is the same in them. -/
theorem put (h : SameRecords c s t) (hrevisions : s.revisions = t.revisions) (path : String)
    (fields : Members) : SameRecords c (s.put path fields) (t.put path fields) := by
  intro key id hkey
  rw [get?_put, get?_put, hrevisions, h key id hkey]

theorem symm (h : SameRecords c s t) : SameRecords c t s :=
  fun path id hsplit => (h path id hsplit).symm

theorem trans (h : SameRecords c s t) (h' : SameRecords c t u) : SameRecords c s u :=
  fun path id hsplit => (h path id hsplit).trans (h' path id hsplit)

end SameRecords

end MemoryStore

/-! ### Monitored stores -/

theorem FailureRule.apply_of_forall_not_selects {call : StoreCall} {rules : List FailureRule}
    (h : ∀ rule ∈ rules, rule.selects call = false) : apply call rules = (none, rules) := by
  induction rules with
  | nil => rfl
  | cons rule rules ih =>
    rw [List.forall_mem_cons] at h
    unfold apply
    rw [if_neg (by simp [h.1]), ih h.2]

/-- Queries that no rule selects are answered by the store inside. -/
theorem Monitored.queriedAlike [Store σ] (t : Monitored σ) (c : String)
    (h : ∀ rule ∈ t.rules, rule.call ≠ "query") : Collection.QueriedAlike c t.store t := by
  intro r
  have hpass : FailureRule.apply (.query c r) t.rules = (none, t.rules) := by
    refine FailureRule.apply_of_forall_not_selects fun rule hrule => ?_
    have hkind : (rule.call == StoreCall.kind (.query c r)) = false :=
      beq_false_of_ne (h rule hrule)
    unfold FailureRule.selects
    rw [hkind, Bool.false_and]
  have henter : enter (.query c r) t = (.ok (), { t with calls := .query c r :: t.calls }) := by
    unfold enter
    rw [hpass]
  have hquery : Store.query c r t =
      (enter (.query c r) >>= fun _ => inside (Store.query c r) : StoreM (Monitored σ) _) t := rfl
  rw [hquery]
  simp only [bind, ExceptT.bind, ExceptT.bindCont, StateT.bind, ExceptT.mk, henter]
  rfl

/-! ### Two stores with other roles -/

namespace Sample

/-- The store with the same edges. The first role claims to be a reference, and the second one
    is missing. -/
def renamed : MemoryStore :=
  (((seeds.put (Path.join "managed/role" "1") [("_ref", .str "managed/role/3"),
    ("_refProperties", .null), ("name", .str "chair")]).put
    (Path.join "managed/role" "3") []).put
    (Path.join "repo/relationships" "e1") assigned.content).put
    (Path.join "repo/relationships" "e2") joined.content

/-- The store in which no role can be read. -/
def unreadable : Monitored MemoryStore where
  store := store
  rules := [
    { call := "read", contains := "managed/role", error := .reported .other "offline", skip := 0 }]

theorem inside_roles (id : String) (hid : id ∈ ["1", "2", "3", "e1", "e2"]) :
    MemoryStore.inside roles.edgeContainer (Path.join "managed/role" id) = false := by
  have hne : decide ("managed/role" = Path.trim roles.edgeContainer) = false := by decide +kernel
  unfold MemoryStore.inside
  rw [Path.split?_join isContainer_roles (isId_of_mem id hid)]
  exact hne

theorem sameRecords_renamed : renamed.SameRecords roles.edgeContainer store := by
  -- the stores differ in the roles that they start from
  have hroles {id : String} (hid : id ∈ ["1", "2", "3", "e1", "e2"]) (fields : Members) :
      ((seeds.put (Path.join "managed/role" id) fields).put
        (Path.join "managed/role" "3") []).SameRecords roles.edgeContainer seeds :=
    (MemoryStore.SameRecords.put_outside (inside_roles "3" (by decide)) _ _).trans
      (MemoryStore.SameRecords.put_outside (inside_roles id hid) _ _)
  unfold renamed store
  refine MemoryStore.SameRecords.put (.put ?_ ?_ _ _) ?_ _ _
  · exact (hroles (by decide) _).trans (hroles (by decide) _).symm
  · simp only [MemoryStore.revisions_put]
  · simp only [MemoryStore.revisions_put]

end Sample

namespace Collection

/-- **Referenced resources cannot influence the references to them.** Whatever they are in two
    stores, whether they are missing or malformed, and with expansion switched on or off in
    either run, a field is read and queried alike: with the same error, or with the same
    references in the same order, as far as their own members go and what is read back from
    them. The two stores may be of any kind, if they answer the queries of the edges alike;
    memory stores do when their records in the container of the edges are the same. -/
theorem referents_without_influence (b : BoundField) (x y : Bool) :
    (∀ {σ τ : Type} [Store σ] [Store τ] (s : σ) (t : τ), QueriedAlike b.edgeContainer s t →
      ReadAlike b x y s t) ∧
    ∀ s t : MemoryStore, MemoryStore.SameRecords b.edgeContainer s t → ReadAlike b x y s t :=
  ⟨fun _ _ => readAlike_of_queriedAlike, fun _ _ h => readAlike_of_queriedAlike h.queriedAlike⟩

/-- Roles that claim to be references, that are missing or that cannot be read leave the roles
    of a user what they are. -/
theorem referents_without_influence_roles :
    ReadAlike Sample.roles true false Sample.renamed Sample.store ∧
      ReadAlike Sample.roles true true Sample.store Sample.unreadable ∧
      (get (Sample.roles.withExpansion true) (.fresh 0) "1" Sample.renamed).1.toOption.map
        (fun rs => rs.map fun r => r.expanded.map (·.1)) = some [["name"], []] := by
  refine ⟨?_, ?_, ?_⟩
  · exact (referents_without_influence Sample.roles true false).2 Sample.renamed Sample.store
      Sample.sameRecords_renamed
  · refine (referents_without_influence Sample.roles true true).1 Sample.store Sample.unreadable
      (Monitored.queriedAlike Sample.unreadable _ ?_)
    intro rule hrule
    cases List.mem_singleton.1 hrule
    decide
  · decide +kernel

end Collection

end EdgeFields
