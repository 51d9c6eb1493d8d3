/-
  EdgeFields/Proofs/WriteBack.lean
  ================================
  **Writing back what was read changes nothing but revisions.**

  The value of a collection mirrors the store (`Collection.Mirrors`): it names every edge at
  the field and says of each what the store says. Writing a value that mirrors the store
  updates each edge to what it is, so that the store after it differs in revisions only
  (`MemoryStore.SameButRevisions`) and the value mirrors that one too. By induction it can be
  written any number of times, although the revisions that it carries are those of the first
  read (`BoundField.setRepeatedly_of_mirrors`).

  The value mirrors the store if the edges at the field were written by the engine
  (`BoundField.Regular`), as those that calls leave always are
  (`BoundField.RecordAt.authored_of_run`).
-/
import EdgeFields.Proofs.Authored
import EdgeFields.Proofs.Read
import EdgeFields.Proofs.Replace

namespace EdgeFields

open EngineM
open MemoryStore (StoredRecord.toRecord)

/-! ### Stores that differ in revisions -/

namespace MemoryStore

variable {s t u : MemoryStore} {c path : String} {touched : String → Prop}

/-- Two stores hold the same fields at every path, and the same records but for some
    identifiers of a container. -/
structure SameButRevisions (c : String) (touched : String → Prop) (s t : MemoryStore) : Prop where
  serials : t.serials = s.serials
  fields : ∀ path, (Dict.get? t.records path).map StoredRecord.fields =
    (Dict.get? s.records path).map StoredRecord.fields
  elsewhere : ∀ path, Dict.get? t.records path ≠ Dict.get? s.records path →
    ∃ id, path = Path.join (Path.trim c) id ∧ touched id

namespace SameButRevisions

theorem refl (c : String) (touched : String → Prop) (s : MemoryStore) :
    SameButRevisions c touched s s where
  serials := rfl
  fields := fun _ => rfl
  elsewhere := fun _ hne => absurd rfl hne

theorem trans (h : SameButRevisions c touched s t) (h' : SameButRevisions c touched t u) :
    SameButRevisions c touched s u where
  serials := h'.serials.trans h.serials
  fields := fun path => (h'.fields path).trans (h.fields path)
  elsewhere := by
    intro path hne
    by_cases hstep : Dict.get? u.records path = Dict.get? t.records path
    · rw [hstep] at hne
      exact h.elsewhere path hne
    · exact h'.elsewhere path hstep

theorem mono {touched' : String → Prop} (h : SameButRevisions c touched s t)
    (hsub : ∀ id, touched id → touched' id) : SameButRevisions c touched' s t where
  serials := h.serials
  fields := h.fields
  elsewhere := by
    intro path hne
    obtain ⟨id, hpath, hid⟩ := h.elsewhere path hne
    exact ⟨id, hpath, hsub id hid⟩

theorem symm (h : SameButRevisions c touched s t) : SameButRevisions c touched t s where
  serials := h.serials.symm
  fields := fun path => (h.fields path).symm
  elsewhere := fun path hne => h.elsewhere path (Ne.symm hne)

theorem exists_get? (h : SameButRevisions c touched s t) {r : StoredRecord}
    (hr : Dict.get? s.records path = some r) :
    ∃ r', Dict.get? t.records path = some r' ∧ r'.fields = r.fields := by
  have hfields := h.fields path
  rw [hr, Option.map_some, Option.map_eq_some_iff] at hfields
  exact hfields

theorem wellFormed (h : SameButRevisions c touched s t) (hs : s.WellFormed) : t.WellFormed := by
  intro path r hr
  obtain ⟨r', hr', _⟩ := h.symm.exists_get? hr
  exact hs path r' hr'

theorem exists_read (h : SameButRevisions c touched s t)
    (hread : ∃ record, s.read path = .ok record) : ∃ record, t.read path = .ok record := by
  obtain ⟨record, hread⟩ := hread
  unfold read find at hread ⊢
  cases hsplit : Path.split? path with
  | none =>
    rw [hsplit] at hread
    cases hread
  | some p =>
    rw [hsplit] at hread
    cases hr : Dict.get? s.records (Path.trim path) with
    | none =>
      simp only [hr] at hread
      cases hread
    | some r =>
      obtain ⟨r', hr', _⟩ := h.exists_get? hr
      simp only [hr']
      exact ⟨_, rfl⟩

end SameButRevisions

/-- Filters of relationship queries do not look at revisions. -/
theorem accepts_relationshipFilter_congr (owner field id : String) {r r' : StoredRecord}
    (h : r.fields = r'.fields) :
    Filter.accepts (relationshipFilter owner field) (StoredRecord.toRecord r id).content =
      Filter.accepts (relationshipFilter owner field) (StoredRecord.toRecord r' id).content := by
  have hleaf : ∀ key x, key ≠ Record.idKey → key ≠ Record.revisionKey →
      Filter.accepts (.equalTo (.field key) x) (StoredRecord.toRecord r id).content =
        Filter.accepts (.equalTo (.field key) x) (StoredRecord.toRecord r' id).content := by
    intro key x hid hrevision
    apply Filter.accepts_equalTo_congr
    rw [Record.get?_withBookkeeping hid hrevision, Record.get?_withBookkeeping hid hrevision, h]
  simp only [relationshipFilter, Filter.accepts, Filter.acceptsAny, Filter.acceptsAll]
  rw [hleaf Edge.firstIdKey _ (by decide) (by decide),
    hleaf Edge.firstNameKey _ (by decide) (by decide),
    hleaf Edge.secondIdKey _ (by decide) (by decide),
    hleaf Edge.secondNameKey _ (by decide) (by decide)]

end MemoryStore

/-! ### Records at a field -/

namespace BoundField

variable {b : BoundField} {owner id : String} {s t : MemoryStore} {e : Edge} {r : StoredRecord}

/-- A record that a query for the edges at the field of an owner finds. -/
structure RecordAt (b : BoundField) (owner : String) (s : MemoryStore) (id : String)
    (r : StoredRecord) : Prop where
  isId : Path.IsId id
  stored : s.cell b.edgeContainer id = some r
  accepted : Filter.accepts (MemoryStore.relationshipFilter owner b.field.name)
    (StoredRecord.toRecord r id).content = true

theorem mem_related (hs : s.WellFormed) (hc : Path.IsAddress b.edgeContainer) {record : Record} :
    record ∈ s.related b.edgeContainer owner b.field.name ↔
      ∃ id r, b.RecordAt owner s id r ∧ record = StoredRecord.toRecord r id := by
  unfold MemoryStore.related
  rw [List.mem_filter, MemoryStore.mem_container hs hc.isContainer_trim]
  constructor
  · rintro ⟨⟨id, r, hid, hr, rfl⟩, haccepts⟩
    exact ⟨id, r, ⟨hid, hr, haccepts⟩, rfl⟩
  · rintro ⟨id, r, ⟨hid, hr, haccepts⟩, rfl⟩
    exact ⟨⟨id, r, hid, hr, rfl⟩, haccepts⟩

theorem exists_recordAt (hedge : s.HasEdge b.edgeContainer id e)
    (hinvolves : e.involves owner b.field.name = true) : ∃ r, b.RecordAt owner s id r := by
  obtain ⟨hid, r, hr, he⟩ := hedge
  have haccepts := (Edge.shows_of_ofRecord he).accepts_relationshipFilter owner b.field.name
  rw [hinvolves] at haccepts
  exact ⟨r, hid, hr, haccepts⟩

theorem exists_answer_existingEdges (hs : s.WellFormed) (hc : Path.IsAddress b.edgeContainer)
    (h : ∀ id stored, b.RecordAt owner s id stored →
      ∃ e, Edge.ofRecord (StoredRecord.toRecord stored id) = .ok e) :
    ∃ es, (b.existingEdges owner).answer s = .ok es := by
  have hedges : ∀ record ∈ s.related b.edgeContainer owner b.field.name,
      ∃ e, Edge.ofRecord record = .ok e := by
    intro record hrecord
    obtain ⟨id, stored, hat, rfl⟩ := (mem_related hs hc).1 hrecord
    exact h id stored hat
  obtain ⟨es, hes⟩ := Result.exists_mapM_eq_ok hedges
  exact ⟨es, (answer_existingEdges_eq_ok b owner s es).2 hes⟩

/-- A reference of a value of client forms is that of an edge at the field. -/
theorem Existing.exists_of_mem {es : List Edge} (hes : b.Existing owner s es)
    {value : List Reference} {r : Reference}
    (hvalue : value.map Reference.bare = (b.formsOf owner es).map Reference.bare)
    (hr : r ∈ value) :
    ∃ id e, s.HasEdge b.edgeContainer id e ∧ e.involves owner b.field.name = true ∧
      r.bare = (Reference.ofEdge e owner b.field.name).bare := by
  have hbare : r.bare ∈ (b.formsOf owner es).map Reference.bare := by
    rw [← hvalue]
    exact List.mem_map_of_mem hr
  obtain ⟨form, hform, heq⟩ := List.mem_map.1 hbare
  obtain ⟨e, he, rfl⟩ := List.mem_map.1 hform
  obtain ⟨hinvolves, id, hedge⟩ := (hes.mem e).1 he
  exact ⟨id, e, hedge, hinvolves, heq.symm⟩

theorem RecordAt.involves (h : b.RecordAt owner s id r)
    (he : Edge.ofRecord (StoredRecord.toRecord r id) = .ok e) :
    e.involves owner b.field.name = true := by
  rw [← (Edge.shows_of_ofRecord he).accepts_relationshipFilter]
  exact h.accepted

end BoundField

namespace Collection

variable {b : BoundField} {owner id : String} {value : List Reference} {s t : MemoryStore}
  {r : Reference} {e : Edge} {touched : String → Prop}

/-! ### Values that mirror a store -/

/-- A reference names a stored edge at the field and says what the store says of it. -/
structure Reflects (b : BoundField) (owner : String) (s : MemoryStore) (r : Reference)
    (id : String) (e : Edge) : Prop where
  isId : Path.IsId id
  stored : ∃ revision, s.cell b.edgeContainer id = some ⟨revision, e.content⟩
  involves : e.involves owner b.field.name = true
  named : r.edgeId? = some id
  target : r.target = some (e.opposite owner b.field.name)
  properties : r.edgeProperties = e.properties

/-- A value reflects the edges at the field, all of them. -/
structure Mirrors (b : BoundField) (owner : String) (value : List Reference) (s : MemoryStore) :
    Prop where
  reflects : ∀ r ∈ value, ∃ id e, Reflects b owner s r id e
  complete : ∀ id stored, b.RecordAt owner s id stored → ∃ r ∈ value, r.edgeId? = some id

namespace Reflects

theorem exists_edge (h : Reflects b owner s r id e) :
    ∃ e', s.HasEdge b.edgeContainer id e' ∧ e'.involves owner b.field.name = true ∧
      (Reference.ofEdge e' owner b.field.name).identity = r.identity := by
  have hplain : Record.withoutBookkeeping e.properties = e.properties := by
    rw [← h.properties]
    exact (Reference.plain_edgeProperties r).withoutBookkeeping_eq
  obtain ⟨revision, hstored⟩ := h.stored
  refine ⟨_, .of_content h.isId hstored, h.involves, ?_⟩
  unfold Reference.identity
  rw [Reference.edgeProperties_ofEdge, h.target, h.properties]
  show Reference.Identity.mk _ (Json.obj (Record.withoutBookkeeping e.properties)).text = _
  rw [hplain]
  rfl

/-- Writing a reference leaves the edge that it reflects as it is. -/
theorem content_updatedEdge (h : Reflects b owner s r id e) (revision : Option String) :
    (b.updatedEdge owner { e with id := some id, revision } (e.opposite owner b.field.name)
      r).content = e.content := by
  have hfirst : Edge.firstIs { e with id := some id, revision } owner b.field.name =
      e.firstIs owner b.field.name := rfl
  unfold BoundField.updatedEdge Edge.retarget Edge.opposite
  rw [hfirst, h.properties]
  cases e.firstIs owner b.field.name with
  | true => exact Edge.content_congr rfl rfl rfl rfl rfl
  | false => exact Edge.content_congr rfl rfl rfl rfl rfl

theorem of_same (h : Reflects b owner s r id e)
    (hsame : MemoryStore.SameButRevisions b.edgeContainer touched s t) :
    Reflects b owner t r id e := by
  obtain ⟨revision, hstored⟩ := h.stored
  obtain ⟨⟨revision', fields⟩, hstored', hfields⟩ := hsame.exists_get? hstored
  cases hfields
  exact ⟨h.isId, ⟨revision', hstored'⟩, h.involves, h.named, h.target, h.properties⟩

end Reflects

namespace Mirrors

theorem of_same (h : Mirrors b owner value s)
    (hsame : MemoryStore.SameButRevisions b.edgeContainer touched s t) :
    Mirrors b owner value t where
  reflects := by
    intro r hr
    obtain ⟨id, e, hreflects⟩ := h.reflects r hr
    exact ⟨id, e, hreflects.of_same hsame⟩
  complete := by
    intro id stored hat
    obtain ⟨stored', hstored', hfields⟩ := hsame.symm.exists_get? hat.stored
    have haccepts := MemoryStore.accepts_relationshipFilter_congr owner b.field.name id hfields
    exact h.complete id stored' ⟨hat.isId, hstored', haccepts.trans hat.accepted⟩

theorem exists_existing (h : Mirrors b owner value s) (hs : s.WellFormed)
    (hc : Path.IsAddress b.edgeContainer) :
    ∃ es, (b.existingEdges owner).answer s = .ok es := by
  apply BoundField.exists_answer_existingEdges hs hc
  intro id stored hat
  obtain ⟨r, hr, hnamed⟩ := h.complete id stored hat
  obtain ⟨id', e, hreflects⟩ := h.reflects r hr
  rw [hreflects.named] at hnamed
  cases hnamed
  obtain ⟨revision, hstored⟩ := hreflects.stored
  rw [hat.stored] at hstored
  cases hstored
  exact ⟨_, Edge.ofRecord_content e _ _⟩

theorem nodup_edgeIds (h : Mirrors b owner value s)
    (hdistinct : Reference.checkDistinct value = .ok ()) :
    (value.filterMap Reference.edgeId?).Nodup := by
  rw [Reference.checkDistinct_eq_ok, List.pairwise_map] at hdistinct
  unfold List.Nodup
  rw [List.pairwise_filterMap]
  apply hdistinct.imp_of_mem
  intro r r' hr hr' hne id hid id' hid' heq
  obtain ⟨_, e, hreflects⟩ := h.reflects r hr
  obtain ⟨_, e', hreflects'⟩ := h.reflects r' hr'
  rw [hreflects.named] at hid
  rw [hreflects'.named] at hid'
  cases hid
  cases hid'
  cases heq
  obtain ⟨_, hedge, _, hidentity⟩ := hreflects.exists_edge
  obtain ⟨_, hedge', _, hidentity'⟩ := hreflects'.exists_edge
  apply hne
  rw [← hidentity, ← hidentity', hedge.unique hedge']

theorem countP_isNone (h : Mirrors b owner value s) : value.countP (·.edgeId?.isNone) = 0 := by
  rw [List.countP_eq_zero]
  intro r hr
  obtain ⟨_, _, hreflects⟩ := h.reflects r hr
  rw [hreflects.named]
  simp

/-- The references are known to the field, so that none of them is validated again. -/
theorem answer_validateNew (h : Mirrors b owner value s)
    (hdistinct : Reference.checkDistinct value = .ok ()) (appending : Bool) {es : List Edge}
    (hes : b.Existing owner s es) :
    (b.validateNew owner appending (b.formsOf owner es) value).answer s = .ok () := by
  rw [BoundField.answer_validateNew_eq_ok]
  refine ⟨hdistinct, ?_⟩
  intro r hr hunknown
  obtain ⟨id, e, hreflects⟩ := h.reflects r hr
  obtain ⟨_, hedge, hinvolves, hidentity⟩ := hreflects.exists_edge
  have hmem := (hes.mem_iff.2 ⟨hedge, hinvolves⟩).1
  refine absurd ?_ hunknown
  rw [← hidentity]
  exact List.mem_map_of_mem (List.mem_map_of_mem hmem)

/-- **A value that mirrors the store is not refused.** -/
theorem exists_plan (h : Mirrors b (b.ownerPath id) value s) (hs : s.WellFormed)
    (hc : Path.IsAddress b.edgeContainer)
    (howner : ∃ record, s.read (b.ownerPath id) = .ok record)
    (hshapes : value.forM b.checkShape = .ok ())
    (hdistinct : Reference.checkDistinct value = .ok ()) :
    ∃ p, (plan b true id value).answer s = .ok p := by
  obtain ⟨es, hfound⟩ := h.exists_existing hs hc
  have hexisting := BoundField.existing_of_answer hs hc hfound
  by_cases hne : value = []
  · subst hne
    rw [answer_plan_nil_replacing, hfound]
    exact ⟨⟨es.map BoundField.removalOf, []⟩, by
      simp only [bind, Except.bind, hexisting.mapM_deleteOperation (List.Sublist.refl es)]⟩
  · have hwritten : ∀ r ∈ value, ∃ o, writeOf b (b.ownerPath id) es r = .ok o := by
      intro r hr
      obtain ⟨_, e, hreflects⟩ := h.reflects r hr
      obtain ⟨_, hedge, hinvolves, _⟩ := hreflects.exists_edge
      exact ⟨_, (writeOf_eq_ok hexisting).2
        (.update hreflects.named hedge hinvolves hreflects.target)⟩
    obtain ⟨ws, hws⟩ := Result.exists_mapM_eq_ok hwritten
    have howned := BoundField.answer_checkOwner_of_read howner
    have hvalid := h.answer_validateNew hdistinct (!true) hexisting
    refine ⟨⟨(removed true es value).map BoundField.removalOf, ordered ws⟩, ?_⟩
    rw [answer_plan_eq_ok hs hc hne]
    exact ⟨es, hdistinct, hshapes, howned, hfound, hvalid, ⟨ws, hws, rfl⟩, rfl⟩

section Drawn

variable {p : Plan} (h : Mirrors b owner value s) (hc : Path.IsAddress b.edgeContainer)
  (hdistinct : Reference.checkDistinct value = .ok ()) (hdrawn : Drawn b true owner value s p)
  (hfits : p.Fits b.edgeContainer s) (hfresh : s.FreshIds (Batch.draws p.writes))

include h hc hdistinct hdrawn hfits hfresh

/-- A plan for a value that mirrors the store changes the edges that it names, at most. -/
theorem named_of_changed {path : String}
    (hchanged : Dict.get? (Batch.after b.edgeContainer s p.operations).records path ≠
      Dict.get? s.records path) :
    ∃ id, path = Path.join (Path.trim b.edgeContainer) id ∧ ∃ r ∈ value, r.edgeId? = some id := by
  have hnamed := h.nodup_edgeIds hdistinct
  obtain ⟨id, hpath, hplace⟩ := hdrawn.changed_place hfits hc hfresh hnamed hchanged
  refine ⟨id, hpath, ?_⟩
  rcases hplace with hvalue | ⟨_, e, hunnamed⟩ | ⟨r, hr, hnone, _⟩
  · exact hvalue
  · obtain ⟨stored, hat⟩ := BoundField.exists_recordAt hunnamed.stored hunnamed.involves
    exact h.complete id stored hat
  · obtain ⟨_, _, hreflects⟩ := h.reflects r hr
    rw [hreflects.named] at hnone
    cases hnone

/-- The edge that a reference names has the content that it had. -/
theorem cell_after_named (hr : r ∈ value) (hreflects : Reflects b owner s r id e) :
    ∃ revision, (Batch.after b.edgeContainer s p.operations).cell b.edgeContainer id =
      some ⟨revision, e.content⟩ := by
  have hnamed := h.nodup_edgeIds hdistinct
  obtain ⟨o, ho, hwrite⟩ := hdrawn.exists_writeOf hr
  obtain ⟨i, _, _, revision, hcell⟩ := Batch.exists_cell_after b.edgeContainer
    (hdrawn.places hfits hc hfresh hnamed) ho
  cases hwrite with
  | create hnone =>
    rw [hreflects.named] at hnone
    cases hnone
  | @update _ target e' hid hedge _ htarget =>
    rw [hreflects.named] at hid
    cases hid
    rw [hreflects.target] at htarget
    cases htarget
    obtain ⟨revision', hstored⟩ := hreflects.stored
    have he' := hedge.unique (.of_content hreflects.isId hstored)
    have hcontent := hreflects.content_updatedEdge (some (toString revision'))
    rw [← he'] at hcontent
    rw [← hcontent]
    exact ⟨revision, hcell⟩

/-- What a plan for a value that mirrors the store makes of it. -/
theorem same_after (hdraws : Batch.draws p.writes = 0) :
    MemoryStore.SameButRevisions b.edgeContainer (fun id => ∃ r ∈ value, r.edgeId? = some id) s
      (Batch.after b.edgeContainer s p.operations) where
  serials := by rw [Batch.serials_after, hfits.draws_operations, hdraws, Nat.add_zero]
  fields := by
    intro path
    by_cases hsame : Dict.get? (Batch.after b.edgeContainer s p.operations).records path =
        Dict.get? s.records path
    · rw [hsame]
    · obtain ⟨id, rfl, r, hr, hid⟩ := h.named_of_changed hc hdistinct hdrawn hfits hfresh hsame
      obtain ⟨_, e, hreflects⟩ := h.reflects r hr
      rw [hreflects.named] at hid
      cases hid
      obtain ⟨revision, hcell⟩ := h.cell_after_named hc hdistinct hdrawn hfits hfresh hr hreflects
      obtain ⟨revision', hstored⟩ := hreflects.stored
      unfold MemoryStore.cell at hcell hstored
      rw [hcell, hstored]
      rfl
  elsewhere := fun _ hchanged => h.named_of_changed hc hdistinct hdrawn hfits hfresh hchanged

end Drawn

/-- **Writing a value that mirrors the store changes nothing but revisions.** -/
theorem set_same (h : Mirrors b (b.ownerPath id) value s) (hs : s.WellFormed)
    (hc : Path.IsAddress b.edgeContainer)
    (howner : ∃ record, s.read (b.ownerPath id) = .ok record)
    (hshapes : value.forM b.checkShape = .ok ())
    (hdistinct : Reference.checkDistinct value = .ok ()) :
    ∃ written t, set b true id value s = (.ok written, t) ∧
      MemoryStore.SameButRevisions b.edgeContainer (fun id => ∃ r ∈ value, r.edgeId? = some id)
        s t := by
  obtain ⟨p, hplan⟩ := h.exists_plan hs hc howner hshapes hdistinct
  obtain ⟨hfits, hdraws⟩ := fits_of_answer_plan hs hc hplan
  have hfresh : s.FreshIds (value.countP (·.edgeId?.isNone)) := by
    rw [h.countP_isNone]
    exact s.freshIds_zero
  obtain ⟨written, hrun, _⟩ := set_of_answer_plan_ok hs hc hfresh hplan
  have hdrawn := drawn_of_answer_plan hs hc hplan
  rw [← hdraws] at hfresh
  rw [h.countP_isNone] at hdraws
  exact ⟨written, _, hrun, h.same_after hc hdistinct hdrawn hfits hfresh hdraws⟩

end Mirrors

end Collection

namespace BoundField

variable {b : BoundField} {owner id : String} {s : MemoryStore}

/-! ### Repeated writes -/

/-- Writes a value with `replacing` a number of times. -/
def setRepeatedly (b : BoundField) (id : String) (value : Json) : Nat → EngineM MemoryStore Unit
  | 0 => pure ()
  | n + 1 => do
    let _ ← b.setValue true id value
    setRepeatedly b id value n

theorem setRepeatedly_of_mirrors (hs : s.WellFormed) (hc : Path.IsAddress b.edgeContainer)
    (hcollection : b.field.cardinality = .collection)
    (howner : ∃ record, s.read (b.ownerPath id) = .ok record) {json : Json}
    {value : List Reference} (hjson : Reference.listOfJson json = .ok value)
    (hshapes : value.forM b.checkShape = .ok ())
    (hdistinct : Reference.checkDistinct value = .ok ())
    (h : Collection.Mirrors b (b.ownerPath id) value s) (n : Nat) :
    ∃ t, b.setRepeatedly id json n s = (.ok (), t) ∧
      MemoryStore.SameButRevisions b.edgeContainer (fun id => ∃ r ∈ value, r.edgeId? = some id)
        s t := by
  -- the value mirrors the store after each write, whatever the revisions have become
  induction n generalizing s with
  | zero => exact ⟨s, rfl, .refl _ _ s⟩
  | succ n ih =>
    obtain ⟨written, t, hset, hsame⟩ := h.set_same hs hc howner hshapes hdistinct
    obtain ⟨u, hrest, hsame'⟩ := ih (hsame.wellFormed hs) (hsame.exists_read howner)
      (h.of_same hsame)
    have hfirst : b.setValue true id json s = (.ok (Reference.listToJson written), t) := by
      unfold setValue
      rw [hcollection]
      show (ofResult (Reference.listOfJson json) >>= fun value =>
        Reference.listToJson <$> Collection.set b true id value) s = _
      rw [hjson, ofResult_ok_bind, map_apply, hset]
    refine ⟨u, ?_, hsame.trans hsame'⟩
    unfold setRepeatedly
    rw [bind_ok hfirst]
    exact hrest

/-! ### Fields that are read and written back -/

/-- The edges at the field of an owner were written by the engine, keep the rules of the
    field, and are different relationships. -/
structure Regular (b : BoundField) (owner : String) (s : MemoryStore) : Prop where
  authored : ∀ id stored, b.RecordAt owner s id stored → stored.Authored
  shapes : ∀ id e, s.HasEdge b.edgeContainer id e → e.involves owner b.field.name = true →
    b.checkShape (.ofEdge e owner b.field.name) = .ok ()
  distinct : ∀ id id' e e', s.HasEdge b.edgeContainer id e →
    e.involves owner b.field.name = true → s.HasEdge b.edgeContainer id' e' →
    e'.involves owner b.field.name = true →
    (Reference.ofEdge e owner b.field.name).identity =
      (Reference.ofEdge e' owner b.field.name).identity → id = id'

/-- **What calls leave at a field is authored**, through whatever fields they were made, if what
    was there before them is. -/
theorem RecordAt.authored_of_run {Allowed : BoundField → MemoryStore → Call → Prop}
    {stored : StoredRecord} (hat : b.RecordAt owner t id stored) (hrun : Run Allowed s t)
    (hs : ∀ id stored, b.RecordAt owner s id stored → stored.Authored) : stored.Authored := by
  rcases hrun.authored hat.stored with hbefore | hauthored
  · exact hs id stored ⟨hat.isId, hbefore, hat.accepted⟩
  · exact hauthored

namespace Regular

variable {es : List Edge} {value : List Reference}

/-- A record at the field is an edge without bookkeeping among its properties. -/
theorem exists_edge (h : b.Regular owner s) {stored : StoredRecord}
    (hat : b.RecordAt owner s id stored) :
    ∃ e, s.HasEdge b.edgeContainer id e ∧ e.involves owner b.field.name = true ∧
      stored.fields = e.content ∧ Record.Plain e.properties := by
  obtain ⟨revision, fields⟩ := stored
  obtain ⟨e, hfields, hplain⟩ := h.authored id _ hat
  cases hfields
  have hread := Edge.ofRecord_content e id (toString revision)
  exact ⟨_, ⟨hat.isId, _, hat.stored, hread⟩, hat.involves hread, rfl, hplain⟩

theorem exists_existing (h : b.Regular owner s) (hs : s.WellFormed)
    (hc : Path.IsAddress b.edgeContainer) :
    ∃ es, (b.existingEdges owner).answer s = .ok es := by
  apply exists_answer_existingEdges hs hc
  intro id stored hat
  obtain ⟨e, ⟨_, stored', hstored', he⟩, _⟩ := h.exists_edge hat
  rw [hat.stored] at hstored'
  cases hstored'
  exact ⟨e, he⟩

/-- The client form of an edge reflects it. -/
theorem reflects (h : b.Regular owner s) {e : Edge} (hedge : s.HasEdge b.edgeContainer id e)
    (hinvolves : e.involves owner b.field.name = true) {r : Reference}
    (hbare : r.bare = (Reference.ofEdge e owner b.field.name).bare) :
    Collection.Reflects b owner s r id e := by
  obtain ⟨stored, hat⟩ := exists_recordAt hedge hinvolves
  obtain ⟨e', hedge', _, hfields, hplain⟩ := h.exists_edge hat
  rw [hedge'.unique hedge] at hfields hplain
  refine ⟨hedge.isId, ⟨stored.revision, ?_⟩, hinvolves, ?_, ?_, ?_⟩
  · rw [hat.stored, ← hfields]
  · rw [Reference.edgeId?_eq_of_bare hbare]
    exact Reference.edgeId?_ofEdge hedge.id_eq
  · rw [Reference.target_eq_of_bare hbare]
    rfl
  · rw [Reference.edgeProperties_eq_of_bare hbare, Reference.edgeProperties_ofEdge]
    exact hplain.withoutBookkeeping_eq

/-- **The client forms of the edges at the field mirror the store.** -/
theorem mirrors (h : b.Regular owner s) (hes : b.Existing owner s es)
    (hvalue : value.map Reference.bare = (b.formsOf owner es).map Reference.bare) :
    Collection.Mirrors b owner value s where
  reflects := by
    intro r hr
    obtain ⟨id, e, hedge, hinvolves, hbare⟩ := hes.exists_of_mem hvalue hr
    exact ⟨id, e, h.reflects hedge hinvolves hbare⟩
  complete := by
    intro id stored hat
    obtain ⟨e, hedge, hinvolves, _⟩ := h.exists_edge hat
    have hform : (Reference.ofEdge e owner b.field.name).bare ∈ value.map Reference.bare := by
      rw [hvalue]
      exact List.mem_map_of_mem (List.mem_map_of_mem ((hes.mem e).2 ⟨hinvolves, id, hedge⟩))
    obtain ⟨r, hr, hbare⟩ := List.mem_map.1 hform
    refine ⟨r, hr, ?_⟩
    rw [Reference.edgeId?_eq_of_bare hbare]
    exact Reference.edgeId?_ofEdge hedge.id_eq

theorem forM_checkShape (h : b.Regular owner s) (hes : b.Existing owner s es)
    (hvalue : value.map Reference.bare = (b.formsOf owner es).map Reference.bare) :
    value.forM b.checkShape = .ok () := by
  rw [Result.forM_eq_ok_iff]
  intro r hr
  obtain ⟨id, e, hedge, hinvolves, hbare⟩ := hes.exists_of_mem hvalue hr
  rw [b.checkShape_eq_of_bare hbare]
  exact h.shapes id e hedge hinvolves

theorem checkDistinct (h : b.Regular owner s) (hes : b.Existing owner s es)
    (hvalue : value.map Reference.bare = (b.formsOf owner es).map Reference.bare) :
    Reference.checkDistinct value = .ok () := by
  have hidentities : value.map Reference.identity =
      (b.formsOf owner es).map Reference.identity := by
    have hmap := congrArg (List.map Reference.identity) hvalue
    rw [List.map_map, List.map_map] at hmap
    exact hmap
  rw [Reference.checkDistinct_eq_ok, hidentities]
  unfold formsOf
  rw [List.map_map, List.pairwise_map]
  apply hes.distinct.imp_of_mem
  intro e e' he he' hne heq
  obtain ⟨hinvolves, id, hedge⟩ := (hes.mem e).1 he
  obtain ⟨hinvolves', id', hedge'⟩ := (hes.mem e').1 he'
  have hid := h.distinct id id' e e' hedge hinvolves hedge' hinvolves' heq
  rw [hedge.id_eq, hedge'.id_eq, hid] at hne
  exact hne rfl

end Regular

/-- **Writing back what was read changes nothing but revisions**, however often the value is
    written: no record is created or removed, every record keeps its fields, and all but the
    edges at the field keep their revisions too. -/
theorem getValue_writes_back (b : BoundField) (context : Context) (id : String) (s : MemoryStore)
    (hs : s.WellFormed) (hsettings : b.settings.Accepted)
    (hcollection : b.field.cardinality = .collection)
    (howner : ∃ record, s.read (b.ownerPath id) = .ok record)
    (hregular : b.Regular (b.ownerPath id) s) :
    ∃ xs, b.getValue context id s = (.ok (.arr xs), s) ∧
      ∀ n, ∃ t, b.setRepeatedly id (.arr xs) n s = (.ok (), t) ∧
        MemoryStore.SameButRevisions b.edgeContainer
          (fun id' => ∃ stored, b.RecordAt (b.ownerPath id) s id' stored) s t := by
  have hc : Path.IsAddress b.edgeContainer := hsettings.isAddress
  obtain ⟨es, hfound⟩ := hregular.exists_existing hs hc
  have hexisting := existing_of_answer hs hc hfound
  obtain ⟨xs, value, hget, hjson, hvalue⟩ := getValue_of_existing context id hcollection hfound
  have hmirrors := hregular.mirrors hexisting hvalue
  have hshapes := hregular.forM_checkShape hexisting hvalue
  have hdistinct := hregular.checkDistinct hexisting hvalue
  refine ⟨xs, hget, fun n => ?_⟩
  obtain ⟨t, hrun, hsame⟩ :=
    setRepeatedly_of_mirrors hs hc hcollection howner hjson hshapes hdistinct hmirrors n
  refine ⟨t, hrun, hsame.mono ?_⟩
  rintro id' ⟨r, hr, hnamed⟩
  obtain ⟨_, e, hreflects⟩ := hmirrors.reflects r hr
  rw [hreflects.named] at hnamed
  cases hnamed
  obtain ⟨_, hedge, hinvolves, _⟩ := hreflects.exists_edge
  exact exists_recordAt hedge hinvolves

end BoundField

/-! ### A field with edges made from both sides -/

namespace Sample

theorem join_ne_edges {c id id' : String} (hc : Path.IsContainer c) (hid : Path.IsId id)
    (hid' : Path.IsId id') (hne : c ≠ "repo/relationships") :
    Path.join c id' ≠ Path.join "repo/relationships" id := by
  intro heq
  exact hne ((Path.join_inj hc isContainer_edges hid' hid).1 heq).1

theorem cell_store {id : String} {stored : StoredRecord} (hid : Path.IsId id)
    (h : store.cell roles.edgeContainer id = some stored) :
    (id = "e1" ∧ stored = ⟨5, assigned.content⟩) ∨ (id = "e2" ∧ stored = ⟨6, joined.content⟩) := by
  have hroles : ∀ id' ∈ ["1", "2", "3", "e1", "e2"],
      Path.join "managed/role" id' ≠ Path.join "repo/relationships" id := fun id' hid' =>
    join_ne_edges isContainer_roles hid (isId_of_mem id' hid') (by decide)
  have husers : Path.join "managed/user" "1" ≠ Path.join "repo/relationships" id :=
    join_ne_edges isContainer_users hid (isId_of_mem _ (by decide)) (by decide)
  have htrim : Path.trim roles.edgeContainer = "repo/relationships" := isContainer_edges.trim_eq
  unfold MemoryStore.cell at h
  rw [htrim] at h
  unfold store seeds at h
  simp only [MemoryStore.get?_put, if_neg husers, if_neg (hroles "1" (by decide)),
    if_neg (hroles "2" (by decide)), if_neg (hroles "3" (by decide)), Path.join_right_inj] at h
  split at h
  · rename_i heq
    cases h
    exact .inr ⟨heq.symm, rfl⟩
  · split at h
    · rename_i heq
      cases h
      exact .inl ⟨heq.symm, rfl⟩
    · cases h

theorem hasEdge_store {id : String} {e : Edge} (h : store.HasEdge roles.edgeContainer id e) :
    (id = "e1" ∧ e = { assigned with id := some "e1", revision := some "5" }) ∨
      (id = "e2" ∧ e = { joined with id := some "e2", revision := some "6" }) := by
  obtain ⟨hid, stored, hstored, he⟩ := h
  rcases cell_store hid hstored with ⟨rfl, rfl⟩ | ⟨rfl, rfl⟩
  · cases he
    exact .inl ⟨rfl, rfl⟩
  · cases he
    exact .inr ⟨rfl, rfl⟩

theorem exists_read_owner : ∃ record, store.read (roles.ownerPath "1") = .ok record :=
  Result.eq_ok_of_isOk (by decide +kernel)

theorem regular_roles : roles.Regular (roles.ownerPath "1") store where
  authored := by
    intro id stored hat
    rcases cell_store hat.isId hat.stored with ⟨_, rfl⟩ | ⟨_, rfl⟩
    · exact ⟨assigned, rfl, rfl, rfl⟩
    · exact ⟨joined, rfl, rfl, rfl⟩
  shapes := by
    intro id e hedge _
    rcases hasEdge_store hedge with ⟨_, rfl⟩ | ⟨_, rfl⟩
    · exact (Result.eq_ok_of_isOk (by decide +kernel)).elim fun _ h => h
    · exact (Result.eq_ok_of_isOk (by decide +kernel)).elim fun _ h => h
  distinct := by
    intro id id' e e' hedge _ hedge' _ heq
    rcases hasEdge_store hedge with ⟨rfl, rfl⟩ | ⟨rfl, rfl⟩ <;>
      rcases hasEdge_store hedge' with ⟨rfl, rfl⟩ | ⟨rfl, rfl⟩
    · rfl
    · exact absurd heq (by decide +kernel)
    · exact absurd heq (by decide +kernel)
    · rfl

end Sample

namespace BoundField

/-- The edges of a user's roles are read and written back. -/
theorem getValue_writes_back_roles :
    ∃ xs, Sample.roles.getValue (.fresh 0) "1" Sample.store = (.ok (.arr xs), Sample.store) ∧
      ∀ n, ∃ t, Sample.roles.setRepeatedly "1" (.arr xs) n Sample.store = (.ok (), t) ∧
        MemoryStore.SameButRevisions Sample.roles.edgeContainer
          (fun id => ∃ stored, Sample.roles.RecordAt (Sample.roles.ownerPath "1") Sample.store id
            stored) Sample.store t :=
  getValue_writes_back Sample.roles (.fresh 0) "1" Sample.store Sample.wellFormed_store
    Sample.accepted_roles rfl Sample.exists_read_owner Sample.regular_roles

end BoundField

end EdgeFields
