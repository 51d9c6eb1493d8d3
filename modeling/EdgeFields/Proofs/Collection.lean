/-
  EdgeFields/Proofs/Collection.lean
  =================================
  **Writes of collection fields, split into a plan and its performance.**

  `Collection.plan` does everything that `Collection.set` does before its first write, and
  nothing else; `Collection.set_eq_plan` puts the two together again. What a plan depends
  on is stated in `Collection.Planned`, and every plan fits the store that it was made for
  (`Collection.Planned.fits`).

  The write of a single reference is the same for fields of either cardinality
  (`BoundField.WriteOf`): a creation, or an update of the edge that the reference names.
  `BoundField.WriteFrom` says the same of the edges that were found, whatever the store.
-/
import EdgeFields.Proofs.Plan
import EdgeFields.Proofs.Reference
import EdgeFields.Proofs.Validation

namespace EdgeFields

open EngineM

/-! ### Writes of single references -/

namespace BoundField

variable {b : BoundField} {owner target : String} {s : MemoryStore} {es : List Edge}
  {r : Reference} {o : Operation} {e : Edge}

/-- The edge that a new reference becomes. -/
def createdEdge (b : BoundField) (owner target : String) (r : Reference) : Edge where
  firstId := owner
  firstName := b.field.name
  secondId := target
  secondName := b.field.reverseName
  properties := r.edgeProperties

/-- What becomes of a stored edge that a reference names. -/
def updatedEdge (b : BoundField) (owner : String) (e : Edge) (target : String) (r : Reference) :
    Edge :=
  { e.retarget owner b.field.name target with
    id := none, revision := none, properties := r.edgeProperties }

/-- The write of a reference to the field of an owner in a store. -/
inductive WriteOf (b : BoundField) (owner : String) (s : MemoryStore) (r : Reference) :
    Operation → Prop
  | create {target : String} (hid : r.edgeId? = none) (htarget : r.target = some target) :
    WriteOf b owner s r (.create (b.createdEdge owner target r))
  | update {id target : String} {e : Edge} (hid : r.edgeId? = some id)
    (hedge : s.HasEdge b.edgeContainer id e) (hinvolves : e.involves owner b.field.name = true)
    (htarget : r.target = some target) :
    WriteOf b owner s r (.update id none (b.updatedEdge owner e target r))

/-- The removal of a stored edge. -/
def removalOf (e : Edge) : Operation := .delete (e.id.getD "") e.revision

theorem removalOf_eq {id : String} (h : e.id = some id) :
    removalOf e = .delete id e.revision := by
  unfold removalOf
  rw [h]
  rfl

theorem createOperation_eq_ok :
    b.createOperation owner r = .ok o ↔
      ∃ target, r.target = some target ∧ o = .create (b.createdEdge owner target r) := by
  unfold createOperation newEdge targetOf
  cases r.target with
  | none => simp [Except.map]
  | some target => simp [Except.map, createdEdge, eq_comm]

theorem updateOperation_eq_ok :
    b.updateOperation owner e r = .ok o ↔
      ∃ id target, e.id = some id ∧ e.involves owner b.field.name = true ∧
        r.target = some target ∧ o = .update id none (b.updatedEdge owner e target r) := by
  unfold updateOperation
  cases e.id with
  | none => simp
  | some id =>
    cases e.involves owner b.field.name with
    | false => simp
    | true =>
      unfold targetOf
      cases r.target with
      | none => simp [Except.map]
      | some target => simp [Except.map, updatedEdge, eq_comm]

/-- The write of a reference to a field at which the given edges were found. -/
inductive WriteFrom (b : BoundField) (owner : String) (es : List Edge) (r : Reference) :
    Operation → Prop
  | create {target : String} (hid : r.edgeId? = none) (htarget : r.target = some target) :
    WriteFrom b owner es r (.create (b.createdEdge owner target r))
  | update {id target : String} {e : Edge} (hid : r.edgeId? = some id) (he : e ∈ es)
    (heid : e.id = some id) (hinvolves : e.involves owner b.field.name = true)
    (htarget : r.target = some target) :
    WriteFrom b owner es r (.update id none (b.updatedEdge owner e target r))

theorem writeFrom_of_create (hid : r.edgeId? = none) (h : b.createOperation owner r = .ok o) :
    b.WriteFrom owner es r o := by
  obtain ⟨target, htarget, rfl⟩ := createOperation_eq_ok.1 h
  exact .create hid htarget

theorem writeFrom_of_update {id : String} (hid : r.edgeId? = some id) (he : e ∈ es)
    (heid : e.id = some id) (h : b.updateOperation owner e r = .ok o) :
    b.WriteFrom owner es r o := by
  obtain ⟨id', target, heid', hinvolves, htarget, rfl⟩ := updateOperation_eq_ok.1 h
  rw [heid] at heid'
  cases heid'
  exact .update hid he heid hinvolves htarget

theorem mapM_deleteOperation (h : ∀ e ∈ es, ∃ id, e.id = some id) :
    es.mapM deleteOperation = .ok (es.map removalOf) := by
  apply Result.mapM_eq_ok_map
  intro e he
  obtain ⟨id, hid⟩ := h e he
  rw [removalOf_eq hid]
  simp only [deleteOperation, hid]

namespace Existing

/-- The edges that are found under an identifier are the stored ones at the field. -/
theorem mem_iff (h : b.Existing owner s es) {id : String} :
    e ∈ es ∧ e.id = some id ↔
      s.HasEdge b.edgeContainer id e ∧ e.involves owner b.field.name = true := by
  constructor
  · rintro ⟨he, heid⟩
    obtain ⟨id', hid', hedge⟩ := h.hasEdge he
    rw [heid] at hid'
    cases hid'
    exact ⟨hedge, ((h.mem e).1 he).1⟩
  · rintro ⟨hedge, hinvolves⟩
    exact ⟨(h.mem e).2 ⟨hinvolves, id, hedge⟩, hedge.id_eq⟩

theorem writeOf_of_writeFrom (h : b.Existing owner s es) (hwrite : b.WriteFrom owner es r o) :
    b.WriteOf owner s r o := by
  cases hwrite with
  | create hid htarget => exact .create hid htarget
  | update hid he heid hinvolves htarget =>
    exact .update hid (h.mem_iff.1 ⟨he, heid⟩).1 hinvolves htarget

theorem mapM_deleteOperation (h : b.Existing owner s es) {gone : List Edge}
    (hsub : gone.Sublist es) : gone.mapM deleteOperation = .ok (gone.map removalOf) := by
  apply BoundField.mapM_deleteOperation
  intro e he
  obtain ⟨id, hid, _⟩ := h.hasEdge (hsub.subset he)
  exact ⟨id, hid⟩

theorem place_removalOf (h : b.Existing owner s es) (he : e ∈ es) (serial : Nat) :
    e.id = some ((removalOf e).place serial) := by
  obtain ⟨id, hid, _⟩ := h.hasEdge he
  rw [removalOf_eq hid]
  exact hid

/-- **A plan fits** that removes some of the edges at the field, once each, and whose other
    operations are writes of references that name none of those. -/
theorem fits (h : b.Existing owner s es) {gone : List Edge} (hsub : gone.Sublist es) {p : Plan}
    (hremovals : p.removals = gone.map removalOf)
    (hwrites : ∀ o ∈ p.writes, ∃ r, b.WriteOf owner s r o ∧ ∀ e ∈ gone, e.id ≠ r.edgeId?) :
    p.Fits b.edgeContainer s where
  removals := by
    intro o ho
    rw [hremovals] at ho
    obtain ⟨e, he, rfl⟩ := List.mem_map.1 ho
    obtain ⟨id, hid, hedge⟩ := h.hasEdge (hsub.subset he)
    exact ⟨id, e, hedge, removalOf_eq hid⟩
  apart := by
    rw [hremovals, List.pairwise_map]
    apply (h.distinct.sublist hsub).imp_of_mem
    intro e e' he he' hne heq
    rw [h.place_removalOf (hsub.subset he) 0, h.place_removalOf (hsub.subset he') 0, heq] at hne
    exact hne rfl
  writes := by
    intro o ho
    obtain ⟨r, hwrite, hgone⟩ := hwrites o ho
    cases hwrite with
    | create hid htarget => exact .inl ⟨_, rfl⟩
    | @update id target e hid hedge hinvolves htarget =>
      obtain ⟨hisId, stored, hstored, _⟩ := hedge
      refine .inr ⟨id, stored, _, hisId, hstored, rfl, ?_⟩
      intro o' ho' heq
      rw [hremovals] at ho'
      obtain ⟨e', he', rfl⟩ := List.mem_map.1 ho'
      have hne := hgone e' he'
      rw [h.place_removalOf (hsub.subset he') 0, heq, hid] at hne
      exact hne rfl

end Existing

end BoundField

instance : Nonempty Operation := ⟨.delete "" none⟩

namespace Collection

/-! ### Plans -/

/-- The edges that a write removes. -/
def removed (replacing : Bool) (existing : List Edge) (value : List Reference) : List Edge :=
  if replacing then unnamed existing value else []

theorem removed_sublist (replacing : Bool) (existing : List Edge) (value : List Reference) :
    (removed replacing existing value).Sublist existing := by
  unfold removed
  cases replacing with
  | true => exact List.filter_sublist
  | false => exact List.nil_sublist _

/-- The plan of writes in order: updates go first. -/
def ordered (writes : List Operation) : List Operation :=
  writes.filter (!isCreate ·) ++ writes.filter isCreate

theorem mem_ordered {writes : List Operation} {o : Operation} :
    o ∈ ordered writes ↔ o ∈ writes := by
  unfold ordered
  rw [List.mem_append, List.mem_filter, List.mem_filter]
  cases isCreate o <;> simp

section Plans

variable {σ : Type} [Store σ]

/-- What `set` does before its first write. -/
def plan (b : BoundField) (replacing : Bool) (id : String) (value : List Reference) :
    EngineM σ Plan := do
  let owner := b.ownerPath id
  ofResult (Reference.checkDistinct value)
  ofResult (value.forM b.checkShape)
  if value.isEmpty then
    if replacing then
      let existing ← b.existingEdges owner
      let removals ← ofResult (existing.mapM BoundField.deleteOperation)
      return ⟨removals, []⟩
    return ⟨[], []⟩
  BoundField.checkOwner owner
  let existing ← b.existingEdges owner
  b.validateNew owner (!replacing) (b.formsOf owner existing) value
  let writes ← ofResult (value.mapM (writeOf b owner existing))
  let removals ← ofResult ((removed replacing existing value).mapM BoundField.deleteOperation)
  return ⟨removals, ordered writes⟩

private theorem execute_nil (b : BoundField) (owner : String) :
    (b.execute owner [] : EngineM σ (List Reference)) = pure [] := rfl

/-- **Writing a collection is planning it and performing the plan.** -/
theorem set_eq_plan (b : BoundField) (replacing : Bool) (id : String) (value : List Reference) :
    (set b replacing id value : EngineM σ (List Reference)) = (do
      let p ← plan b replacing id value
      p.perform b (b.ownerPath id)) := by
  have hnone : (ofResult (pure []) : EngineM σ (List Operation)) = pure [] := rfl
  unfold set plan Plan.perform clearOwner removed ordered
  cases replacing with
  | true =>
    cases value.isEmpty with
    | true => simp [execute_nil]
    | false => simp
  | false =>
    cases value.isEmpty with
    | true => simp [execute_nil]
    | false => simp [execute_nil, hnone]

end Plans

variable {b : BoundField} {replacing : Bool} {id owner : String} {value : List Reference}
  {s : MemoryStore} {es : List Edge} {p : Plan}

theorem readOnly_plan (b : BoundField) (replacing : Bool) (id : String) (value : List Reference) :
    ReadOnly (plan b replacing id value : EngineM MemoryStore Plan) := by
  refine (readOnly_ofResult _).bind fun _ => (readOnly_ofResult _).bind fun _ => ?_
  split
  · split
    · exact (BoundField.readOnly_existingEdges b _).bind fun _ =>
        (readOnly_ofResult _).bind fun _ => readOnly_pure _
    · exact readOnly_pure _
  · refine (BoundField.readOnly_checkOwner _).bind fun _ =>
      (BoundField.readOnly_existingEdges b _).bind fun _ =>
      (BoundField.readOnly_validateNew b _ _ _ _).bind fun _ => (readOnly_ofResult _).bind fun _ =>
      (readOnly_ofResult _).bind fun _ => readOnly_pure _

/-! ### What a plan depends on -/

/-- A value that is not empty passes all checks, and the plan is what follows from it and
    from the edges that the field has. -/
structure Planned (b : BoundField) (replacing : Bool) (owner : String) (value : List Reference)
    (s : MemoryStore) (es : List Edge) (p : Plan) : Prop where
  distinct : Reference.checkDistinct value = .ok ()
  shapes : value.forM b.checkShape = .ok ()
  owned : (BoundField.checkOwner owner).answer s = .ok ()
  found : (b.existingEdges owner).answer s = .ok es
  valid : (b.validateNew owner (!replacing) (b.formsOf owner es) value).answer s = .ok ()
  writes : ∃ ws, value.mapM (writeOf b owner es) = .ok ws ∧ p.writes = ordered ws
  removals : p.removals = (removed replacing es value).map BoundField.removalOf

theorem answer_plan (hne : value ≠ []) :
    (plan b replacing id value).answer s = (do
      Reference.checkDistinct value
      value.forM b.checkShape
      (BoundField.checkOwner (b.ownerPath id)).answer s
      let existing ← (b.existingEdges (b.ownerPath id)).answer s
      (b.validateNew (b.ownerPath id) (!replacing) (b.formsOf (b.ownerPath id) existing)
        value).answer s
      let writes ← value.mapM (writeOf b (b.ownerPath id) existing)
      let removals ← (removed replacing existing value).mapM BoundField.deleteOperation
      .ok ⟨removals, ordered writes⟩) := by
  have hempty : value.isEmpty = false := by simpa using hne
  unfold plan
  simp only [hempty, (readOnly_ofResult _).answer_bind, answer_ofResult, Bool.false_eq_true,
    if_false, (BoundField.readOnly_checkOwner _).answer_bind,
    (BoundField.readOnly_existingEdges b _).answer_bind,
    (BoundField.readOnly_validateNew b _ _ _ _).answer_bind, answer_pure]

/-- A value that is not empty has the plan that follows from its checks, or none. -/
theorem answer_plan_eq_ok (hs : s.WellFormed) (hc : Path.IsAddress b.edgeContainer)
    (hne : value ≠ []) :
    (plan b replacing id value).answer s = .ok p ↔
      ∃ es, Planned b replacing (b.ownerPath id) value s es p := by
  rw [answer_plan hne]
  simp only [Result.bind_eq_ok]
  constructor
  · rintro ⟨_, hdistinct, _, hshapes, _, howned, es, hfound, _, hvalid, ws, hws, removals,
      hremovals, h⟩
    have hexisting := BoundField.existing_of_answer hs hc hfound
    rw [hexisting.mapM_deleteOperation (removed_sublist _ _ _)] at hremovals
    cases hremovals
    cases h
    exact ⟨es, hdistinct, hshapes, howned, hfound, hvalid, ⟨ws, hws, rfl⟩, rfl⟩
  · rintro ⟨es, hdistinct, hshapes, howned, hfound, hvalid, ⟨ws, hws, hwrites⟩, hremovals⟩
    have hexisting := BoundField.existing_of_answer hs hc hfound
    refine ⟨_, hdistinct, _, hshapes, _, howned, es, hfound, _, hvalid, ws, hws, _,
      hexisting.mapM_deleteOperation (removed_sublist _ _ _), ?_⟩
    rw [← hremovals, ← hwrites]

/-! ### Writes of a planned value -/

/-- The edge with an identifier is the stored one, if it is at the field. -/
theorem edgeWithId?_eq_some (hes : b.Existing owner s es) {e : Edge} :
    edgeWithId? es id = some e ↔
      s.HasEdge b.edgeContainer id e ∧ e.involves owner b.field.name = true := by
  rw [← hes.mem_iff]
  unfold edgeWithId?
  constructor
  · intro h
    exact ⟨List.mem_reverse.1 (List.mem_of_find?_eq_some h), by simpa using List.find?_some h⟩
  · rintro ⟨he, hid⟩
    cases hfind : es.reverse.find? fun e => e.id == some id with
    | none =>
      have hnone := List.find?_eq_none.1 hfind e (List.mem_reverse.2 he)
      simp [hid] at hnone
    | some e' =>
      have he' := List.mem_reverse.1 (List.mem_of_find?_eq_some hfind)
      have hid' : e'.id = some id := by simpa using List.find?_some hfind
      rw [hes.eq_of_id_eq he he' (hid.trans hid'.symm)]

theorem writeFrom_of_writeOf {r : Reference} {o : Operation}
    (h : writeOf b owner es r = .ok o) : b.WriteFrom owner es r o := by
  unfold writeOf at h
  cases hid : r.edgeId? with
  | none =>
    simp only [hid] at h
    exact BoundField.writeFrom_of_create hid h
  | some id =>
    simp only [hid] at h
    cases hfind : edgeWithId? es id with
    | none =>
      rw [hfind] at h
      cases h
    | some e =>
      rw [hfind] at h
      have he := List.mem_reverse.1 (List.mem_of_find?_eq_some hfind)
      have heid : e.id = some id := by simpa using List.find?_some hfind
      exact BoundField.writeFrom_of_update hid he heid h

theorem writeOf_eq_ok (hes : b.Existing owner s es) {r : Reference} {o : Operation} :
    writeOf b owner es r = .ok o ↔ b.WriteOf owner s r o := by
  constructor
  · exact fun h => hes.writeOf_of_writeFrom (writeFrom_of_writeOf h)
  · intro h
    unfold writeOf
    cases h with
    | create hid htarget =>
      rw [hid]
      exact BoundField.createOperation_eq_ok.2 ⟨_, htarget, rfl⟩
    | update hid hedge hinvolves htarget =>
      rw [hid]
      dsimp only
      rw [(edgeWithId?_eq_some hes).2 ⟨hedge, hinvolves⟩]
      exact BoundField.updateOperation_eq_ok.2 ⟨_, _, hedge.id_eq, hinvolves, htarget, rfl⟩

/-- The edges that are removed are those at the field that no reference names. -/
theorem mem_removed (hes : b.Existing owner s es) {e : Edge} :
    e ∈ removed replacing es value ↔
      replacing = true ∧ ∃ id, s.HasEdge b.edgeContainer id e ∧
        e.involves owner b.field.name = true ∧ ∀ r ∈ value, r.edgeId? ≠ some id := by
  have hnamed : ∀ id, (value.filterMap Reference.edgeId?).contains id = false ↔
      ∀ r ∈ value, r.edgeId? ≠ some id := by
    intro id
    simp [List.contains_eq_mem]
  unfold removed
  cases replacing with
  | false => simp
  | true =>
    simp only [if_true, true_and, unnamed, List.mem_filter]
    constructor
    · rintro ⟨he, hany⟩
      obtain ⟨id, hid, hnot⟩ := (Option.any_eq_true _ _).1 hany
      obtain ⟨hedge, hinvolves⟩ := hes.mem_iff.1 ⟨he, hid⟩
      exact ⟨id, hedge, hinvolves, (hnamed id).1 (by simpa using hnot)⟩
    · rintro ⟨id, hedge, hinvolves, hnot⟩
      obtain ⟨he, hid⟩ := hes.mem_iff.2 ⟨hedge, hinvolves⟩
      refine ⟨he, (Option.any_eq_true _ _).2 ⟨id, hid, ?_⟩⟩
      rw [(hnamed id).2 hnot]
      rfl

theorem draws_ordered (writes : List Operation) :
    Batch.draws (ordered writes) = writes.countP isCreate := by
  have hothers : Batch.draws (writes.filter (!isCreate ·)) = 0 := by
    apply Batch.draws_eq_zero
    intro o ho
    have hnot := (List.mem_filter.1 ho).2
    cases o with
    | create e => cases hnot
    | update id expected e => rfl
    | delete id expected => rfl
  have hcreates : Batch.draws (writes.filter isCreate) = (writes.filter isCreate).length := by
    apply Batch.draws_eq_length
    intro o ho
    have his := (List.mem_filter.1 ho).2
    cases o with
    | create e => rfl
    | update id expected e => cases his
    | delete id expected => cases his
  rw [ordered, Batch.draws_append, hothers, hcreates, List.countP_eq_length_filter, Nat.zero_add]

namespace Planned

/-- **The plan of a value fits the store that it was made for.** -/
theorem fits (h : Planned b replacing owner value s es p) (hs : s.WellFormed)
    (hc : Path.IsAddress b.edgeContainer) : p.Fits b.edgeContainer s := by
  have hexisting := BoundField.existing_of_answer hs hc h.found
  apply hexisting.fits (removed_sublist replacing es value) h.removals
  intro o ho
  obtain ⟨ws, hws, hwrites⟩ := h.writes
  obtain ⟨g, rfl, hg⟩ := Result.map_of_mapM_eq_ok hws
  rw [hwrites, mem_ordered] at ho
  obtain ⟨r, hr, rfl⟩ := List.mem_map.1 ho
  refine ⟨r, (writeOf_eq_ok hexisting).1 (hg r hr), ?_⟩
  intro e he heq
  obtain ⟨_, id, hedge, _, hnot⟩ := (mem_removed hexisting).1 he
  exact hnot r hr (heq ▸ hedge.id_eq)

/-- A plan creates one edge for each reference that names none. -/
theorem draws_writes (h : Planned b replacing owner value s es p) (hs : s.WellFormed)
    (hc : Path.IsAddress b.edgeContainer) :
    Batch.draws p.writes = value.countP (·.edgeId?.isNone) := by
  have hexisting := BoundField.existing_of_answer hs hc h.found
  obtain ⟨ws, hws, hwrites⟩ := h.writes
  obtain ⟨g, rfl, hg⟩ := Result.map_of_mapM_eq_ok hws
  rw [hwrites, draws_ordered, List.countP_map]
  apply List.countP_congr
  intro r hr
  have hwrite := (writeOf_eq_ok hexisting).1 (hg r hr)
  show isCreate (g r) = true ↔ _
  generalize g r = o at hwrite
  cases hwrite with
  | create hid htarget => simp [isCreate, hid]
  | update hid hedge hinvolves htarget => simp [isCreate, hid]

end Planned

theorem answer_plan_nil_replacing :
    (plan b true id []).answer s = (do
      let existing ← (b.existingEdges (b.ownerPath id)).answer s
      let removals ← existing.mapM BoundField.deleteOperation
      .ok ⟨removals, []⟩) := by
  have hchecks : (plan b true id []).answer s = (do
      let existing ← b.existingEdges (b.ownerPath id)
      let removals ← ofResult (existing.mapM BoundField.deleteOperation)
      return ⟨removals, []⟩ : EngineM MemoryStore Plan).answer s := rfl
  rw [hchecks]
  simp only [(BoundField.readOnly_existingEdges b _).answer_bind,
    (readOnly_ofResult _).answer_bind, answer_ofResult, answer_pure]

/-- The plan of an empty value removes all edges or does nothing. -/
theorem answer_plan_nil (h : (plan b replacing id []).answer s = .ok p) :
    (replacing = false ∧ p = ⟨[], []⟩) ∨ (replacing = true ∧ ∃ es : List Edge,
      (b.existingEdges (b.ownerPath id)).answer s = .ok es ∧
      es.mapM BoundField.deleteOperation = .ok p.removals ∧ p.writes = []) := by
  cases replacing with
  | false =>
    cases h
    exact .inl ⟨rfl, rfl⟩
  | true =>
    simp only [answer_plan_nil_replacing, Result.bind_eq_ok] at h
    obtain ⟨es, hfound, removals, hremovals, h⟩ := h
    cases h
    exact .inr ⟨rfl, es, hfound, hremovals, rfl⟩

/-- **Every plan fits the store that it was made for**, and creates no more edges than the
    value has references without an edge. -/
theorem fits_of_answer_plan (hs : s.WellFormed) (hc : Path.IsAddress b.edgeContainer)
    (h : (plan b replacing id value).answer s = .ok p) :
    p.Fits b.edgeContainer s ∧ Batch.draws p.writes = value.countP (·.edgeId?.isNone) := by
  by_cases hne : value = []
  · subst hne
    rcases answer_plan_nil h with ⟨_, rfl⟩ | ⟨_, es, hfound, hremovals, hwrites⟩
    · exact ⟨⟨fun _ ho => (nomatch ho), .nil, fun _ ho => (nomatch ho)⟩, rfl⟩
    · have hexisting := BoundField.existing_of_answer hs hc hfound
      rw [hexisting.mapM_deleteOperation (List.Sublist.refl es)] at hremovals
      rw [hwrites]
      refine ⟨hexisting.fits (List.Sublist.refl es) (Except.ok.inj hremovals).symm ?_, rfl⟩
      rw [hwrites]
      exact fun _ ho => (nomatch ho)
  · obtain ⟨es, hplanned⟩ := (answer_plan_eq_ok hs hc hne).1 h
    exact ⟨hplanned.fits hs hc, hplanned.draws_writes hs hc⟩

/-- What a plan is made of: the removal of each edge at the field that no reference names,
    when replacing, and the write of each reference. -/
structure Drawn (b : BoundField) (replacing : Bool) (owner : String) (value : List Reference)
    (s : MemoryStore) (p : Plan) : Prop where
  removals : ∀ o, o ∈ p.removals ↔ replacing = true ∧ ∃ id e, s.HasEdge b.edgeContainer id e ∧
    e.involves owner b.field.name = true ∧ (∀ r ∈ value, r.edgeId? ≠ some id) ∧
    o = .delete id e.revision
  writes : ∃ g : Reference → Operation, p.writes = ordered (value.map g) ∧
    ∀ r ∈ value, b.WriteOf owner s r (g r)
  distinct : (value.map Reference.identity).Pairwise (· ≠ ·)

/-- **A value that is not refused is planned as a whole.** -/
theorem drawn_of_answer_plan (hs : s.WellFormed) (hc : Path.IsAddress b.edgeContainer)
    (h : (plan b replacing id value).answer s = .ok p) :
    Drawn b replacing (b.ownerPath id) value s p := by
  by_cases hne : value = []
  · subst hne
    rcases answer_plan_nil h with ⟨rfl, rfl⟩ | ⟨rfl, es, hfound, hremovals, hwrites⟩
    · refine ⟨?_, ⟨fun _ => .delete "" none, rfl, fun _ hr => (nomatch hr)⟩, .nil⟩
      simp
    · have hexisting := BoundField.existing_of_answer hs hc hfound
      rw [hexisting.mapM_deleteOperation (List.Sublist.refl es)] at hremovals
      refine ⟨?_, ⟨fun _ => .delete "" none, hwrites, fun _ hr => (nomatch hr)⟩, .nil⟩
      intro o
      rw [← Except.ok.inj hremovals, List.mem_map]
      constructor
      · rintro ⟨e, he, rfl⟩
        obtain ⟨id, hid, hedge⟩ := hexisting.hasEdge he
        exact ⟨rfl, id, e, hedge, (hexisting.mem_iff.1 ⟨he, hid⟩).2, fun _ hr => (nomatch hr),
          BoundField.removalOf_eq hid⟩
      · rintro ⟨_, id, e, hedge, hinvolves, _, rfl⟩
        exact ⟨e, (hexisting.mem_iff.2 ⟨hedge, hinvolves⟩).1, BoundField.removalOf_eq hedge.id_eq⟩
  · obtain ⟨es, hplanned⟩ := (answer_plan_eq_ok hs hc hne).1 h
    have hexisting := BoundField.existing_of_answer hs hc hplanned.found
    obtain ⟨ws, hws, hwrites⟩ := hplanned.writes
    obtain ⟨g, rfl, hg⟩ := Result.map_of_mapM_eq_ok hws
    refine ⟨?_, ⟨g, hwrites, fun r hr => (writeOf_eq_ok hexisting).1 (hg r hr)⟩,
      Reference.checkDistinct_eq_ok.1 hplanned.distinct⟩
    intro o
    rw [hplanned.removals, List.mem_map]
    constructor
    · rintro ⟨e, he, rfl⟩
      obtain ⟨hreplacing, id, hedge, hinvolves, hnot⟩ := (mem_removed hexisting).1 he
      exact ⟨hreplacing, id, e, hedge, hinvolves, hnot, BoundField.removalOf_eq hedge.id_eq⟩
    · rintro ⟨hreplacing, id, e, hedge, hinvolves, hnot, rfl⟩
      exact ⟨e, (mem_removed hexisting).2 ⟨hreplacing, id, hedge, hinvolves, hnot⟩,
        BoundField.removalOf_eq hedge.id_eq⟩

/-! ### Writes perform plans -/

theorem set_of_answer_plan_error {e : Error}
    (h : (plan b replacing id value).answer s = .error e) :
    set b replacing id value s = (.error e, s) := by
  rw [set_eq_plan, (readOnly_plan b replacing id value).bind_apply, h]

/-- **A write that has a plan performs it.** -/
theorem set_of_answer_plan_ok (hs : s.WellFormed) (hc : Path.IsAddress b.edgeContainer)
    (hfresh : s.FreshIds (value.countP (·.edgeId?.isNone)))
    (h : (plan b replacing id value).answer s = .ok p) :
    ∃ rs, set b replacing id value s = (.ok rs, Batch.after b.edgeContainer s p.operations) ∧
      (Batch.answers b.edgeContainer (Batch.after b.edgeContainer s p.removals) p.writes).mapM
        (b.toReference (b.ownerPath id)) = .ok rs := by
  obtain ⟨hfits, hdraws⟩ := fits_of_answer_plan hs hc h
  rw [← hdraws] at hfresh
  obtain ⟨rs, hrun, hforms⟩ := Plan.perform_of_fits hc (b.ownerPath id) hfits hfresh
  refine ⟨rs, ?_, hforms⟩
  rw [set_eq_plan, (readOnly_plan b replacing id value).bind_apply, h]
  exact hrun

theorem exists_plan_of_set (hs : s.WellFormed) (hc : Path.IsAddress b.edgeContainer)
    (hfresh : s.FreshIds (value.countP (·.edgeId?.isNone))) {written : List Reference}
    {s' : MemoryStore} (h : set b replacing id value s = (.ok written, s')) :
    ∃ p, (plan b replacing id value).answer s = .ok p ∧
      s' = Batch.after b.edgeContainer s p.operations ∧
      (Batch.answers b.edgeContainer (Batch.after b.edgeContainer s p.removals) p.writes).mapM
        (b.toReference (b.ownerPath id)) = .ok written := by
  cases hplan : (plan b replacing id value).answer s with
  | error e =>
    rw [set_of_answer_plan_error hplan] at h
    cases h
  | ok p =>
    obtain ⟨rs, hrun, hforms⟩ := set_of_answer_plan_ok hs hc hfresh hplan
    rw [hrun] at h
    cases h
    exact ⟨p, rfl, rfl, hforms⟩

end Collection

end EdgeFields
