/-
  EdgeFields/Proofs/Validation.lean
  =================================
  **What the checks on references ask of a store.**

  Every check of the engine only reads. A new value passes when its references differ from
  each other and each one without the identity of an old one is valid
  (`BoundField.answer_validateNew_eq_ok`). A reference that is added must not repeat an
  assignment: `BoundField.answer_checkUnassigned` says which edges at the field this
  compares it with.
-/
import EdgeFields.Proofs.Existing

namespace EdgeFields

open EngineM
open MemoryStore (StoredRecord.toRecord)

namespace BoundField

variable {b : BoundField} {s : MemoryStore} {owner target : String} {r : Reference}

/-! ### Shapes -/

theorem checkShape_target (h : b.checkShape r = .ok ()) : ∃ target, r.target = some target := by
  unfold checkShape at h
  obtain ⟨target, htarget, _⟩ := Result.bind_eq_ok.1 h
  unfold targetOf at htarget
  cases hr : r.target with
  | none =>
    rw [hr] at htarget
    cases htarget
  | some target => exact ⟨target, rfl⟩

/-! ### Checks only read -/

theorem readOnly_checkOwner (owner : String) :
    ReadOnly (checkOwner owner : EngineM MemoryStore Unit) := by
  refine ReadOnly.tryCatch ((readOnly_read owner).bind fun _ => readOnly_pure ()) fun e => ?_
  cases e.kind <;> exact readOnly_throw _

theorem readOnly_checkReferent (b : BoundField) (target : String) :
    ReadOnly (b.checkReferent target : EngineM MemoryStore Unit) := by
  unfold checkReferent
  split
  · refine ReadOnly.tryCatch ((readOnly_read target).bind fun _ => readOnly_pure ()) fun e => ?_
    cases e.kind <;> exact readOnly_throw _
  · exact readOnly_pure ()

theorem readOnly_checkUnassigned (b : BoundField) (owner target : String) (r : Reference) :
    ReadOnly (b.checkUnassigned owner target r : EngineM MemoryStore Unit) := by
  refine (readOnly_query _ _).bind fun results => ?_
  split
  · exact readOnly_throw _
  · exact readOnly_pure ()

theorem readOnly_validateReference (b : BoundField) (owner : String) (appending : Bool)
    (r : Reference) :
    ReadOnly (b.validateReference owner appending r : EngineM MemoryStore Unit) := by
  refine (readOnly_ofResult _).bind fun _ => (readOnly_checkReferent b _).bind fun _ => ?_
  split
  · exact readOnly_checkUnassigned b owner _ r
  · exact readOnly_pure ()

theorem readOnly_validateNew (b : BoundField) (owner : String) (appending : Bool)
    (old new : List Reference) :
    ReadOnly (b.validateNew owner appending old new : EngineM MemoryStore Unit) :=
  (readOnly_ofResult _).bind fun _ => ReadOnly.forM (readOnly_validateReference b owner appending) _

/-! ### New values -/

theorem answer_checkOwner_of_read (h : ∃ record, s.read owner = .ok record) :
    (checkOwner owner).answer s = .ok () := by
  obtain ⟨record, h⟩ := h
  have hread := answer_reading (fun s => s.read owner) s
  rw [h] at hread
  have hanswer : (fromStore (Store.read owner) : EngineM MemoryStore Record).answer s =
      .ok record := hread
  unfold checkOwner answer
  rw [tryCatch_apply, (readOnly_read owner).bind_apply, hanswer]
  rfl

theorem answer_validateReference (b : BoundField) (owner : String) (appending : Bool)
    (r : Reference) (s : MemoryStore) :
    (b.validateReference owner appending r).answer s = (do
      b.checkShape r
      (b.checkReferent (r.target.getD "")).answer s
      if appending then (b.checkUnassigned owner (r.target.getD "") r).answer s else .ok ()) := by
  unfold validateReference
  rw [(readOnly_ofResult _).answer_bind, answer_ofResult]
  congr 1
  funext _
  rw [(readOnly_checkReferent b _).answer_bind]
  congr 1
  funext _
  cases appending <;> rfl

theorem answer_validateNew (b : BoundField) (owner : String) (appending : Bool)
    (old new : List Reference) (s : MemoryStore) :
    (b.validateNew owner appending old new).answer s = (do
      Reference.checkDistinct new
      (new.filter fun r => !(old.map Reference.identity).contains r.identity).forM fun r =>
        (b.validateReference owner appending r).answer s) := by
  unfold validateNew
  rw [(readOnly_ofResult _).answer_bind, answer_ofResult]
  congr 1
  funext _
  exact ReadOnly.answer_forM (readOnly_validateReference b owner appending) _ s

theorem mem_filter_unknown {old new : List Reference} :
    r ∈ new.filter (fun r => !(old.map Reference.identity).contains r.identity) ↔
      r ∈ new ∧ r.identity ∉ old.map Reference.identity := by
  rw [List.mem_filter, Bool.not_eq_true', List.contains_eq_mem, decide_eq_false_iff_not]

/-- **A new value passes when its references differ and the unknown ones are valid.** -/
theorem answer_validateNew_eq_ok {appending : Bool} {old new : List Reference} :
    (b.validateNew owner appending old new).answer s = .ok () ↔
      Reference.checkDistinct new = .ok () ∧
      ∀ r ∈ new, r.identity ∉ old.map Reference.identity →
        (b.validateReference owner appending r).answer s = .ok () := by
  rw [answer_validateNew, Result.bind_eq_ok]
  constructor
  · rintro ⟨_, hdistinct, h⟩
    refine ⟨hdistinct, fun r hr hnew => ?_⟩
    exact Result.forM_eq_ok_iff.1 h r (mem_filter_unknown.2 ⟨hr, hnew⟩)
  · rintro ⟨hdistinct, h⟩
    refine ⟨(), hdistinct, Result.forM_eq_ok_iff.2 fun r hr => ?_⟩
    obtain ⟨hr, hnew⟩ := mem_filter_unknown.1 hr
    exact h r hr hnew

/-- A new value of distinct references that is refused has an unknown one that is not
    valid. -/
theorem exists_of_answer_validateNew_eq_error {appending : Bool} {old new : List Reference}
    {e : Error} (hdistinct : Reference.checkDistinct new = .ok ())
    (h : (b.validateNew owner appending old new).answer s = .error e) :
    ∃ r ∈ new, r.identity ∉ old.map Reference.identity ∧
      (b.validateReference owner appending r).answer s = .error e := by
  rw [answer_validateNew, hdistinct] at h
  obtain ⟨r, hr, he⟩ := Result.exists_of_forM_eq_error h
  obtain ⟨hr, hnew⟩ := mem_filter_unknown.1 hr
  exact ⟨r, hr, hnew, he⟩

/-! ### Assignments that are there -/

/-- An edge that the check on added references looks at: the field stands at its first
    endpoint, or for a reverse field at either one. -/
def looksAt (b : BoundField) (owner : String) (e : Edge) : Bool :=
  e.firstIs owner b.field.name || (b.field.isReverse && e.secondIs owner b.field.name)

/-- A reference repeats an edge of the owner's field: both lead to the same resource, and
    the reference does not name the edge. -/
structure Repeats (b : BoundField) (owner : String) (r : Reference) (e : Edge) : Prop where
  target : r.target = some (e.opposite owner b.field.name)
  other : e.id ≠ r.edgeId?

/-- What the filter of an assignment holds of, the filter of all edges at the field holds
    of too. -/
theorem accepts_relationshipFilter_of_assignmentFilter {d : Json}
    (h : Filter.accepts (b.assignmentFilter owner target) d = true) :
    Filter.accepts (MemoryStore.relationshipFilter owner b.field.name) d = true := by
  unfold assignmentFilter at h
  unfold MemoryStore.relationshipFilter
  split at h <;>
    simp only [Filter.accepts, Filter.acceptsAny, Filter.acceptsAll, Bool.and_true, Bool.or_false,
      Bool.or_eq_true, Bool.and_eq_true] at h ⊢
  · rcases h with ⟨h1, h2, _⟩ | ⟨h1, h2, _⟩
    · exact .inl ⟨h1, h2⟩
    · exact .inr ⟨h1, h2⟩
  · exact .inl ⟨h.1, h.2.1⟩

theorem accepts_assignmentFilter_of_repetitionFilter {d : Json}
    (h : Filter.accepts (b.repetitionFilter owner target r) d = true) :
    Filter.accepts (b.assignmentFilter owner target) d = true := by
  unfold repetitionFilter at h
  split at h
  · exact h
  · simp only [Filter.accepts, Filter.acceptsAll, Bool.and_eq_true] at h
    exact h.1

/-- The filter of repetitions holds of a record just when the check looks at its edge and
    the reference repeats it. -/
theorem accepts_repetitionFilter {id : String} {stored : StoredRecord} {e : Edge}
    (he : Edge.ofRecord (StoredRecord.toRecord stored id) = .ok e) :
    Filter.accepts (b.repetitionFilter owner target r) (StoredRecord.toRecord stored id).content =
        true ↔
      b.looksAt owner e = true ∧ e.opposite owner b.field.name = target ∧ e.id ≠ r.edgeId? := by
  have hassignment := (Edge.shows_of_ofRecord he).accepts_assignmentFilter b owner target
  have hid : e.id = some id := (Edge.ofRecord_eq_ok he).1
  have hleaf : ∀ x, Filter.accepts (.equalTo (.field Record.idKey) (.str x))
      (StoredRecord.toRecord stored id).content = (id == x) :=
    fun x => Filter.accepts_equalTo_str (Record.get?_withBookkeeping_id id _ _)
  unfold repetitionFilter looksAt
  cases hr : r.edgeId? with
  | none =>
    show Filter.accepts (b.assignmentFilter owner target) (.obj _) = true ↔ _
    rw [hassignment, Bool.and_eq_true, beq_iff_eq, hid]
    simp
  | some x =>
    simp only [Filter.accepts, Filter.acceptsAll, hleaf, Bool.and_true]
    rw [Bool.and_eq_true, Bool.not_eq_true', beq_eq_false_iff_ne, hid]
    show Filter.accepts (b.assignmentFilter owner target) (.obj _) = true ∧ _ ↔ _
    rw [hassignment, Bool.and_eq_true, beq_iff_eq, and_assoc]
    simp

/-- The query for repetitions finds a record or none. -/
theorem answer_checkUnassigned_eq (b : BoundField) (owner target : String) (r : Reference)
    (s : MemoryStore) :
    (b.checkUnassigned owner target r).answer s =
      if ∃ record ∈ s.container b.edgeContainer,
          Filter.accepts (b.repetitionFilter owner target r) record.content = true then
        .error (.alreadyRelated owner b.field.name target)
      else .ok () := by
  let request : Request := { filter := some (b.repetitionFilter owner target r), pageSize := 1 }
  obtain ⟨response, hquery⟩ := MemoryStore.query_eq_ok (s := s) (c := b.edgeContainer)
    (r := request) rfl rfl rfl rfl (show Request.Selection.all ≠ _ by decide)
    (show MemoryStore.selectionFilters request = .ok [] from rfl)
  have hanswer := answer_reading (fun s => s.query b.edgeContainer request) s
  rw [hquery] at hanswer
  unfold checkUnassigned
  rw [(readOnly_query _ _).answer_bind,
    show (fromStore (Store.query b.edgeContainer request)).answer s = _ from hanswer]
  simp only [Result.mapError_ok, Paging.page, request, Option.toList_some, List.nil_append,
    Filter.accepts, Filter.acceptsAll, Bool.and_true, List.drop_zero]
  have hfound : (∃ record ∈ s.container b.edgeContainer,
      Filter.accepts (b.repetitionFilter owner target r) record.content = true) ↔
      (s.container b.edgeContainer).filter (fun record =>
        Filter.accepts (b.repetitionFilter owner target r) record.content) ≠ [] := by
    rw [ne_eq, List.filter_eq_nil_iff]
    simp
  simp only [hfound]
  cases (s.container b.edgeContainer).filter fun record =>
      Filter.accepts (b.repetitionFilter owner target r) record.content with
  | nil => rfl
  | cons record records => rfl

/-- The filter of repetitions holds of a record just when the check looks at an edge that
    the reference repeats. -/
theorem exists_repetition_iff (hs : s.WellFormed) (hc : Path.IsAddress b.edgeContainer)
    {es : List Edge} (hes : (b.existingEdges owner).answer s = .ok es) :
    (∃ record ∈ s.container b.edgeContainer,
        Filter.accepts (b.repetitionFilter owner target r) record.content = true) ↔
      ∃ e ∈ es, b.looksAt owner e = true ∧ e.opposite owner b.field.name = target ∧
        e.id ≠ r.edgeId? := by
  have hexisting := existing_of_answer hs hc hes
  constructor
  · rw [answer_existingEdges_eq_ok] at hes
    obtain ⟨g, rfl, hg⟩ := Result.map_of_mapM_eq_ok hes
    rintro ⟨record, hmem, haccepts⟩
    have hassignment := accepts_assignmentFilter_of_repetitionFilter haccepts
    have hrelated : record ∈ s.related b.edgeContainer owner b.field.name :=
      List.mem_filter.2 ⟨hmem, accepts_relationshipFilter_of_assignmentFilter hassignment⟩
    obtain ⟨id, stored, _, _, rfl⟩ := (MemoryStore.mem_container hs hc.isContainer_trim).1 hmem
    exact ⟨_, List.mem_map.2 ⟨_, hrelated, rfl⟩,
      (accepts_repetitionFilter (hg _ hrelated)).1 haccepts⟩
  · rintro ⟨e, he, hrepeats⟩
    obtain ⟨id, _, hid, stored, hstored, hread⟩ := hexisting.hasEdge he
    exact ⟨_, (MemoryStore.mem_container hs hc.isContainer_trim).2 ⟨id, stored, hid, hstored, rfl⟩,
      (accepts_repetitionFilter hread).2 hrepeats⟩

/-- **The check on added references compares them with the edges that it looks at.** -/
theorem answer_checkUnassigned (hs : s.WellFormed) (hc : Path.IsAddress b.edgeContainer)
    {es : List Edge} (hes : (b.existingEdges owner).answer s = .ok es) (target : String)
    (r : Reference) :
    (b.checkUnassigned owner target r).answer s =
      if ∃ e ∈ es, b.looksAt owner e = true ∧ e.opposite owner b.field.name = target ∧
          e.id ≠ r.edgeId? then
        .error (.alreadyRelated owner b.field.name target)
      else .ok () := by
  rw [answer_checkUnassigned_eq]
  simp only [exists_repetition_iff hs hc hes]

end BoundField

end EdgeFields
