/-
  EdgeFields/Proofs/Singleton.lean
  ================================
  **Writes of singleton fields, split into a plan and its performance.**

  `Singleton.set` removes the edges of the field before it forms the creation that takes
  their place. A reference of the right shape can always be created, so that the creation
  can be planned first (`Singleton.set_eq_plan`). Every plan fits the store that it was made
  for (`Singleton.fits_of_answer_plan`).
-/
import EdgeFields.Engine.Singleton
import EdgeFields.Proofs.Collection

namespace EdgeFields

open EngineM

namespace Singleton

/-! ### Plans -/

section Plans

variable {σ : Type} [Store σ]

/-- The writes of a reference to a field that has the given edges. -/
def planOf (b : BoundField) (owner : String) (existing : List Edge) (r : Reference) :
    Except Error Plan :=
  match r.edgeId? with
  | some id =>
    match existing.find? fun e => e.id == some id with
    | none => .error (.edgeUnknown id owner b.field.name)
    | some e => do
      let write ← b.updateOperation owner e r
      pure ⟨[], [write]⟩
  | none => do
    let removals ← existing.mapM BoundField.deleteOperation
    let write ← b.createOperation owner r
    pure ⟨removals, [write]⟩

/-- What `set` settles before its first write. -/
def plan (b : BoundField) (replacing : Bool) (id : String) (value : Option Reference) :
    EngineM σ Plan := do
  let owner := b.ownerPath id
  match value with
  | none =>
    if replacing then
      let existing ← b.existingEdges owner
      let removals ← ofResult (existing.mapM BoundField.deleteOperation)
      return ⟨removals, []⟩
    return ⟨[], []⟩
  | some r =>
    ofResult (b.checkShape r)
    BoundField.checkOwner owner
    let existing ← b.existingEdges owner
    b.validateNew owner false (b.formsOf owner existing) [r]
    ofResult (planOf b owner existing r)

theorem writeOf_eq_planOf (b : BoundField) (owner : String) (existing : List Edge)
    {r : Reference} {target : String} (htarget : r.target = some target) :
    (do
      let write ← writeOf b owner existing r
      let written ← b.execute owner [write]
      pure written.getLast? : EngineM σ (Option Reference)) = (do
      let p ← ofResult (planOf b owner existing r)
      let written ← p.perform b owner
      pure written.getLast?) := by
  unfold writeOf planOf Plan.perform
  cases hid : r.edgeId? with
  | none =>
    have hcreate : b.createOperation owner r = .ok (.create (b.createdEdge owner target r)) :=
      BoundField.createOperation_eq_ok.2 ⟨target, htarget, rfl⟩
    simp only [hcreate, ofResult_bind, ofResult_ok_bind, bind_assoc]
    rfl
  | some id =>
    dsimp only
    cases existing.find? fun e => e.id == some id with
    | none => rfl
    | some e =>
      simp only [ofResult_bind, bind_assoc]
      rfl

/-- **Writing a singleton is planning it and performing the plan.** -/
theorem set_eq_plan (b : BoundField) (replacing : Bool) (id : String) (value : Option Reference) :
    (set b replacing id value : EngineM σ (Option Reference)) = (do
      let p ← plan b replacing id value
      let written ← p.perform b (b.ownerPath id)
      pure written.getLast?) := by
  unfold set plan
  cases value with
  | none =>
    unfold clearOwner Plan.perform
    cases replacing with
    | true => simp; rfl
    | false => rfl
  | some r =>
    cases hshape : b.checkShape r with
    | error e => simp only [hshape, ofResult_error_bind]
    | ok =>
      obtain ⟨target, htarget⟩ := BoundField.checkShape_target hshape
      simp only [hshape, bind_assoc, ofResult_ok_bind, ← writeOf_eq_planOf b _ _ htarget]

end Plans

variable {b : BoundField} {replacing : Bool} {id owner : String} {s : MemoryStore} {p : Plan}

theorem readOnly_plan (b : BoundField) (replacing : Bool) (id : String)
    (value : Option Reference) :
    ReadOnly (plan b replacing id value : EngineM MemoryStore Plan) := by
  unfold plan
  cases value with
  | none =>
    cases replacing with
    | false => exact readOnly_pure _
    | true =>
      exact (BoundField.readOnly_existingEdges b _).bind fun _ =>
        (readOnly_ofResult _).bind fun _ => readOnly_pure _
  | some r =>
    exact (readOnly_ofResult _).bind fun _ => (BoundField.readOnly_checkOwner _).bind fun _ =>
      (BoundField.readOnly_existingEdges b _).bind fun _ =>
      (BoundField.readOnly_validateNew b _ _ _ _).bind fun _ => readOnly_ofResult _

/-! ### Plans fit -/

/-- The plan of a reference updates the edge that it names, or replaces all edges. -/
theorem planOf_cases {es : List Edge} {r : Reference} (h : planOf b owner es r = .ok p) :
    ∃ (gone : List Edge) (o : Operation), gone = (if r.edgeId?.isNone then es else []) ∧
      gone.mapM BoundField.deleteOperation = .ok p.removals ∧ p.writes = [o] ∧
      b.WriteFrom owner es r o := by
  unfold planOf at h
  cases hid : r.edgeId? with
  | some id =>
    simp only [hid] at h
    cases hfind : es.find? fun e => e.id == some id with
    | none =>
      rw [hfind] at h
      cases h
    | some e =>
      rw [hfind] at h
      obtain ⟨o, ho, h⟩ := Result.bind_eq_ok.1 h
      cases h
      have heid : e.id = some id := by simpa using List.find?_some hfind
      exact ⟨[], o, rfl, rfl, rfl,
        BoundField.writeFrom_of_update hid (List.mem_of_find?_eq_some hfind) heid ho⟩
  | none =>
    simp only [hid] at h
    obtain ⟨removals, hremovals, h⟩ := Result.bind_eq_ok.1 h
    obtain ⟨o, ho, h⟩ := Result.bind_eq_ok.1 h
    cases h
    exact ⟨es, o, rfl, hremovals, rfl, BoundField.writeFrom_of_create hid ho⟩

theorem planOf_eq_ok {es : List Edge} (hes : b.Existing owner s es) {r : Reference}
    (h : planOf b owner es r = .ok p) :
    ∃ (gone : List Edge) (o : Operation), gone.Sublist es ∧
      p = ⟨gone.map BoundField.removalOf, [o]⟩ ∧
      b.WriteOf owner s r o ∧ ∀ e ∈ gone, e.id ≠ r.edgeId? := by
  obtain ⟨gone, o, hgone, hremovals, hwrites, hfrom⟩ := planOf_cases h
  have hsub : gone.Sublist es := by
    rw [hgone]
    split
    · exact List.Sublist.refl es
    · exact List.nil_sublist es
  rw [hes.mapM_deleteOperation hsub] at hremovals
  obtain ⟨removals, writes⟩ := p
  cases hremovals
  cases hwrites
  refine ⟨gone, o, hsub, rfl, hes.writeOf_of_writeFrom hfrom, ?_⟩
  intro e he
  obtain ⟨id, heid, _⟩ := hes.hasEdge (hsub.subset he)
  rw [hgone] at he
  split at he
  · rename_i hnone
    rw [heid, Option.isNone_iff_eq_none.1 hnone]
    exact Option.some_ne_none id
  · cases he

theorem exists_planOf {r : Reference} (h : (plan b replacing id (some r)).answer s = .ok p) :
    ∃ es, (b.existingEdges (b.ownerPath id)).answer s = .ok es ∧
      planOf b (b.ownerPath id) es r = .ok p := by
  simp only [plan, (readOnly_ofResult _).answer_bind,
    (BoundField.readOnly_checkOwner _).answer_bind,
    (BoundField.readOnly_existingEdges b _).answer_bind,
    (BoundField.readOnly_validateNew b _ _ _ _).answer_bind, answer_ofResult,
    Result.bind_eq_ok] at h
  obtain ⟨_, _, _, _, es, hfound, _, _, hplan⟩ := h
  exact ⟨es, hfound, hplan⟩

/-- **Every plan fits the store that it was made for**, and creates at most one edge. -/
theorem fits_of_answer_plan (hs : s.WellFormed) (hc : Path.IsAddress b.edgeContainer)
    {value : Option Reference} (h : (plan b replacing id value).answer s = .ok p) :
    p.Fits b.edgeContainer s ∧ Batch.draws p.writes ≤ 1 := by
  cases value with
  | none =>
    have hplan : (Collection.plan b replacing id []).answer s = .ok p := h
    obtain ⟨hfits, hdraws⟩ := Collection.fits_of_answer_plan hs hc hplan
    exact ⟨hfits, Nat.le_trans (Nat.le_of_eq hdraws) (Nat.zero_le 1)⟩
  | some r =>
    obtain ⟨es, hfound, hplan⟩ := exists_planOf h
    have hexisting := BoundField.existing_of_answer hs hc hfound
    obtain ⟨gone, o, hsub, rfl, hwrite, hgone⟩ := planOf_eq_ok hexisting hplan
    constructor
    · apply hexisting.fits hsub rfl
      intro o' ho'
      rw [List.mem_singleton.1 ho']
      exact ⟨r, hwrite, hgone⟩
    · cases hwrite with
      | create hid htarget => exact Nat.le_refl 1
      | update hid hedge hinvolves htarget => exact Nat.zero_le 1

/-! ### Writes perform plans -/

variable {value : Option Reference}

theorem set_of_answer_plan_error {e : Error}
    (h : (plan b replacing id value).answer s = .error e) :
    set b replacing id value s = (.error e, s) := by
  rw [set_eq_plan, (readOnly_plan b replacing id value).bind_apply, h]

theorem set_of_answer_plan_ok (hs : s.WellFormed) (hc : Path.IsAddress b.edgeContainer)
    (hfresh : s.FreshIds 1) (h : (plan b replacing id value).answer s = .ok p) :
    ∃ written, set b replacing id value s =
      (.ok written, Batch.after b.edgeContainer s p.operations) := by
  obtain ⟨hfits, hdraws⟩ := fits_of_answer_plan hs hc h
  obtain ⟨rs, hrun, _⟩ := Plan.perform_of_fits hc (b.ownerPath id) hfits (hfresh.mono hdraws)
  rw [set_eq_plan, (readOnly_plan b replacing id value).bind_apply, h]
  dsimp only
  rw [bind_ok hrun]
  exact ⟨rs.getLast?, rfl⟩

end Singleton

end EdgeFields
