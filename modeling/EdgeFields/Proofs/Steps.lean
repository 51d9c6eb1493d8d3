/-
  EdgeFields/Proofs/Steps.lean
  ============================
  **What one call does to a store, and what a run of calls keeps.**

  A call is refused and leaves the store as it is, or it performs a plan
  (`BoundField.Call.run_cases`). What is in the plan is said once, for both cardinalities and
  for clearing, whatever the store is like (`BoundField.Settled`): its removals are of edges
  that were found at the field, its writes are those of the references of the call, which are
  different relationships, and every such reference is one that the field holds or has passed
  the check on its resource.

  An invariant of single calls holds after a run of calls (`BoundField.Run.invariant`).
-/
import EdgeFields.Proofs.OneReference

namespace EdgeFields

open EngineM

/-! ### How computations end -/

namespace EngineM

variable {σ α β : Type}

/-- Whether a computation succeeds, and the state that it leaves. -/
def ends (m : EngineM σ α) (s : σ) : Bool × σ := ((m s).1.isOk, (m s).2)

@[simp] theorem ends_map (f : α → β) (m : EngineM σ α) (s : σ) : (f <$> m).ends s = m.ends s := by
  unfold ends
  rw [map_apply]
  rcases m s with ⟨e | a, t⟩ <;> rfl

theorem ends_bind_pure (m : EngineM σ α) (f : α → β) (s : σ) :
    (do let a ← m; pure (f a) : EngineM σ β).ends s = m.ends s := by
  rw [← map_eq_pure_bind, ends_map]

/-- A computation that first reads fails there, or ends as what follows. -/
theorem ReadOnly.ends_bind_cases {m : EngineM σ α} (hm : ReadOnly m) (f : α → EngineM σ β)
    (s : σ) :
    (m >>= f).ends s = (false, s) ∨
      ∃ a, m.answer s = .ok a ∧ (m >>= f).ends s = (f a).ends s := by
  unfold ends
  rw [hm.bind_apply]
  cases m.answer s with
  | error e => exact .inl rfl
  | ok a => exact .inr ⟨a, rfl, rfl⟩

end EngineM

/-! ### Plans that are settled -/

namespace BoundField

/-- What a call has settled before it writes. Without references, and without replacing, it
    does not even look for the edges at the field. -/
inductive Settled (b : BoundField) (owner : String) (replacing : Bool) (value : List Reference)
    (s : MemoryStore) (p : Plan) : Prop
  | idle (hreplacing : replacing = false) (hvalue : value = []) (hplan : p = ⟨[], []⟩)
  | found {es : List Edge} {g : Reference → Operation}
    (hfound : (b.existingEdges owner).answer s = .ok es)
    (hdistinct : (value.map Reference.identity).Nodup)
    (howner : value ≠ [] → (checkOwner owner).answer s = .ok ())
    (hreferents : ∀ r ∈ value, r.identity ∉ (b.formsOf owner es).map Reference.identity →
      (b.checkReferent (r.target.getD "")).answer s = .ok ())
    (hremovals : p.removals = (Collection.removed replacing es value).map removalOf)
    (hwrites : p.writes = Collection.ordered (value.map g))
    (hg : ∀ r ∈ value, b.WriteFrom owner es r (g r))

variable {b : BoundField} {owner id : String} {replacing : Bool} {value : List Reference}
  {s : MemoryStore} {p : Plan}

theorem checkReferent_of_valid {appending : Bool} {old : List Reference}
    (h : (b.validateNew owner appending old value).answer s = .ok ()) :
    ∀ r ∈ value, r.identity ∉ old.map Reference.identity →
      (b.checkReferent (r.target.getD "")).answer s = .ok () := by
  intro r hr hunknown
  have hvalid := (answer_validateNew_eq_ok.1 h).2 r hr hunknown
  rw [answer_validateReference, Result.bind_eq_ok] at hvalid
  obtain ⟨_, _, hvalid⟩ := hvalid
  obtain ⟨_, hreferent, _⟩ := Result.bind_eq_ok.1 hvalid
  exact hreferent

theorem mapM_removed {es : List Edge} (h : (b.existingEdges owner).answer s = .ok es) :
    (Collection.removed replacing es value).mapM deleteOperation =
      .ok ((Collection.removed replacing es value).map removalOf) := by
  apply mapM_deleteOperation
  intro e he
  exact ids_of_found h e ((Collection.removed_sublist replacing es value).subset he)

theorem settled_of_collection (h : (Collection.plan b replacing id value).answer s = .ok p) :
    b.Settled (b.ownerPath id) replacing value s p := by
  by_cases hne : value = []
  · subst hne
    rcases Collection.answer_plan_nil h with ⟨rfl, rfl⟩ | ⟨rfl, es, hfound, hremovals, hwrites⟩
    · exact .idle rfl rfl rfl
    · have hall : Collection.removed true es [] = es :=
        Collection.removed_eq_self (ids_of_found hfound) fun _ hr => nomatch hr
      rw [← hall, mapM_removed hfound] at hremovals
      exact .found (g := fun _ => .delete "" none) hfound .nil (fun hne => absurd rfl hne)
        (fun _ hr => nomatch hr) (Except.ok.inj hremovals).symm hwrites fun _ hr => nomatch hr
  · rw [Collection.answer_plan hne] at h
    simp only [Result.bind_eq_ok] at h
    obtain ⟨_, hdistinct, _, _, _, howner, es, hfound, _, hvalid, ws, hws, removals, hremovals,
      h⟩ := h
    obtain ⟨g, rfl, hg⟩ := Result.map_of_mapM_eq_ok hws
    rw [mapM_removed hfound] at hremovals
    cases hremovals
    cases h
    exact .found hfound (Reference.checkDistinct_eq_ok.1 hdistinct) (fun _ => howner)
      (checkReferent_of_valid hvalid) rfl rfl fun r hr =>
        Collection.writeFrom_of_writeOf (hg r hr)

/-- A reference of a singleton replaces the edges at the field if it names none of them. -/
theorem settled_of_singleton {r : Reference}
    (h : (Singleton.plan b replacing id (some r)).answer s = .ok p) :
    b.Settled (b.ownerPath id) r.edgeId?.isNone [r] s p := by
  rw [Singleton.answer_plan_some] at h
  simp only [Result.bind_eq_ok] at h
  obtain ⟨_, _, _, howner, es, hfound, _, hvalid, hplan⟩ := h
  obtain ⟨gone, o, hgone, hremovals, hwrites, hwrite⟩ := Singleton.planOf_cases hplan
  have hremoved : Collection.removed r.edgeId?.isNone es [r] = gone := by
    cases hid : r.edgeId? with
    | none =>
      rw [hgone, hid]
      exact Collection.removed_eq_self (ids_of_found hfound) (List.forall_mem_singleton.2 hid)
    | some i =>
      rw [hgone, hid]
      rfl
  have hordered : p.writes = Collection.ordered ([r].map fun _ => o) := by
    rw [hwrites, List.map_singleton]
    cases o <;> rfl
  rw [← hremoved, mapM_removed hfound] at hremovals
  exact .found (g := fun _ => o) hfound (List.nodup_singleton _) (fun _ => howner)
    (checkReferent_of_valid hvalid) (Except.ok.inj hremovals).symm hordered
    (List.forall_mem_singleton.2 hwrite)

end BoundField

/-! ### Calls perform plans -/

section Calls

variable {b : BoundField} {s : MemoryStore}

theorem Collection.ends_set_cases (b : BoundField) (replacing : Bool) (id : String)
    (value : List Reference) (s : MemoryStore) :
    (set b replacing id value).ends s = (false, s) ∨
      ∃ p, (plan b replacing id value).answer s = .ok p ∧
        (set b replacing id value).ends s = (p.perform b (b.ownerPath id)).ends s := by
  rw [set_eq_plan]
  exact (readOnly_plan b replacing id value).ends_bind_cases _ s

theorem Singleton.ends_set_cases (b : BoundField) (replacing : Bool) (id : String)
    (value : Option Reference) (s : MemoryStore) :
    (set b replacing id value).ends s = (false, s) ∨
      ∃ p, (plan b replacing id value).answer s = .ok p ∧
        (set b replacing id value).ends s = (p.perform b (b.ownerPath id)).ends s := by
  rw [set_eq_plan]
  rcases (readOnly_plan b replacing id value).ends_bind_cases _ s with hrefused | ⟨p, hp, hends⟩
  · exact .inl hrefused
  · exact .inr ⟨p, hp, hends.trans (ends_bind_pure _ _ s)⟩

/-- A singleton without a reference ends as a collection without references. -/
theorem Singleton.ends_set_none (b : BoundField) (replacing : Bool) (id : String)
    (s : MemoryStore) :
    (set b replacing id none).ends s = (Collection.set b replacing id []).ends s := by
  obtain ⟨x, t, hset, hcollection⟩ := set_none_eq b replacing id s
  unfold ends
  rw [hset, hcollection]
  cases x <;> rfl

/-- Clearing ends as writing no references in place of all. -/
theorem Collection.ends_clear (b : BoundField) (id : String) (s : MemoryStore) :
    (clear b id).ends s = (set b true id []).ends s := by
  have hset : (set b true id [] : EngineM MemoryStore (List Reference)) =
      (do let _ ← clear b id; pure []) := rfl
  rw [hset, ends_bind_pure]

namespace BoundField

/-- The identifier of the owner that a call is about. -/
def Call.id : Call → String
  | set _ id _ => id
  | clear id => id

/-- The references that a call writes, and whether it removes the edges that they do not name.
    A singleton removes edges for a reference that names none. -/
def Call.content (b : BoundField) : Call → Option (Bool × List Reference)
  | clear _ => some (true, [])
  | set replacing _ value =>
    match b.field.cardinality with
    | .collection => (Reference.listOfJson value).toOption.map fun rs => (replacing, rs)
    | .single => (Reference.optionOfJson value).toOption.map fun
      | none => (replacing, [])
      | some r => (r.edgeId?.isNone, [r])

/-- A call performs a plan that it has settled. -/
structure Call.Performs (b : BoundField) (call : Call) (replacing : Bool) (value : List Reference)
    (s : MemoryStore) (p : Plan) : Prop where
  content : call.content b = some (replacing, value)
  settled : b.Settled (b.ownerPath call.id) replacing value s p
  ends : (call.run b).ends s = (p.perform b (b.ownerPath call.id)).ends s

variable {call : Call} {replacing : Bool} {value : List Reference}

theorem Call.cases_of_collection (replacing : Bool) (value : List Reference)
    (hcontent : call.content b = some (replacing, value))
    (hrun : (call.run b).ends s = (Collection.set b replacing call.id value).ends s) :
    (call.run b).ends s = (false, s) ∨
      ∃ replacing value p, call.Performs b replacing value s p := by
  rcases Collection.ends_set_cases b replacing call.id value s with hrefused | ⟨p, hplan, hends⟩
  · exact .inl (hrun.trans hrefused)
  · exact .inr ⟨replacing, value, p, hcontent, settled_of_collection hplan, hrun.trans hends⟩

theorem Call.cases_of_singleton (r : Reference) (flag : Bool)
    (hcontent : call.content b = some (r.edgeId?.isNone, [r]))
    (hrun : (call.run b).ends s = (Singleton.set b flag call.id (some r)).ends s) :
    (call.run b).ends s = (false, s) ∨
      ∃ replacing value p, call.Performs b replacing value s p := by
  rcases Singleton.ends_set_cases b flag call.id (some r) s with hrefused | ⟨p, hplan, hends⟩
  · exact .inl (hrun.trans hrefused)
  · exact .inr ⟨_, [r], p, hcontent, settled_of_singleton hplan, hrun.trans hends⟩

/-- **A call is refused, with the store as it was, or performs a plan.** -/
theorem Call.run_cases (b : BoundField) (call : Call) (s : MemoryStore) :
    (call.run b).ends s = (false, s) ∨
      ∃ replacing value p, call.Performs b replacing value s p := by
  cases call with
  | clear id =>
    apply cases_of_collection true [] rfl
    have hclear : ((clear id).run b).ends s = (Collection.clear b id).ends s := by
      unfold run clearValue
      cases b.field.cardinality with
      | collection => exact ends_map _ _ s
      | single =>
        unfold Singleton.clear
        rw [ends_map, Singleton.clearOwner_eq_map, ends_map]
        rfl
    exact hclear.trans (Collection.ends_clear b id s)
  | set replacing id value =>
    cases hcardinality : b.field.cardinality with
    | collection =>
      have hrun : (set replacing id value).run b = (do
          let value ← ofResult (Reference.listOfJson value)
          Reference.listToJson <$> Collection.set b replacing id value :
            EngineM MemoryStore Json) := by
        simp only [run, setValue, hcardinality]
      cases hvalue : Reference.listOfJson value with
      | error e =>
        rw [hrun, hvalue]
        exact .inl rfl
      | ok rs =>
        apply cases_of_collection replacing rs
        · simp only [content, hcardinality, hvalue]
          rfl
        · rw [hrun, hvalue, ofResult_ok_bind, ends_map]
          rfl
    | single =>
      have hrun : (set replacing id value).run b = (do
          let value ← ofResult (Reference.optionOfJson value)
          Reference.optionToJson <$> Singleton.set b replacing id value :
            EngineM MemoryStore Json) := by
        simp only [run, setValue, hcardinality]
      cases hvalue : Reference.optionOfJson value with
      | error e =>
        rw [hrun, hvalue]
        exact .inl rfl
      | ok form =>
        rw [hvalue, ofResult_ok_bind] at hrun
        cases form with
        | none =>
          apply cases_of_collection replacing []
          · simp only [content, hcardinality, hvalue]
            rfl
          · rw [hrun, ends_map, Singleton.ends_set_none]
            rfl
        | some r =>
          apply cases_of_singleton r replacing
          · simp only [content, hcardinality, hvalue]
            rfl
          · rw [hrun, ends_map]
            rfl

/-! ### Runs of calls -/

/-- The stores that calls lead to, one after the other, each of them allowed where it is made
    and whether it succeeds or not. -/
inductive Run (Allowed : BoundField → MemoryStore → Call → Prop) (s : MemoryStore) :
    MemoryStore → Prop
  | refl : Run Allowed s s
  | step {b : BoundField} {t : MemoryStore} {call : Call} (h : Run Allowed s t)
    (hallowed : Allowed b t call) : Run Allowed s (call.run b t).2

/-- **What every allowed call preserves a run of calls preserves.** -/
theorem Run.invariant {Allowed : BoundField → MemoryStore → Call → Prop} {s t : MemoryStore}
    {P : MemoryStore → Prop} (hs : P s)
    (hstep : ∀ b t call, Allowed b t call → P t → P (call.run b t).2) (h : Run Allowed s t) :
    P t := by
  induction h with
  | refl => exact hs
  | step _ hallowed ih => exact hstep _ _ _ hallowed ih

end BoundField

end Calls

end EdgeFields
