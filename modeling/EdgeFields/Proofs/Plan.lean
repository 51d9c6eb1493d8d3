/-
  EdgeFields/Proofs/Plan.lean
  ===========================
  **Plans of writes.**

  A write of a field value first reads the store and settles what to write, and then
  writes. A plan is what the first part hands to the second: the edges to remove, and the
  updates and creations that follow. A plan that fits a store (`Plan.Fits`) removes edges
  at the revisions that they have, updates records that it does not remove and creates the
  rest; performing it cannot fail as long as assigned identifiers are fresh
  (`Plan.perform_of_fits`).
-/
import EdgeFields.Engine.Collection
import EdgeFields.Proofs.Batch
import EdgeFields.Proofs.Existing

namespace EdgeFields

open EngineM

/-! ### Places of the operations of a batch -/

namespace Batch

theorem pairwise_placed {R : String × Operation → String × Operation → Prop}
    {os : List Operation} {n : Nat}
    (h : os.Pairwise fun o o' => ∀ i j, i + o.draws ≤ j → j + o'.draws ≤ draws os →
      R (o.place (n + i), o) (o'.place (n + j), o')) : (placed n os).Pairwise R := by
  -- the bound on serial numbers has to stay that of the whole batch
  suffices hbound : ∀ bound, draws os ≤ bound → (os.Pairwise fun o o' => ∀ i j,
      i + o.draws ≤ j → j + o'.draws ≤ bound → R (o.place (n + i), o) (o'.place (n + j), o')) →
      (placed n os).Pairwise R from hbound _ (Nat.le_refl _) h
  clear h
  induction os generalizing n with
  | nil =>
    intros
    exact .nil
  | cons o os ih =>
    intro bound hle h
    rw [draws_cons] at hle
    rw [List.pairwise_cons] at h
    rw [placed, List.pairwise_cons]
    constructor
    · intro q hq
      obtain ⟨hmem, i, hi, hplace⟩ := mem_of_mem_placed hq
      have hrel := h.1 q.2 hmem 0 (o.draws + i) (by omega) (by omega)
      rw [← Nat.add_assoc, ← hplace] at hrel
      exact hrel
    · apply ih (bound - o.draws) (by omega)
      refine h.2.imp ?_
      intro o₁ o₂ hrel i j hij hj
      have hshift := hrel (o.draws + i) (o.draws + j) (by omega) (by omega)
      rwa [← Nat.add_assoc, ← Nat.add_assoc] at hshift

theorem draws_append (os os' : List Operation) : draws (os ++ os') = draws os + draws os' := by
  induction os with
  | nil => exact (Nat.zero_add _).symm
  | cons o os ih =>
    rw [List.cons_append, draws_cons, draws_cons, ih, Nat.add_assoc]

theorem draws_eq_zero {os : List Operation} (h : ∀ o ∈ os, o.draws = 0) : draws os = 0 := by
  induction os with
  | nil => rfl
  | cons o os ih =>
    rw [List.forall_mem_cons] at h
    rw [draws_cons, h.1, ih h.2]

theorem draws_eq_length {os : List Operation} (h : ∀ o ∈ os, o.draws = 1) :
    draws os = os.length := by
  induction os with
  | nil => rfl
  | cons o os ih =>
    rw [List.forall_mem_cons] at h
    rw [draws_cons, h.1, ih h.2, List.length_cons, Nat.add_comm]

end Batch

/-! ### Batches of the engine -/

namespace BoundField

variable {b : BoundField} {s : MemoryStore} {os : List Operation}

/-- The client form of what an operation leaves shows the edge that was to be written. -/
theorem toReference_answer {o : Operation} {e : Edge}
    (h : ∀ revision, o.leaves revision = some ⟨revision, e.content⟩) (b : BoundField)
    (owner c : String) (s : MemoryStore) :
    b.toReference owner (o.answer c s) =
      .ok (.ofEdge { e with
        id := some (o.place s.serials), revision := some (toString (s.revisions + 1)) }
        owner b.field.name) := by
  rw [Operation.answer_of_leaves (h _), toReference_eq_ok]
  exact ⟨_, Edge.ofRecord_content e _ _, rfl⟩

theorem execute_apply {σ : Type} [Store σ] {s : σ} (hne : os ≠ []) :
    b.execute owner os s =
      match Batch.execute b.edgeContainer b.settings.maxConcurrentOperations none os s with
      | (.ok records, t) => (records.mapM (b.toReference owner), t)
      | (.error e, t) => (.error (.ofBatch e), t) := by
  have hempty : os.isEmpty = false := by simpa using hne
  unfold execute
  rw [hempty, if_neg (by decide), bind_apply, fromBatch_apply]
  rcases Batch.execute b.edgeContainer b.settings.maxConcurrentOperations none os s
    with ⟨e | records, t⟩ <;> rfl

theorem execute_of_feasible (hc : Path.IsAddress b.edgeContainer) (owner : String)
    (h : Batch.Feasible b.edgeContainer s os) :
    ∃ rs, b.execute owner os s = (.ok rs, Batch.after b.edgeContainer s os) ∧
      (Batch.answers b.edgeContainer s os).mapM (b.toReference owner) = .ok rs := by
  by_cases hne : os = []
  · subst hne
    exact ⟨[], rfl, rfl⟩
  · obtain ⟨rs, hrs⟩ : ∃ rs, (Batch.answers b.edgeContainer s os).mapM (b.toReference owner) =
        .ok rs := by
      apply Result.exists_mapM_eq_ok
      intro record hrecord
      obtain ⟨e, he⟩ := h.exists_ofRecord record hrecord
      exact ⟨_, toReference_eq_ok.2 ⟨e, he, rfl⟩⟩
    refine ⟨rs, ?_, hrs⟩
    rw [execute_apply hne, Batch.execute_of_feasible hc h, ← hrs]

end BoundField

/-! ### Plans -/

/-- What a write of a field value does: removals first, then updates and creations. -/
structure Plan where
  removals : List Operation
  writes : List Operation

namespace Plan

variable {b : BoundField} {s : MemoryStore} {p : Plan} {c : String}

def operations (p : Plan) : List Operation := p.removals ++ p.writes

/-- Performs a plan and returns the client forms of what it writes. -/
def perform {σ : Type} [Store σ] (b : BoundField) (owner : String) (p : Plan) :
    EngineM σ (List Reference) := do
  let _ ← b.execute owner p.removals
  b.execute owner p.writes

/-- A plan that fits a store. Its removals are of edges as they are, each once, and its
    updates are of records that it does not remove. -/
structure Fits (p : Plan) (c : String) (s : MemoryStore) : Prop where
  removals : ∀ o ∈ p.removals, ∃ id e, s.HasEdge c id e ∧ o = .delete id e.revision
  apart : p.removals.Pairwise fun o o' => o.place 0 ≠ o'.place 0
  writes : ∀ o ∈ p.writes, (∃ e, o = .create e) ∨
    ∃ id r e, Path.IsId id ∧ s.cell c id = some r ∧ o = .update id none e ∧
      ∀ o' ∈ p.removals, o'.place 0 ≠ id

namespace Fits

theorem draws_operations (h : p.Fits c s) : Batch.draws p.operations = Batch.draws p.writes := by
  have hzero : Batch.draws p.removals = 0 := by
    apply Batch.draws_eq_zero
    intro o ho
    obtain ⟨id, e, _, rfl⟩ := h.removals o ho
    rfl
  rw [operations, Batch.draws_append, hzero, Nat.zero_add]

theorem isId (h : p.Fits c s) {q : String × Operation}
    (hq : q ∈ Batch.placed s.serials p.operations) : Path.IsId q.1 := by
  obtain ⟨hmem, i, _, hplace⟩ := Batch.mem_of_mem_placed hq
  rw [hplace]
  rcases List.mem_append.1 hmem with ho | ho
  · obtain ⟨id, e, hedge, heq⟩ := h.removals _ ho
    rw [heq]
    exact hedge.isId
  · rcases h.writes _ ho with ⟨e, heq⟩ | ⟨id, r, e, hid, _, heq, _⟩
    · rw [heq]
      exact Ids.isId_assigned _
    · rw [heq]
      exact hid

theorem finds (h : p.Fits c s) (hc : Path.IsAddress c)
    (hfresh : s.FreshIds (Batch.draws p.writes)) {q : String × Operation}
    (hq : q ∈ Batch.placed s.serials p.operations) : q.2.Finds (s.cell c q.1) := by
  obtain ⟨hmem, i, hi, hplace⟩ := Batch.mem_of_mem_placed hq
  rw [h.draws_operations] at hi
  rw [hplace]
  rcases List.mem_append.1 hmem with ho | ho
  · obtain ⟨id, e, ⟨_, r, hr, he⟩, heq⟩ := h.removals _ ho
    rw [heq]
    refine ⟨r, hr, ?_, e, he⟩
    rw [(Edge.ofRecord_eq_ok he).2]
    exact .inr rfl
  · rcases h.writes _ ho with ⟨e, heq⟩ | ⟨id, r, e, _, hr, heq, _⟩
    · rw [heq] at hi ⊢
      exact hfresh.unused i hi _ hc.isContainer_trim
    · rw [heq]
      exact ⟨r, hr, .inl rfl⟩

theorem not_overwrites {o : Operation} (h : p.Fits c s) (ho : o ∈ p.removals) :
    ¬o.Overwrites := by
  obtain ⟨id, e, _, rfl⟩ := h.removals o ho
  rintro ⟨id', e', heq⟩
  cases heq

/-- Only updates of one record share a place. -/
theorem overwrites_of_place_eq (h : p.Fits c s) (hc : Path.IsAddress c)
    (hfresh : s.FreshIds (Batch.draws p.writes)) :
    (Batch.placed s.serials p.operations).Pairwise fun q q' =>
      q.1 = q'.1 → q.2.Overwrites ∧ q'.2.Overwrites := by
  apply Batch.pairwise_placed
  rw [h.draws_operations]
  refine List.pairwise_append.2 ⟨?_, ?_, ?_⟩
  · apply h.apart.imp_of_mem
    intro o o' ho ho' hne i j _ _ heq
    obtain ⟨id, e, _, rfl⟩ := h.removals o ho
    obtain ⟨id', e', _, rfl⟩ := h.removals o' ho'
    exact absurd heq hne
  · apply List.pairwise_of_forall_mem_list
    intro o ho o' ho' i j hij hj heq
    rcases h.writes o ho with ⟨e, rfl⟩ | ⟨id, r, e, _, hr, rfl, _⟩
    · have hi : i + 1 ≤ Batch.draws p.writes := Nat.le_trans hij (Nat.le_trans (by omega) hj)
      rcases h.writes o' ho' with ⟨e', rfl⟩ | ⟨id', r', e', _, hr', rfl, _⟩
      · have hsame := hfresh.distinct i hi j hj heq
        exact absurd hij (by rw [hsame]; exact Nat.not_succ_le_self j)
      · exact absurd heq (hfresh.ne hc hr' hi)
    · rcases h.writes o' ho' with ⟨e', rfl⟩ | ⟨id', r', e', _, hr', rfl, _⟩
      · exact absurd heq.symm (hfresh.ne hc hr hj)
      · exact ⟨⟨_, _, rfl⟩, ⟨_, _, rfl⟩⟩
  · intro o ho o' ho' i j _ hj heq
    obtain ⟨id, e, hedge, rfl⟩ := h.removals o ho
    obtain ⟨r, hr, _⟩ := hedge.revision_eq
    rcases h.writes o' ho' with ⟨e', rfl⟩ | ⟨id', r', e', _, _, rfl, hne⟩
    · exact absurd heq.symm (hfresh.ne hc hr hj)
    · exact absurd heq (hne _ ho)

/-- **A plan that fits is feasible.** -/
theorem feasible (h : p.Fits c s) (hc : Path.IsAddress c)
    (hfresh : s.FreshIds (Batch.draws p.writes)) : Batch.Feasible c s p.operations where
  ids := fun _ hq => h.isId hq
  finds := fun _ hq => h.finds hc hfresh hq
  apart := h.overwrites_of_place_eq hc hfresh

end Fits

/-- **Performing a plan that fits succeeds**, and leaves what its operations leave. -/
theorem perform_of_fits (hc : Path.IsAddress b.edgeContainer) (owner : String)
    (h : p.Fits b.edgeContainer s) (hfresh : s.FreshIds (Batch.draws p.writes)) :
    ∃ rs, p.perform b owner s = (.ok rs, Batch.after b.edgeContainer s p.operations) ∧
      (Batch.answers b.edgeContainer (Batch.after b.edgeContainer s p.removals) p.writes).mapM
        (b.toReference owner) = .ok rs := by
  obtain ⟨hremovals, hwrites⟩ := (h.feasible hc hfresh).of_append
  obtain ⟨_, hrun, _⟩ := BoundField.execute_of_feasible hc owner hremovals
  obtain ⟨rs, hrun', hforms⟩ := BoundField.execute_of_feasible hc owner hwrites
  refine ⟨rs, ?_, hforms⟩
  unfold perform
  rw [bind_ok hrun, hrun', operations, Batch.after_append]

end Plan

end EdgeFields
