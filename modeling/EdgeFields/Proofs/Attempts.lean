/-
  EdgeFields/Proofs/Attempts.lean
  ===============================
  **Batches of which operations may fail.**

  Whatever the store, a batch attempts every operation once, in its order. What becomes of the
  operations (`Batch.outcomes`) and what they leave (`Batch.attempted`) is defined apart from
  the queue of those in flight; the errors of a batch are told by the first operation that
  failed (`BoundField.execute_of_failure`), and how many operations may be in flight makes no
  difference to a write (`Collection.set_limited`).
-/
import EdgeFields.Proofs.Collection

namespace EdgeFields

open EngineM

variable {σ : Type} [Store σ]

/-! ### Attempts -/

namespace Batch

variable {c : String} {s : σ} {e : StoreError} {outs : List (Except StoreError Record)}

/-- What becomes of operations that are attempted one after the other, each of them once and
    whatever becomes of the others. -/
def outcomes (c : String) : σ → List Operation → List (Except StoreError Record)
  | _, [] => []
  | s, o :: os => (o.run c s).1 :: outcomes c (o.run c s).2 os

/-- The store that is left when all operations have been attempted. -/
def attempted (c : String) : σ → List Operation → σ
  | s, [] => s
  | s, o :: os => attempted c (o.run c s).2 os

theorem outcomes_cons {o : Operation} {x : Except StoreError Record} {t : σ}
    (h : o.run c s = (x, t)) (os : List Operation) :
    outcomes c s (o :: os) = x :: outcomes c t os := by
  rw [outcomes, h]

theorem attempted_cons {o : Operation} {x : Except StoreError Record} {t : σ}
    (h : o.run c s = (x, t)) (os : List Operation) :
    attempted c s (o :: os) = attempted c t os := by
  rw [attempted, h]

/-- **What every operation answers, as long as the others keep to an invariant, all answer.** -/
theorem forall_mem_outcomes {os : List Operation} {I : σ → Prop} {Q : Record → Prop}
    (hstep : ∀ o ∈ os, ∀ s, I s →
      I (o.run c s).2 ∧ ∀ record, (o.run c s).1 = .ok record → Q record) (hs : I s) :
    ∀ record, .ok record ∈ outcomes c s os → Q record := by
  induction os generalizing s with
  | nil => exact fun _ h => nomatch h
  | cons o os ih =>
    rw [List.forall_mem_cons] at hstep
    obtain ⟨hkept, hfirst⟩ := hstep.1 s hs
    intro record hmem
    rw [outcomes] at hmem
    rcases List.mem_cons.1 hmem with heq | hmem
    · exact hfirst record heq.symm
    · exact ih hstep.2 hkept record hmem

/-- The error of an operation that failed. -/
def failure? : Except StoreError Record → Option StoreError
  | .error e => some e
  | .ok _ => none

/-- The error of the first operation that failed. -/
def firstFailure (outs : List (Except StoreError Record)) : Option StoreError :=
  outs.findSome? failure?

/-- Operations of which none failed have all answered. -/
theorem eq_map_ok_of_firstFailure (h : firstFailure outs = none) :
    ∃ records : List Record, outs = records.map .ok := by
  induction outs with
  | nil => exact ⟨[], rfl⟩
  | cons x outs ih =>
    cases x with
    | error e => cases h
    | ok record =>
      obtain ⟨records, rfl⟩ := ih h
      exact ⟨record :: records, rfl⟩

/-- **A report tells what became of every operation.** -/
theorem exists_report (c : String) (index : Nat) (os : List Operation) (s : σ) :
    ∃ report : Report, runFrom c index os s = (report, attempted c s os) ∧
      report.map (·.result) = outcomes c s os := by
  induction os generalizing index s with
  | nil => exact ⟨[], rfl, rfl⟩
  | cons o os ih =>
    rcases hrun : o.run c s with ⟨x, t⟩
    obtain ⟨report, hreport, houtcomes⟩ := ih (index + 1) t
    refine ⟨⟨index, o, x⟩ :: report, ?_, ?_⟩
    · rw [attempted_cons hrun]
      simp only [runFrom, bind, StateT.bind, ExceptT.run, hrun, hreport]
      rfl
    · rw [List.map_cons, houtcomes, outcomes_cons hrun]

namespace Report

variable {r : Report}

theorem result_of_failure (h : firstFailure (r.map (·.result)) = some e) :
    ∃ index kind, r.result = .error (.operationFailed index kind e) := by
  suffices hfailures : ∃ index kind rest, r.failures = (index, kind, e) :: rest by
    obtain ⟨index, kind, rest, hfailures⟩ := hfailures
    refine ⟨index, kind, ?_⟩
    unfold result
    rw [hfailures]
  induction r with
  | nil => cases h
  | cons outcome r ih =>
    obtain ⟨index, o, x⟩ := outcome
    cases x with
    | error e' =>
      cases h
      exact ⟨index, o.kind, failures r, rfl⟩
    | ok record => exact ih h

theorem result_of_records {records : List Record}
    (h : r.map (·.result) = records.map .ok) : r.result = .ok records := by
  suffices hall : r.failures = [] ∧ r.completed.map (·.2) = records by
    unfold result
    rw [hall.1, hall.2]
  induction r generalizing records with
  | nil =>
    cases records with
    | nil => exact ⟨rfl, rfl⟩
    | cons record records => cases h
  | cons outcome r ih =>
    cases records with
    | nil => cases h
    | cons record records =>
      obtain ⟨index, o, x⟩ := outcome
      obtain ⟨rfl, hrest⟩ := List.cons.inj h
      obtain ⟨hfailures, hcompleted⟩ := ih hrest
      exact ⟨hfailures, congrArg (record :: ·) hcompleted⟩

end Report

/-- A batch without a limit fails as its first operation that fails. -/
theorem execute_of_failure (width : Nat) {os : List Operation}
    (h : firstFailure (outcomes c s os) = some e) :
    ∃ index kind, execute c width none os s =
      (.error (.operationFailed index kind e), attempted c s os) := by
  obtain ⟨report, hrun, houtcomes⟩ := exists_report c 0 os s
  rw [← houtcomes] at h
  obtain ⟨index, kind, hresult⟩ := Report.result_of_failure h
  refine ⟨index, kind, ?_⟩
  rw [execute_eq, hrun, hresult]

theorem execute_of_records (width : Nat) {os : List Operation} {records : List Record}
    (h : outcomes c s os = records.map .ok) :
    execute c width none os s = (.ok records, attempted c s os) := by
  obtain ⟨report, hrun, houtcomes⟩ := exists_report c 0 os s
  rw [execute_eq, hrun, Report.result_of_records (houtcomes.trans h)]

end Batch

namespace BoundField

variable {b : BoundField} {owner : String} {s : σ} {os : List Operation} {e : StoreError}

/-- **Writes of which some fail have all been attempted**, and the first failure is the error
    of all. -/
theorem execute_of_failure (h : Batch.firstFailure (Batch.outcomes b.edgeContainer s os) = some e) :
    b.execute owner os s = (.error (.store e), Batch.attempted b.edgeContainer s os) := by
  have hne : os ≠ [] := by
    rintro rfl
    cases h
  obtain ⟨index, kind, hrun⟩ := Batch.execute_of_failure b.settings.maxConcurrentOperations h
  rw [execute_apply hne, hrun]
  rfl

theorem execute_of_records {records : List Record}
    (h : Batch.outcomes b.edgeContainer s os = records.map .ok) :
    b.execute owner os s =
      (records.mapM (b.toReference owner), Batch.attempted b.edgeContainer s os) := by
  by_cases hne : os = []
  · subst hne
    obtain rfl : records = [] := by
      cases records with
      | nil => rfl
      | cons record records => cases h
    rfl
  · rw [execute_apply hne, Batch.execute_of_records _ h]

/-- Writes of which none fails answer references, if the records that they answer are edges. -/
theorem execute_of_no_failure (owner : String)
    (h : Batch.firstFailure (Batch.outcomes b.edgeContainer s os) = none)
    (hedges : ∀ record, .ok record ∈ Batch.outcomes b.edgeContainer s os →
      ∃ e, Edge.ofRecord record = .ok e) :
    ∃ rs, b.execute owner os s = (.ok rs, Batch.attempted b.edgeContainer s os) := by
  obtain ⟨records, hrecords⟩ := Batch.eq_map_ok_of_firstFailure h
  obtain ⟨rs, hrs⟩ : ∃ rs, records.mapM (b.toReference owner) = .ok rs := by
    apply Result.exists_mapM_eq_ok
    intro record hrecord
    have hmem : .ok record ∈ Batch.outcomes b.edgeContainer s os := by
      rw [hrecords]
      exact List.mem_map_of_mem hrecord
    obtain ⟨e, he⟩ := hedges record hmem
    exact ⟨_, toReference_eq_ok.2 ⟨e, he, rfl⟩⟩
  exact ⟨rs, by rw [execute_of_records hrecords, hrs]⟩

/-! ### The number of operations in flight -/

/-- The field with another number of operations that may be in flight. -/
def limited (b : BoundField) (width : Nat) : BoundField :=
  { b with settings := { b.settings with maxConcurrentOperations := width } }

theorem execute_limited (b : BoundField) (width : Nat) (owner : String) (os : List Operation)
    (s : σ) : (b.limited width).execute owner os s = b.execute owner os s := by
  by_cases hne : os = []
  · subst hne
    rfl
  · rw [execute_apply hne, execute_apply hne, Batch.execute_eq, Batch.execute_eq]
    rfl

end BoundField

theorem Plan.perform_limited (b : BoundField) (width : Nat) (owner : String) (p : Plan) (s : σ) :
    p.perform (b.limited width) owner s = p.perform b owner s := by
  unfold perform
  rw [bind_apply, bind_apply, BoundField.execute_limited]
  rcases b.execute owner p.removals s with ⟨e | removed, t⟩
  · rfl
  · exact BoundField.execute_limited b width owner p.writes t

/-- **How many operations may be in flight makes no difference to a write.** -/
theorem Collection.set_limited (b : BoundField) (width : Nat) (replacing : Bool) (id : String)
    (value : List Reference) (s : σ) :
    set (b.limited width) replacing id value s = set b replacing id value s := by
  have hplan : (plan (b.limited width) replacing id value : EngineM σ Plan) =
      plan b replacing id value := rfl
  rw [set_eq_plan, set_eq_plan, hplan, bind_apply, bind_apply]
  rcases plan b replacing id value s with ⟨e | p, t⟩
  · rfl
  · exact Plan.perform_limited b width _ p t

end EdgeFields
