/-
  EdgeFields/Proofs/Batch.lean
  ============================
  **Batches of writes on a memory store.**

  Every operation of a batch has a place, the identifier that it writes; a creation is
  placed at the identifier that the store assigns at its turn (`Batch.placed`). What a batch
  makes of a store is defined apart from running it (`Batch.after`): only the places of its
  operations change (`Batch.get?_after_of_forall_ne`), and with distinct places each
  operation leaves at its own what it leaves alone (`Batch.cell_after_of_mem`).

  However many operations may be in flight, they take their turns in the order of the batch
  (`Batch.execute_eq`), since a store that answers at once lets the first one complete first.

  A batch is feasible (`Batch.Feasible`) when every operation finds what it needs in the
  store before the batch, and operations at one place all overwrite. No operation of a
  feasible batch fails (`Batch.execute_of_feasible`).
-/
import EdgeFields.Proofs.Edge
import EdgeFields.Proofs.Engine

namespace EdgeFields

open MemoryStore (StoredRecord.toRecord)

/-! ### Single operations -/

namespace Operation

/-- The identifier that an operation writes in a store with a serial number. -/
def place (serial : Nat) : Operation → String
  | create _ => Ids.assigned serial
  | update id _ _ => id
  | delete id _ => id

/-- How many identifiers an operation has the store assign. -/
def draws : Operation → Nat
  | create _ => 1
  | update _ _ _ => 0
  | delete _ _ => 0

/-- What an operation leaves at its place, at a revision. -/
def leaves (revision : Nat) : Operation → Option StoredRecord
  | create e => some ⟨revision, e.content⟩
  | update _ _ e => some ⟨revision, e.content⟩
  | delete _ _ => none

/-- What an operation needs to find at its place. Removed records have to be edges, as
    their client forms are returned. -/
def Finds : Operation → Option StoredRecord → Prop
  | create _, found => found = none
  | update _ expected _, found => ∃ r, found = some r ∧ MemoryStore.Meets expected r
  | delete id expected, found => ∃ r, found = some r ∧ MemoryStore.Meets expected r ∧
      ∃ e, Edge.ofRecord (StoredRecord.toRecord r id) = .ok e

/-- An update whatever the revision: it may follow another one of the same record. -/
def Overwrites (o : Operation) : Prop := ∃ id e, o = update id none e

/-- The store that an operation leaves. -/
def after (c : String) (s : MemoryStore) : Operation → MemoryStore
  | create e => s.nextSerial.put (Path.join (Path.trim c) (Ids.assigned s.serials)) e.content
  | update id _ e => s.put (Path.join (Path.trim c) id) e.content
  | delete id _ => s.remove (Path.join (Path.trim c) id)

/-- The record that an operation answers: the one that it leaves, or else the one that it
    removes. -/
def answer (c : String) (s : MemoryStore) (o : Operation) : Record :=
  StoredRecord.toRecord
    (((o.leaves (s.revisions + 1)).or (s.cell c (o.place s.serials))).getD ⟨0, []⟩)
    (o.place s.serials)

variable {c : String} {s : MemoryStore}

theorem answer_of_leaves {o : Operation} {r : StoredRecord}
    (h : o.leaves (s.revisions + 1) = some r) :
    o.answer c s = StoredRecord.toRecord r (o.place s.serials) := by
  unfold answer
  rw [h]
  rfl

theorem answer_of_found {o : Operation} {r : StoredRecord}
    (h : o.leaves (s.revisions + 1) = none) (hr : s.cell c (o.place s.serials) = some r) :
    o.answer c s = StoredRecord.toRecord r (o.place s.serials) := by
  unfold answer
  rw [h, hr]
  rfl

theorem get?_after (c : String) (s : MemoryStore) (o : Operation) (path : String) :
    Dict.get? (o.after c s).records path =
      if Path.join (Path.trim c) (o.place s.serials) = path then o.leaves (s.revisions + 1)
      else Dict.get? s.records path := by
  cases o with
  | create e => exact MemoryStore.get?_put _ _ _ _
  | update id expected e => exact MemoryStore.get?_put _ _ _ _
  | delete id expected => exact MemoryStore.get?_remove _ _ _

theorem cell_after (c : String) (s : MemoryStore) (o : Operation) (id : String) :
    (o.after c s).cell c id =
      if o.place s.serials = id then o.leaves (s.revisions + 1) else s.cell c id := by
  unfold MemoryStore.cell
  rw [get?_after]
  simp only [Path.join_right_inj]

@[simp] theorem serials_after (c : String) (s : MemoryStore) (o : Operation) :
    (o.after c s).serials = s.serials + o.draws := by
  cases o <;> rfl

theorem wellFormed_after (hs : s.WellFormed) (hc : Path.IsAddress c) (o : Operation)
    (hid : Path.IsId (o.place s.serials)) : (o.after c s).WellFormed := by
  cases o with
  | create e => exact MemoryStore.WellFormed.put hs hc.isContainer_trim hid _
  | update id expected e => exact hs.put hc.isContainer_trim hid _
  | delete id expected => exact hs.remove _

/-- **An operation that finds what it needs succeeds.** -/
theorem run_of_finds (hc : Path.IsAddress c) (o : Operation)
    (hid : Path.IsId (o.place s.serials)) (h : o.Finds (s.cell c (o.place s.serials))) :
    o.run c s = (.ok (o.answer c s), o.after c s) := by
  cases o with
  | create e =>
    have hcreate := MemoryStore.create_assigned hc.isContainer_trim.nonempty h e.content
    rw [Edge.withoutBookkeeping_content] at hcreate
    have hrun := MemoryStore.writing_of_ok (f := fun s => s.create c none (.obj e.content)) hcreate
    rw [answer_of_leaves rfl]
    exact hrun
  | update id expected e =>
    obtain ⟨r, hr, hmeets⟩ := h
    have hupdate := MemoryStore.update_cell hc hid hr hmeets e.content
    rw [Edge.withoutBookkeeping_content] at hupdate
    have hrun := MemoryStore.writing_of_ok
      (f := fun s => s.update (Path.join c id) expected (.obj e.content)) hupdate
    rw [answer_of_leaves rfl]
    exact hrun
  | delete id expected =>
    obtain ⟨r, hr, hmeets, _⟩ := h
    have hdelete := MemoryStore.delete_cell hc hid hr hmeets
    have hrun := MemoryStore.writing_of_ok
      (f := fun s => s.delete (Path.join c id) expected) hdelete
    rw [answer_of_found rfl hr]
    exact hrun

theorem exists_ofRecord_answer (o : Operation) (h : o.Finds (s.cell c (o.place s.serials))) :
    ∃ e, Edge.ofRecord (o.answer c s) = .ok e := by
  cases o with
  | create e =>
    rw [answer_of_leaves rfl]
    exact ⟨_, Edge.ofRecord_content e _ _⟩
  | update id expected e =>
    rw [answer_of_leaves rfl]
    exact ⟨_, Edge.ofRecord_content e _ _⟩
  | delete id expected =>
    obtain ⟨r, hr, _, e, he⟩ := h
    rw [answer_of_found rfl hr]
    exact ⟨e, he⟩

/-- What an overwriting operation leaves is what another one needs. -/
theorem Overwrites.finds_leaves {o o' : Operation} (ho : o.Overwrites) (ho' : o'.Overwrites)
    (revision : Nat) : o'.Finds (o.leaves revision) := by
  obtain ⟨id, e, rfl⟩ := ho
  obtain ⟨id', e', rfl⟩ := ho'
  exact ⟨_, rfl, .inl rfl⟩

end Operation

namespace Batch

/-! ### Turns -/

section Turns

variable {σ : Type} [Store σ]

/-- Runs the operations one after the other, the first of which has the given index. -/
def runFrom (container : String) (index : Nat) : List Operation → StateM σ Report
  | [] => pure []
  | o :: os => do
    let result ← (o.run container).run
    let rest ← runFrom container (index + 1) os
    pure (⟨index, o, result⟩ :: rest)

/-- **Operations take their turns in the order of the batch**, whatever the number of those in
    flight. -/
theorem await_eq_runFrom (c : String) (width : Nat) {n : Nat}
    {inFlight waiting : List (Operation × Nat)} {os : List Operation} {index : Nat}
    (hn : inFlight.length + waiting.length = n)
    (hos : inFlight ++ waiting = os.zipIdx index) :
    await (σ := σ) c width n inFlight waiting = runFrom c index os := by
  induction n generalizing inFlight waiting os index with
  | zero =>
    obtain rfl : inFlight = [] := List.length_eq_zero_iff.1 (by omega)
    obtain rfl : waiting = [] := List.length_eq_zero_iff.1 (by omega)
    obtain rfl := List.zipIdx_eq_nil_iff.1 hos.symm
    rfl
  | succ n ih =>
    have hsplit := List.take_append_drop (max width 1 - inFlight.length) waiting
    rw [← hsplit, ← List.append_assoc] at hos
    rw [await]
    cases hhead : inFlight ++ waiting.take (max width 1 - inFlight.length) with
    | nil =>
      -- there is room for one at least
      obtain ⟨rfl, htake⟩ := List.append_eq_nil_iff.1 hhead
      have hlength := congrArg List.length htake
      simp only [List.length_take, List.length_nil] at hlength hn
      omega
    | cons first inFlight' =>
      rw [hhead] at hos
      have hlength := congrArg List.length hhead
      have hlength' := congrArg List.length hsplit
      rw [List.length_append, List.length_cons] at hlength
      rw [List.length_append] at hlength'
      cases os with
      | nil => cases hos
      | cons o os =>
        rw [List.zipIdx_cons, List.cons_append] at hos
        obtain ⟨rfl, htail⟩ := List.cons.inj hos
        dsimp only
        rw [runFrom, ih (by omega) htail]

/-- A batch that is not too large runs its operations in their order. -/
theorem run_eq_runFrom {limit : Option Nat} {os : List Operation}
    (h : ∀ n, limit = some n → os.length ≤ n) (c : String) (width : Nat) (s : σ) :
    run c width limit os s = (.ok (runFrom c 0 os s).1, (runFrom c 0 os s).2) := by
  have hfits : limit.filter (fun n => n < os.length) = none := by
    cases limit with
    | none => rfl
    | some n => simpa using h n rfl
  rw [run, hfits]
  dsimp only
  rw [await_eq_runFrom c width (by simp) rfl]
  rfl

/-- A batch without a limit answers what its report says. -/
theorem execute_eq (c : String) (width : Nat) (os : List Operation) (s : σ) :
    execute c width none os s = ((runFrom c 0 os s).1.result, (runFrom c 0 os s).2) := by
  have hrun : run c width none os s = (.ok (runFrom c 0 os s).1, (runFrom c 0 os s).2) :=
    run_eq_runFrom (fun _ h => by cases h) c width s
  unfold execute
  simp only [bind, ExceptT.bind, ExceptT.mk, StateT.bind, hrun, ExceptT.bindCont]
  rfl

end Turns

variable {c path : String} {s : MemoryStore} {os os' : List Operation}

/-! ### Places -/

/-- How many identifiers the store assigns for a batch. -/
def draws : List Operation → Nat
  | [] => 0
  | o :: os => o.draws + draws os

/-- The operations of a batch at their places, in a store with a serial number. -/
def placed : Nat → List Operation → List (String × Operation)
  | _, [] => []
  | n, o :: os => (o.place n, o) :: placed (n + o.draws) os

theorem draws_cons (o : Operation) (os : List Operation) :
    draws (o :: os) = o.draws + draws os := rfl

theorem placed_append (n : Nat) (os os' : List Operation) :
    placed n (os ++ os') = placed n os ++ placed (n + draws os) os' := by
  induction os generalizing n with
  | nil => simp [placed, draws]
  | cons o os ih =>
    rw [List.cons_append, placed, placed, ih, draws_cons, Nat.add_assoc, List.cons_append]

theorem mem_of_mem_placed {n : Nat} {q : String × Operation} (h : q ∈ placed n os) :
    q.2 ∈ os ∧ ∃ i, i + q.2.draws ≤ draws os ∧ q.1 = q.2.place (n + i) := by
  induction os generalizing n with
  | nil => cases h
  | cons o os ih =>
    rw [draws_cons]
    rcases List.mem_cons.1 h with rfl | h
    · exact ⟨List.mem_cons_self .., 0, by simp, rfl⟩
    · obtain ⟨hmem, i, hi, hplace⟩ := ih h
      refine ⟨List.mem_cons_of_mem _ hmem, o.draws + i, by omega, ?_⟩
      rw [hplace, Nat.add_assoc]

theorem exists_mem_placed {o : Operation} (h : o ∈ os) (n : Nat) :
    ∃ i, i + o.draws ≤ draws os ∧ (o.place (n + i), o) ∈ placed n os := by
  induction os generalizing n with
  | nil => cases h
  | cons o' os ih =>
    rw [draws_cons]
    rcases List.mem_cons.1 h with rfl | h
    · exact ⟨0, by omega, List.mem_cons_self ..⟩
    · obtain ⟨i, hi, hmem⟩ := ih h (n + o'.draws)
      refine ⟨o'.draws + i, by omega, List.mem_cons_of_mem _ ?_⟩
      rwa [← Nat.add_assoc]

/-! ### What a batch makes of a store -/

/-- The store that a batch leaves. -/
def after (c : String) : MemoryStore → List Operation → MemoryStore
  | s, [] => s
  | s, o :: os => after c (o.after c s) os

/-- The records that a batch answers. -/
def answers (c : String) : MemoryStore → List Operation → List Record
  | _, [] => []
  | s, o :: os => o.answer c s :: answers c (o.after c s) os

theorem after_append (c : String) (s : MemoryStore) (os os' : List Operation) :
    after c s (os ++ os') = after c (after c s os) os' := by
  induction os generalizing s with
  | nil => rfl
  | cons o os ih => exact ih _

theorem serials_after (c : String) (s : MemoryStore) (os : List Operation) :
    (after c s os).serials = s.serials + draws os := by
  induction os generalizing s with
  | nil => rfl
  | cons o os ih =>
    rw [after, ih, Operation.serials_after, draws_cons, Nat.add_assoc]

/-- A batch changes nothing but the places of its operations. -/
theorem get?_after_of_forall_ne
    (h : ∀ q ∈ placed s.serials os, Path.join (Path.trim c) q.1 ≠ path) :
    Dict.get? (after c s os).records path = Dict.get? s.records path := by
  induction os generalizing s with
  | nil => rfl
  | cons o os ih =>
    rw [placed, List.forall_mem_cons] at h
    rw [after, ih, Operation.get?_after, if_neg h.1]
    rw [Operation.serials_after]
    exact h.2

theorem cell_after_of_forall_ne {id : String} (h : ∀ q ∈ placed s.serials os, q.1 ≠ id) :
    (after c s os).cell c id = s.cell c id :=
  get?_after_of_forall_ne fun q hq heq => h q hq (Path.join_right_inj.1 heq)

/-- **At its own place an operation leaves what it leaves alone**, if no other operation
    has the same place. -/
theorem cell_after_of_mem (h : (placed s.serials os).Pairwise fun p q => p.1 ≠ q.1)
    {q : String × Operation} (hq : q ∈ placed s.serials os) :
    ∃ revision, (after c s os).cell c q.1 = q.2.leaves revision := by
  induction os generalizing s with
  | nil => cases hq
  | cons o os ih =>
    rw [placed] at h hq
    rw [← Operation.serials_after c] at h hq
    rw [List.pairwise_cons] at h
    rw [after]
    rcases List.mem_cons.1 hq with rfl | hq
    · refine ⟨s.revisions + 1, ?_⟩
      rw [cell_after_of_forall_ne fun q hq => Ne.symm (h.1 q hq), Operation.cell_after, if_pos rfl]
    · exact ih h.2 hq

theorem exists_cell_after (c : String)
    (h : (placed s.serials os).Pairwise fun p q => p.1 ≠ q.1) {o : Operation} (ho : o ∈ os) :
    ∃ i, i + o.draws ≤ draws os ∧ (o.place (s.serials + i), o) ∈ placed s.serials os ∧
      ∃ revision, (after c s os).cell c (o.place (s.serials + i)) = o.leaves revision := by
  obtain ⟨i, hi, hmem⟩ := exists_mem_placed ho s.serials
  have hcell := cell_after_of_mem (c := c) h hmem
  exact ⟨i, hi, hmem, hcell⟩

/-- Answers of writes are the records that are left, if all places are distinct. -/
theorem cell_after_of_mem_answers (c : String)
    (h : (placed s.serials os).Pairwise fun p q => p.1 ≠ q.1)
    (hwrites : ∀ o ∈ os, ∀ revision, ∃ r, o.leaves revision = some r) {record : Record}
    (hrecord : record ∈ answers c s os) :
    (∃ q ∈ placed s.serials os, record.id = q.1) ∧
      ∃ r, (after c s os).cell c record.id = some r ∧
        record = StoredRecord.toRecord r record.id := by
  induction os generalizing s with
  | nil => cases hrecord
  | cons o os ih =>
    rw [placed] at h
    rw [← Operation.serials_after c, List.pairwise_cons] at h
    rw [List.forall_mem_cons] at hwrites
    rcases List.mem_cons.1 hrecord with rfl | hrecord
    · obtain ⟨r, hr⟩ := hwrites.1 (s.revisions + 1)
      rw [Operation.answer_of_leaves hr]
      refine ⟨⟨_, List.mem_cons_self .., rfl⟩, r, ?_, rfl⟩
      show (after c (o.after c s) os).cell c (o.place s.serials) = some r
      rw [cell_after_of_forall_ne fun q hq => Ne.symm (h.1 q hq), Operation.cell_after]
      exact (if_pos rfl).trans hr
    · obtain ⟨⟨q, hq, hid⟩, hcell⟩ := ih h.2 hwrites.2 hrecord
      rw [Operation.serials_after] at hq
      exact ⟨⟨q, List.mem_cons_of_mem _ hq, hid⟩, hcell⟩

/-! ### Feasible batches -/

/-- Every operation finds what it needs, and operations at one place all overwrite. -/
structure Feasible (c : String) (s : MemoryStore) (os : List Operation) : Prop where
  ids : ∀ q ∈ placed s.serials os, Path.IsId q.1
  finds : ∀ q ∈ placed s.serials os, q.2.Finds (s.cell c q.1)
  apart : (placed s.serials os).Pairwise fun p q =>
    p.1 = q.1 → p.2.Overwrites ∧ q.2.Overwrites

theorem Feasible.tail {o : Operation} (h : Feasible c s (o :: os)) :
    Feasible c (o.after c s) os := by
  have hids := h.ids
  have hfinds := h.finds
  have hapart := h.apart
  rw [placed, List.forall_mem_cons] at hids hfinds
  rw [placed, List.pairwise_cons] at hapart
  rw [← Operation.serials_after c] at hids hfinds hapart
  refine ⟨hids.2, fun q hq => ?_, hapart.2⟩
  rw [Operation.cell_after]
  split
  · rename_i heq
    obtain ⟨ho, hq'⟩ := hapart.1 q hq heq
    exact ho.finds_leaves hq' _
  · exact hfinds.2 q hq

/-- The operations of a feasible batch run to the end of any part of it. -/
theorem Feasible.of_append (h : Feasible c s (os ++ os')) :
    Feasible c s os ∧ Feasible c (after c s os) os' := by
  constructor
  · obtain ⟨hids, hfinds, hapart⟩ := h
    rw [placed_append] at hids hfinds hapart
    exact ⟨fun q hq => hids q (List.mem_append_left _ hq),
      fun q hq => hfinds q (List.mem_append_left _ hq), (List.pairwise_append.1 hapart).1⟩
  · induction os generalizing s with
    | nil => exact h
    | cons o os ih => exact ih h.tail

theorem Feasible.wellFormed_after (hs : s.WellFormed) (hc : Path.IsAddress c)
    (h : Feasible c s os) : (after c s os).WellFormed := by
  induction os generalizing s with
  | nil => exact hs
  | cons o os ih =>
    exact ih (Operation.wellFormed_after hs hc o (h.ids _ (List.mem_cons_self ..))) h.tail

theorem runFrom_of_feasible (hc : Path.IsAddress c) (h : Feasible c s os) (index : Nat) :
    ∃ report : Report, runFrom c index os s = (report, after c s os) ∧
      report.failures = [] ∧ report.completed.map (·.2) = answers c s os := by
  induction os generalizing s index with
  | nil => exact ⟨[], rfl, rfl, rfl⟩
  | cons o os ih =>
    have hrun := Operation.run_of_finds hc o (h.ids _ (List.mem_cons_self ..))
      (h.finds _ (List.mem_cons_self ..))
    obtain ⟨report, hreport, hfailures, hcompleted⟩ := ih h.tail (index + 1)
    refine ⟨⟨index, o, .ok (o.answer c s)⟩ :: report, ?_, hfailures, ?_⟩
    · simp only [runFrom, bind, StateT.bind, ExceptT.run, hrun, hreport]
      rfl
    · rw [answers, ← hcompleted]
      rfl

/-- **A feasible batch runs without a failure.** -/
theorem execute_of_feasible {width : Nat} (hc : Path.IsAddress c) (h : Feasible c s os) :
    execute c width none os s = (.ok (answers c s os), after c s os) := by
  obtain ⟨report, hreport, hfailures, hcompleted⟩ := runFrom_of_feasible hc h 0
  rw [execute_eq, hreport]
  unfold Report.result
  rw [hfailures, ← hcompleted]

theorem Feasible.exists_ofRecord (h : Feasible c s os) :
    ∀ record ∈ answers c s os, ∃ e, Edge.ofRecord record = .ok e := by
  induction os generalizing s with
  | nil => exact fun _ hr => nomatch hr
  | cons o os ih =>
    rw [answers, List.forall_mem_cons]
    exact ⟨Operation.exists_ofRecord_answer o (h.finds _ (List.mem_cons_self ..)), ih h.tail⟩

end Batch

end EdgeFields
