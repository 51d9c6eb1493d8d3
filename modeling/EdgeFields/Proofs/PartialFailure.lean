/-
  EdgeFields/Proofs/PartialFailure.lean
  =====================================
  **What is left of a write when single store operations fail.**

  A value that passes all checks is written in two batches, removals first. On a store with
  faults (`FaultyStore`) `Collection.set_partial_failure` says what becomes of it, whichever
  calls fail: every removal is attempted once, and if one fails nothing else is; otherwise every
  update and every creation is attempted once, and those that succeed stay.

  Nothing is asked of the store but that operations led to it. Removals expect the revision of
  the edge that was found, so that those which succeed answer records that are edges, and the
  second batch is reached (`FaultyStore.ofRecord_of_removals`). In a store as the engine keeps
  it nothing but the faults makes an operation fail, whichever of them they pick: a part of a
  plan that fits fits too (`Plan.Fits.sublist`).
-/
import EdgeFields.Proofs.FaultyStore
import EdgeFields.Proofs.Rejection
import EdgeFields.Proofs.Revisions
import EdgeFields.Proofs.Steps

namespace EdgeFields

open EngineM
open MemoryStore (StoredRecord.toRecord)

/-! ### Plans and their operations -/

theorem Batch.draws_le_of_sublist {os os' : List Operation} (h : os.Sublist os') :
    draws os ≤ draws os' := by
  induction h with
  | slnil => exact Nat.le_refl _
  | cons o _ ih =>
    rw [draws_cons]
    omega
  | cons_cons o _ ih =>
    rw [draws_cons, draws_cons]
    omega

/-- A part of a plan that fits fits too. -/
theorem Plan.Fits.sublist {p : Plan} {c : String} {s : MemoryStore} (h : p.Fits c s)
    {removals writes : List Operation} (hremovals : removals.Sublist p.removals)
    (hwrites : writes.Sublist p.writes) : Plan.Fits ⟨removals, writes⟩ c s where
  removals := fun o ho => h.removals o (hremovals.subset ho)
  apart := h.apart.sublist hremovals
  writes := by
    intro o ho
    rcases h.writes o (hwrites.subset ho) with hcreate | ⟨id, r, e, hid, hr, heq, hgone⟩
    · exact .inl hcreate
    · exact .inr ⟨id, r, e, hid, hr, heq, fun o' ho' => hgone o' (hremovals.subset ho')⟩

/-- An operation removes an edge of a store, at the revision of the edge. -/
def Operation.Removes (c : String) (s : MemoryStore) (o : Operation) : Prop :=
  ∃ path id e, s.EdgeAt c path e ∧ e.id = some id ∧ o = .delete id e.revision

theorem Operation.id_answer (c : String) (s : MemoryStore) (o : Operation) :
    (o.answer c s).id = o.place s.serials := rfl

namespace FaultyStore

variable {faults : List StoreCall → StoreCall → Option StoreError} {c id : String}
  {t : FaultyStore faults} {os : List Operation} {o : Operation} {record : Record}

/-! ### Removals -/

/-- A removal leaves no new records, and answers the edge if it succeeds. -/
theorem run_of_removes {s : MemoryStore} (hs : s.Dated) (hc : Path.IsAddress c)
    (ho : o.Removes c s) (hsub : t.store.Within s) :
    (o.run c t).2.store.Within s ∧
      ∀ record, (o.run c t).1 = .ok record → ∃ e, Edge.ofRecord record = .ok e := by
  rcases run_cases c o t with ⟨error, hrun⟩ | ⟨removed, u, hinside, hrun⟩
  · rw [hrun]
    exact ⟨hsub, fun _ h => nomatch h⟩
  · obtain ⟨path, id, e, hat, hid, rfl⟩ := ho
    rw [Operation.run_delete] at hinside
    obtain ⟨_, hok, hdelete⟩ | ⟨_, herror, _⟩ := MemoryStore.writing_cases hinside
    · cases hok
      rw [hrun]
      constructor
      · rw [MemoryStore.delete_eq_ok_cases hdelete]
        exact hsub.remove _
      · rintro _ ⟨⟩
        exact ⟨e, hat.of_delete hs hc hid hsub hdelete⟩
    · cases herror

/-- **Removals that succeed answer edges**, whichever others fail. -/
theorem ofRecord_of_removals (hs : t.store.Dated) (hc : Path.IsAddress c)
    (hos : ∀ o ∈ os, o.Removes c t.store) :
    ∀ record, .ok record ∈ Batch.outcomes c t os → ∃ e, Edge.ofRecord record = .ok e :=
  Batch.forall_mem_outcomes (I := fun u => u.store.Within t.store)
    (fun o ho _ hsub => run_of_removes hs hc (hos o ho) hsub) (MemoryStore.within_refl t.store)

/-! ### Updates and creations -/

/-- A write that succeeds has found what it needs and leaves what it leaves alone. -/
theorem run_cases_of_authored (hc : Path.IsAddress c) (ho : o.Authored) (t : FaultyStore faults) :
    (∃ e, o.run c t = (.error e, ⟨t.store, t.calls ++ [o.call c]⟩)) ∨
      o.Finds (t.store.cell c (o.place t.store.serials)) ∧
        o.run c t = (.ok (o.answer c t.store), ⟨o.after c t.store, t.calls ++ [o.call c]⟩) := by
  rcases run_cases c o t with hfailed | ⟨record, s, hinside, hrun⟩
  · exact .inl hfailed
  · have hfinds := ho.finds_of_run hc hinside
    have hall := Operation.run_of_finds hc o (ho.isId _) hfinds
    rw [hinside] at hall
    cases hall
    exact .inr ⟨hfinds, hrun⟩

/-- Writes that succeed answer edges. -/
theorem ofRecord_of_writes (hc : Path.IsAddress c) (hos : ∀ o ∈ os, o.Authored) :
    ∀ record, .ok record ∈ Batch.outcomes c t os → ∃ e, Edge.ofRecord record = .ok e := by
  refine Batch.forall_mem_outcomes (I := fun _ => True) ?_ trivial
  intro o ho u _
  refine ⟨trivial, ?_⟩
  rcases run_cases_of_authored hc (hos o ho) u with ⟨error, hrun⟩ | ⟨hfinds, hrun⟩
  · rw [hrun]
    exact fun _ h => nomatch h
  · rw [hrun]
    rintro _ ⟨⟩
    exact Operation.exists_ofRecord_answer o hfinds

/-- Writes that succeed elsewhere leave a record alone. -/
theorem cell_attempted (hc : Path.IsAddress c) (hos : ∀ o ∈ os, o.Authored)
    (h : ∀ record, .ok record ∈ Batch.outcomes c t os → record.id ≠ id) :
    (Batch.attempted c t os).store.cell c id = t.store.cell c id := by
  induction os generalizing t with
  | nil => rfl
  | cons o os ih =>
    rw [List.forall_mem_cons] at hos
    rcases run_cases_of_authored hc hos.1 t with ⟨error, hrun⟩ | ⟨_, hrun⟩
    · rw [Batch.outcomes_cons hrun] at h
      rw [Batch.attempted_cons hrun]
      exact ih hos.2 fun record hmem => h record (List.mem_cons_of_mem _ hmem)
    · rw [Batch.outcomes_cons hrun] at h
      have hplace : o.place t.store.serials ≠ id := h _ (List.mem_cons_self ..)
      rw [Batch.attempted_cons hrun,
        ih hos.2 fun record hmem => h record (List.mem_cons_of_mem _ hmem)]
      rw [Operation.cell_after, if_neg hplace]

/-- **What a write answers is read back afterwards**, whichever others fail, unless a later one
    of the same record succeeds. -/
theorem read_attempted (hc : Path.IsAddress c) (hos : ∀ o ∈ os, o.Authored)
    {rest : List (Except StoreError Record)}
    (h : (.ok record :: rest) <:+ Batch.outcomes c t os)
    (hlast : ∀ later, .ok later ∈ rest → later.id ≠ record.id) :
    (Batch.attempted c t os).store.read (Path.join c record.id) = .ok record := by
  induction os generalizing t with
  | nil => cases List.suffix_nil.1 h
  | cons o os ih =>
    rw [List.forall_mem_cons] at hos
    rcases run_cases_of_authored hc hos.1 t with ⟨error, hrun⟩ | ⟨_, hrun⟩
    · rw [Batch.outcomes_cons hrun] at h
      rw [Batch.attempted_cons hrun]
      rcases List.suffix_cons_iff.1 h with heq | hsuffix
      · cases heq
      · exact ih hos.2 hsuffix
    · rw [Batch.outcomes_cons hrun] at h
      rw [Batch.attempted_cons hrun]
      rcases List.suffix_cons_iff.1 h with heq | hsuffix
      · cases heq
        obtain ⟨e, _, hleaves⟩ := hos.1.exists_leaves
        have hcell := cell_attempted hc hos.2 hlast
        rw [Operation.id_answer, Operation.cell_after, if_pos rfl, hleaves] at hcell
        rw [Operation.id_answer, Operation.answer_of_leaves (hleaves _)]
        unfold MemoryStore.read
        rw [MemoryStore.find_join hc (hos.1.isId _) hcell]
        rfl
      · exact ih hos.2 hsuffix

/-! ### What fails -/

/-- What the faults say of calls that are made one after the other. -/
def verdicts (faults : List StoreCall → StoreCall → Option StoreError) :
    List StoreCall → List StoreCall → List (Option StoreError)
  | _, [] => []
  | past, call :: calls => faults past call :: verdicts faults (past ++ [call]) calls

/-- The operations that the faults let through, when all are attempted one after the other. -/
def passed (faults : List StoreCall → StoreCall → Option StoreError) (c : String) :
    List StoreCall → List Operation → List Operation
  | _, [] => []
  | past, o :: os =>
    match faults past (o.call c) with
    | some _ => passed faults c (past ++ [o.call c]) os
    | none => o :: passed faults c (past ++ [o.call c]) os

theorem passed_sublist (faults : List StoreCall → StoreCall → Option StoreError) (c : String)
    (past : List StoreCall) (os : List Operation) : (passed faults c past os).Sublist os := by
  induction os generalizing past with
  | nil => exact .slnil
  | cons o os ih =>
    rw [passed]
    split
    · exact (ih _).cons o
    · exact (ih _).cons_cons o

/-- Operations fail just where the faults say so, and the others do what they do alone. -/
structure FailsByFaults (c : String) (t : FaultyStore faults) (os : List Operation) : Prop where
  failures : (Batch.outcomes c t os).map Batch.failure? =
    verdicts faults t.calls (os.map (Operation.call c))
  store : (Batch.attempted c t os).store = Batch.after c t.store (passed faults c t.calls os)

namespace FailsByFaults

theorem cons_of_fault {e : StoreError} (hfault : faults t.calls (o.call c) = some e)
    (h : FailsByFaults c (⟨t.store, t.calls ++ [o.call c]⟩ : FaultyStore faults) os) :
    FailsByFaults c t (o :: os) where
  failures := by
    rw [Batch.outcomes_cons (run_of_fault hfault), List.map_cons, h.failures, List.map_cons,
      verdicts, hfault]
    rfl
  store := by
    rw [Batch.attempted_cons (run_of_fault hfault), h.store, passed, hfault]

theorem cons_of_finds (hc : Path.IsAddress c) (hfault : faults t.calls (o.call c) = none)
    (hid : Path.IsId (o.place t.store.serials))
    (hfinds : o.Finds (t.store.cell c (o.place t.store.serials)))
    (h : FailsByFaults c (⟨o.after c t.store, t.calls ++ [o.call c]⟩ : FaultyStore faults) os) :
    FailsByFaults c t (o :: os) := by
  have hrun := run_of_no_fault hfault (Operation.run_of_finds hc o hid hfinds)
  constructor
  · rw [Batch.outcomes_cons hrun, List.map_cons, h.failures, List.map_cons, verdicts, hfault]
    rfl
  · rw [Batch.attempted_cons hrun, h.store, passed, hfault]
    rfl

/-- **Only faults make operations fail**, if those that they let through are feasible. -/
theorem of_feasible (hc : Path.IsAddress c)
    (h : Batch.Feasible c t.store (passed faults c t.calls os)) : FailsByFaults c t os := by
  induction os generalizing t with
  | nil => exact ⟨rfl, rfl⟩
  | cons o os ih =>
    rw [passed] at h
    cases hfault : faults t.calls (o.call c) with
    | some e =>
      rw [hfault] at h
      exact cons_of_fault hfault (ih h)
    | none =>
      rw [hfault] at h
      exact cons_of_finds hc hfault (h.ids _ (List.mem_cons_self ..))
        (h.finds _ (List.mem_cons_self ..)) (ih h.tail)

/-- **Only faults make the operations of a plan fail that fits**, as long as assigned
    identifiers are fresh. -/
theorem of_fits {p : Plan} (hc : Path.IsAddress c) (h : p.Fits c t.store)
    (hfresh : t.store.FreshIds (Batch.draws p.writes)) :
    FailsByFaults c t p.removals ∧ FailsByFaults c (Batch.attempted c t p.removals) p.writes := by
  have hremovals := passed_sublist faults c t.calls p.removals
  have hwrites := passed_sublist faults c (Batch.attempted c t p.removals).calls p.writes
  have hfeasible := (h.sublist hremovals hwrites).feasible hc
    (hfresh.mono (Batch.draws_le_of_sublist hwrites))
  obtain ⟨hfirst, hsecond⟩ := hfeasible.of_append
  have hleft := of_feasible hc hfirst
  refine ⟨hleft, of_feasible hc ?_⟩
  rw [hleft.store]
  exact hsecond

end FailsByFaults

end FaultyStore

/-! ### Writes of values -/

namespace Collection

variable {faults : List StoreCall → StoreCall → Option StoreError} {b : BoundField}
  {replacing : Bool} {id owner : String} {value : List Reference} {s : MemoryStore}
  {es : List Edge} {p : Plan}

theorem mem_unnamed_iff (hids : ∀ e ∈ es, ∃ id, e.id = some id) {e : Edge} :
    e ∈ unnamed es value ↔ e ∈ es ∧ ∀ r ∈ value, r.edgeId? ≠ e.id := by
  unfold unnamed
  rw [List.mem_filter, and_congr_right_iff]
  intro he
  obtain ⟨id, hid⟩ := hids e he
  simp [hid, List.contains_eq_mem]

/-- What is to be done to a field, in any store: each edge at the field that the value does not
    name is to be removed, when replacing, and then each reference is to be written, first those
    that name an edge. -/
structure Prepared (b : BoundField) (replacing : Bool) (owner : String) (value : List Reference)
    (s : MemoryStore) (p : Plan) : Prop where
  removals_of_adding : replacing = false → p.removals = []
  removals_of_replacing : replacing = true → ∃ gone : List Edge, gone.Nodup ∧
    (∀ e, e ∈ gone ↔ e.involves owner b.field.name = true ∧
      (∃ path, s.EdgeAt b.edgeContainer path e) ∧ ∀ r ∈ value, r.edgeId? ≠ e.id) ∧
    p.removals = gone.map BoundField.removalOf
  writes : ∃ g : Reference → Operation, p.writes = (namedFirst value).map g ∧
    ∀ r ∈ value, ∃ es, (b.existingEdges owner).answer s = .ok es ∧ b.WriteFrom owner es r (g r)

theorem prepared_of_answer_plan (hs : s.Dated)
    (h : (plan b replacing id value).answer s = .ok p) :
    Prepared b replacing (b.ownerPath id) value s p := by
  cases BoundField.settled_of_collection h with
  | idle hreplacing hvalue hplan =>
    subst hreplacing hvalue hplan
    exact ⟨fun _ => rfl, nofun, fun _ => .delete "" none, rfl, fun _ hr => nomatch hr⟩
  | @found es g hfound _ _ _ hremovals hwrites hg =>
    constructor
    · rintro rfl
      exact hremovals
    · rintro rfl
      refine ⟨unnamed es value, (BoundField.nodup_of_found hs hfound).filter _, ?_, hremovals⟩
      intro e
      rw [mem_unnamed_iff (BoundField.ids_of_found hfound),
        BoundField.mem_existingEdges_iff hfound, and_assoc]
    · refine ⟨g, ?_, fun r hr => ⟨es, hfound, hg r hr⟩⟩
      rw [hwrites]
      exact ordered_map fun r hr => (writes_of_writeFrom hfound (hg r hr)).isCreate

namespace Prepared

theorem removes (h : Prepared b replacing owner value s p) :
    ∀ o ∈ p.removals, o.Removes b.edgeContainer s := by
  intro o ho
  cases replacing with
  | false =>
    rw [h.removals_of_adding rfl] at ho
    cases ho
  | true =>
    obtain ⟨gone, _, hgone, hremovals⟩ := h.removals_of_replacing rfl
    rw [hremovals, List.mem_map] at ho
    obtain ⟨e, he, rfl⟩ := ho
    obtain ⟨_, ⟨path, hat⟩, _⟩ := (hgone e).1 he
    obtain ⟨id, hid, _⟩ := hat.exists_id
    exact ⟨path, id, e, hat, hid, BoundField.removalOf_eq hid⟩

theorem authored (h : Prepared b replacing owner value s p) : ∀ o ∈ p.writes, o.Authored := by
  obtain ⟨g, hwrites, hg⟩ := h.writes
  rw [hwrites]
  apply authored_of_namedFirst
  intro r hr
  obtain ⟨es, hfound, hwrite⟩ := hg r hr
  exact writes_of_writeFrom hfound hwrite

end Prepared

/-- **A write that fails in part is what its failed calls make of it.** A value that passes all
    checks has its removals attempted, each once. If one of them fails, nothing else is
    attempted, and the error is that of the first one that failed. Otherwise all updates and
    then all creations are attempted, each once; what those that succeed answer is read back
    afterwards, unless a later one of the same record succeeds too, and the write fails just
    when one of them does, with the error of the first. In a store as the engine keeps it, with
    fresh identifiers, only faults make calls fail. How many operations may be in flight makes
    no difference. -/
theorem set_partial_failure (b : BoundField) (replacing : Bool) (id : String)
    (value : List Reference) (t : FaultyStore faults) (p : Plan) (hs : t.store.Reached)
    (hsettings : b.settings.Accepted)
    (hplan : (plan b replacing id value).answer t.store = .ok p) :
    let c := b.edgeContainer
    let t₁ := Batch.attempted c t p.removals
    let t₂ := Batch.attempted c t₁ p.writes
    Prepared b replacing (b.ownerPath id) value t.store p ∧
    t₁.calls = t.calls ++ p.removals.map (Operation.call c) ∧
    t₂.calls = t₁.calls ++ p.writes.map (Operation.call c) ∧
    (∀ e, Batch.firstFailure (Batch.outcomes c t p.removals) = some e →
      set b replacing id value t = (.error (.store e), t₁)) ∧
    (Batch.firstFailure (Batch.outcomes c t p.removals) = none →
      (∀ e, Batch.firstFailure (Batch.outcomes c t₁ p.writes) = some e →
        set b replacing id value t = (.error (.store e), t₂)) ∧
      (Batch.firstFailure (Batch.outcomes c t₁ p.writes) = none →
        ∃ written, set b replacing id value t = (.ok written, t₂)) ∧
      ∀ record rest, (.ok record :: rest) <:+ Batch.outcomes c t₁ p.writes →
        (∀ later, .ok later ∈ rest → later.id ≠ record.id) →
        t₂.store.read (Path.join c record.id) = .ok record) ∧
    (t.store.WellFormed → t.store.FreshIds (value.countP (·.edgeId?.isNone)) →
      FaultyStore.FailsByFaults c t p.removals ∧ FaultyStore.FailsByFaults c t₁ p.writes) ∧
    ∀ width, 1 ≤ width →
      set (b.limited width) replacing id value t = set b replacing id value t := by
  intro c t₁ t₂
  have hc : Path.IsAddress c := hsettings.isAddress
  have hprepared := prepared_of_answer_plan hs.dated hplan
  have hset : set b replacing id value t = p.perform b (b.ownerPath id) t := set_of_plan hplan
  refine ⟨hprepared, FaultyStore.calls_attempted c _ t, FaultyStore.calls_attempted c _ t₁,
    ?removalFails, ?removed, ?onlyFaults,
    fun width _ => set_limited b width replacing id value t⟩
  case removalFails =>
    intro e hfailed
    rw [hset, Plan.perform, bind_apply, BoundField.execute_of_failure hfailed]
  case removed =>
    intro hnone
    obtain ⟨_, hremovals⟩ := BoundField.execute_of_no_failure (b.ownerPath id) hnone
      (FaultyStore.ofRecord_of_removals hs.dated hc hprepared.removes)
    refine ⟨?_, ?_, fun record rest => FaultyStore.read_attempted hc hprepared.authored⟩
    · intro e hfailed
      rw [hset, Plan.perform, bind_ok hremovals, BoundField.execute_of_failure hfailed]
    · intro hnone
      obtain ⟨written, hwrites⟩ := BoundField.execute_of_no_failure (b.ownerPath id)
        hnone (FaultyStore.ofRecord_of_writes hc hprepared.authored)
      exact ⟨written, by rw [hset, Plan.perform, bind_ok hremovals, hwrites]⟩
  case onlyFaults =>
    intro hwell hfresh
    obtain ⟨hfits, hdraws⟩ := fits_of_answer_plan hwell hc hplan
    rw [← hdraws] at hfresh
    exact FaultyStore.FailsByFaults.of_fits hc hfits hfresh

end Collection

namespace Sample

theorem reached_store : store.Reached := by
  have hseeds : seeds.Reached :=
    (MemoryStore.Reached.empty.put isContainer_users (by decide +kernel) rfl).put
      isContainer_roles (by decide +kernel) rfl
  exact (((hseeds.put isContainer_roles (by decide +kernel) rfl).put
    isContainer_roles (by decide +kernel) rfl).put
    isContainer_edges (by decide +kernel) assigned.withoutBookkeeping_content).put
    isContainer_edges (by decide +kernel) joined.withoutBookkeeping_content

/-- Lets every creation fail. -/
def refuseCreations (_ : List StoreCall) : StoreCall → Option StoreError
  | .create _ _ _ => some (.reported .internal "refused")
  | _ => none

/-- The small store, where creations fail. -/
def refusing : FaultyStore refuseCreations := { store := store }

/-- The plan of the value that keeps the user's first role and adds a third one. -/
def refusedPlan : Plan :=
  ((Collection.plan roles true "1" Collection.namedOnce).answer store).toOption.getD ⟨[], []⟩

theorem answer_refusedPlan :
    (Collection.plan roles true "1" Collection.namedOnce).answer store = .ok refusedPlan := by
  obtain ⟨p, hp⟩ := Result.eq_ok_of_isOk
    (x := (Collection.plan roles true "1" Collection.namedOnce).answer store) (by decide +kernel)
  rw [refusedPlan, hp]
  rfl

end Sample

/-- A user who has two roles keeps the first one, loses the second one and is refused a third
    one: three calls are made, and only the creation fails. -/
theorem Collection.set_partial_failure_refusedCreation :
    ∃ e t, set Sample.roles true "1" namedOnce Sample.refusing = (.error (.store e), t) ∧
      t.calls.length = 3 ∧
      FaultyStore.FailsByFaults Sample.roles.edgeContainer Sample.refusing
        Sample.refusedPlan.removals := by
  obtain ⟨_, hcalls₁, hcalls₂, _, hremoved, honly, _⟩ := set_partial_failure Sample.roles true "1"
    namedOnce Sample.refusing Sample.refusedPlan Sample.reached_store Sample.accepted_roles
    Sample.answer_refusedPlan
  have hnone : Batch.firstFailure (Batch.outcomes Sample.roles.edgeContainer Sample.refusing
      Sample.refusedPlan.removals) = none :=
    Option.isNone_iff_eq_none.1 (by decide +kernel)
  obtain ⟨e, hfailed⟩ := Option.isSome_iff_exists.1 (show (Batch.firstFailure
    (Batch.outcomes Sample.roles.edgeContainer (Batch.attempted Sample.roles.edgeContainer
      Sample.refusing Sample.refusedPlan.removals) Sample.refusedPlan.writes)).isSome = true by
    decide +kernel)
  refine ⟨e, _, (hremoved hnone).1 e hfailed, ?_,
    (honly Sample.wellFormed_store Sample.freshIds_store).1⟩
  rw [hcalls₂, hcalls₁]
  decide +kernel

end EdgeFields
