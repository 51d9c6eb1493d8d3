/-
  EdgeFields/Proofs/FaultyStore.lean
  ==================================
  **A memory store of which single writes fail.**

  The faults decide about every write that is attempted, by the write and by those attempted
  before it. A write that they let fail has no effect, and any other one does what it does to
  the memory store inside; reads never fail on their account (`FaultyStore`). So everything
  that the engine checks before its first write comes out as in the memory store
  (`Collection.readsAs_plan`), and an attempt that fails changes nothing, whatever made it fail
  (`FaultyStore.run_cases`).
-/
import EdgeFields.Proofs.Attempts
import EdgeFields.Proofs.Written
import EdgeFields.Store.Monitored

namespace EdgeFields

open EngineM

/-- A memory store with faults. They decide by the writes that were attempted before and the
    one at hand. -/
structure FaultyStore (faults : List StoreCall → StoreCall → Option StoreError) where
  store : MemoryStore
  /-- The writes that were attempted, the first one first. -/
  calls : List StoreCall := []

namespace FaultyStore

variable {faults : List StoreCall → StoreCall → Option StoreError} {α : Type}

/-- Attempts a write. -/
def attempt (call : StoreCall) (m : StoreM MemoryStore α) : StoreM (FaultyStore faults) α :=
  fun t => match faults t.calls call with
    | some e => (.error e, { t with calls := t.calls ++ [call] })
    | none => ((m t.store).1, { store := (m t.store).2, calls := t.calls ++ [call] })

/-- Reads the memory store inside. -/
def reading (m : StoreM MemoryStore α) : StoreM (FaultyStore faults) α :=
  fun t => ((m t.store).1, { t with store := (m t.store).2 })

instance : Store (FaultyStore faults) where
  create container id content :=
    attempt (.create container id content) (Store.create container id content)
  read path := reading (Store.read path)
  update path expected content :=
    attempt (.update path expected content) (Store.update path expected content)
  delete path expected := attempt (.delete path expected) (Store.delete path expected)
  query container request := reading (Store.query container request)

end FaultyStore

/-- The store call that an operation makes. -/
def Operation.call (c : String) : Operation → StoreCall
  | create e => .create c none (.obj e.content)
  | update id expected e => .update (Path.join c id) expected (.obj e.content)
  | delete id expected => .delete (Path.join c id) expected

/-! ### Attempts -/

/-- An operation on a memory store that fails leaves it as it is. -/
theorem Operation.run_eq_of_error {c : String} {o : Operation} {s t : MemoryStore}
    {e : StoreError} (h : o.run c s = (.error e, t)) : t = s := by
  cases o with
  | create edge =>
    rw [run_create] at h
    rcases MemoryStore.writing_cases h with ⟨_, hok, _⟩ | ⟨_, _, rfl⟩
    · cases hok
    · rfl
  | update id expected edge =>
    rw [run_update] at h
    rcases MemoryStore.writing_cases h with ⟨_, hok, _⟩ | ⟨_, _, rfl⟩
    · cases hok
    · rfl
  | delete id expected =>
    rw [run_delete] at h
    rcases MemoryStore.writing_cases h with ⟨_, hok, _⟩ | ⟨_, _, rfl⟩
    · cases hok
    · rfl

namespace FaultyStore

variable {faults : List StoreCall → StoreCall → Option StoreError} {c : String} {α β : Type}

theorem run_eq_attempt (c : String) (o : Operation) :
    (o.run c : StoreM (FaultyStore faults) Record) = attempt (o.call c) (o.run c) := by
  cases o <;> rfl

/-- An operation that the faults let fail has no effect. -/
theorem run_of_fault {t : FaultyStore faults} {o : Operation} {e : StoreError}
    (h : faults t.calls (o.call c) = some e) :
    o.run c t = (.error e, { t with calls := t.calls ++ [o.call c] }) := by
  rw [run_eq_attempt, attempt, h]

/-- Any other one does what it does to the memory store inside. -/
theorem run_of_no_fault {t : FaultyStore faults} {o : Operation} {x : Except StoreError Record}
    {s : MemoryStore} (h : faults t.calls (o.call c) = none) (hrun : o.run c t.store = (x, s)) :
    o.run c t = (x, ⟨s, t.calls ++ [o.call c]⟩) := by
  rw [run_eq_attempt, attempt, h, hrun]

/-- **An attempt that fails changes nothing**, and one that succeeds does to the store inside
    what it does there. Either way it is noted. -/
theorem run_cases (c : String) (o : Operation) (t : FaultyStore faults) :
    (∃ e, o.run c t = (.error e, ⟨t.store, t.calls ++ [o.call c]⟩)) ∨
      ∃ record s, o.run c t.store = (.ok record, s) ∧
        o.run c t = (.ok record, ⟨s, t.calls ++ [o.call c]⟩) := by
  cases hfault : faults t.calls (o.call c) with
  | some e => exact .inl ⟨e, run_of_fault hfault⟩
  | none =>
    rcases hrun : o.run c t.store with ⟨e | record, s⟩
    · obtain rfl := Operation.run_eq_of_error hrun
      exact .inl ⟨e, run_of_no_fault hfault hrun⟩
    · exact .inr ⟨record, s, rfl, run_of_no_fault hfault hrun⟩

theorem calls_run (c : String) (o : Operation) (t : FaultyStore faults) :
    (o.run c t).2.calls = t.calls ++ [o.call c] := by
  rcases run_cases c o t with ⟨e, hrun⟩ | ⟨record, s, _, hrun⟩ <;> rw [hrun]

/-- **Every operation of a batch is attempted once**, and nothing else is. -/
theorem calls_attempted (c : String) (os : List Operation) (t : FaultyStore faults) :
    (Batch.attempted c t os).calls = t.calls ++ os.map (Operation.call c) := by
  induction os generalizing t with
  | nil => exact (List.append_nil _).symm
  | cons o os ih =>
    rw [Batch.attempted, ih, calls_run, List.append_assoc, List.map_cons, List.singleton_append]

/-! ### Reading -/

/-- A computation reads a faulty store as another one reads the memory store inside. -/
structure ReadsAs (m : EngineM (FaultyStore faults) α) (m' : EngineM MemoryStore α) : Prop where
  readOnly : ReadOnly m'
  apply : ∀ t, m t = (m'.answer t.store, t)

theorem readsAs_pure (a : α) : ReadsAs (pure a : EngineM (FaultyStore faults) α) (pure a) where
  readOnly := readOnly_pure a
  apply := fun _ => rfl

theorem readsAs_throw (e : Error) :
    ReadsAs (throw e : EngineM (FaultyStore faults) α) (throw e) where
  readOnly := readOnly_throw e
  apply := fun _ => rfl

theorem readsAs_ofResult (x : Except Error α) :
    ReadsAs (ofResult x : EngineM (FaultyStore faults) α) (ofResult x) where
  readOnly := readOnly_ofResult x
  apply := fun _ => rfl

theorem readsAs_reading (f : MemoryStore → Except StoreError α) :
    ReadsAs (fromStore (reading (MemoryStore.reading f)) : EngineM (FaultyStore faults) α)
      (fromStore (MemoryStore.reading f)) where
  readOnly := readOnly_reading f
  apply := by
    intro t
    rw [fromStore_apply, answer_reading]
    rfl

theorem readsAs_read (path : String) :
    ReadsAs (fromStore (Store.read path) : EngineM (FaultyStore faults) Record)
      (fromStore (Store.read path)) :=
  readsAs_reading _

theorem readsAs_query (c : String) (r : Request) :
    ReadsAs (fromStore (Store.query c r) : EngineM (FaultyStore faults) QueryResults)
      (fromStore (Store.query c r)) :=
  readsAs_reading _

namespace ReadsAs

variable {m : EngineM (FaultyStore faults) α} {m' : EngineM MemoryStore α}

theorem bind (hm : ReadsAs m m') {f : α → EngineM (FaultyStore faults) β}
    {f' : α → EngineM MemoryStore β} (hf : ∀ a, ReadsAs (f a) (f' a)) :
    ReadsAs (m >>= f) (m' >>= f') where
  readOnly := hm.readOnly.bind fun a => (hf a).readOnly
  apply := by
    intro t
    rw [EngineM.bind_apply, hm.apply t, hm.readOnly.answer_bind]
    cases m'.answer t.store with
    | error e => rfl
    | ok a => exact (hf a).apply t

theorem tryCatch (hm : ReadsAs m m') {f : Error → EngineM (FaultyStore faults) α}
    {f' : Error → EngineM MemoryStore α} (hf : ∀ e, ReadsAs (f e) (f' e)) :
    ReadsAs (tryCatch m f) (tryCatch m' f') where
  readOnly := hm.readOnly.tryCatch fun e => (hf e).readOnly
  apply := by
    intro t
    have hanswer : (MonadExcept.tryCatch m' f').answer t.store =
        (m'.answer t.store).tryCatch fun e => (f' e).answer t.store := by
      unfold answer
      rw [tryCatch_apply, hm.readOnly.apply t.store, answer]
      cases (m' t.store).1 <;> rfl
    rw [tryCatch_apply, hm.apply t, hanswer]
    cases m'.answer t.store with
    | error e => exact (hf e).apply t
    | ok a => rfl

theorem forM {f : α → EngineM (FaultyStore faults) Unit} {f' : α → EngineM MemoryStore Unit}
    (hf : ∀ a, ReadsAs (f a) (f' a)) (l : List α) : ReadsAs (l.forM f) (l.forM f') := by
  induction l with
  | nil => exact readsAs_pure ()
  | cons a l ih =>
    rw [Result.forM_cons, Result.forM_cons]
    exact (hf a).bind fun _ => ih

end ReadsAs

end FaultyStore

/-! ### Checks -/

section Checks

open FaultyStore

variable {faults : List StoreCall → StoreCall → Option StoreError}

namespace BoundField

theorem readsAs_existingEdges (b : BoundField) (owner : String) :
    ReadsAs (b.existingEdges owner : EngineM (FaultyStore faults) (List Edge))
      (b.existingEdges owner) :=
  (readsAs_query _ _).bind fun _ => readsAs_ofResult _

theorem readsAs_checkOwner (owner : String) :
    ReadsAs (checkOwner owner : EngineM (FaultyStore faults) Unit) (checkOwner owner) := by
  refine ReadsAs.tryCatch ((readsAs_read owner).bind fun _ => readsAs_pure ()) fun e => ?_
  cases e.kind <;> exact readsAs_throw _

theorem readsAs_checkReferent (b : BoundField) (target : String) :
    ReadsAs (b.checkReferent target : EngineM (FaultyStore faults) Unit)
      (b.checkReferent target) := by
  unfold checkReferent
  split
  · refine ReadsAs.tryCatch ((readsAs_read target).bind fun _ => readsAs_pure ()) fun e => ?_
    cases e.kind <;> exact readsAs_throw _
  · exact readsAs_pure ()

theorem readsAs_checkUnassigned (b : BoundField) (owner target : String) (r : Reference) :
    ReadsAs (b.checkUnassigned owner target r : EngineM (FaultyStore faults) Unit)
      (b.checkUnassigned owner target r) := by
  refine (readsAs_query _ _).bind fun results => ?_
  split
  · exact readsAs_throw _
  · exact readsAs_pure ()

theorem readsAs_validateReference (b : BoundField) (owner : String) (appending : Bool)
    (r : Reference) :
    ReadsAs (b.validateReference owner appending r : EngineM (FaultyStore faults) Unit)
      (b.validateReference owner appending r) := by
  refine (readsAs_ofResult _).bind fun _ => (readsAs_checkReferent b _).bind fun _ => ?_
  split
  · exact readsAs_checkUnassigned b owner _ r
  · exact readsAs_pure ()

theorem readsAs_validateNew (b : BoundField) (owner : String) (appending : Bool)
    (old new : List Reference) :
    ReadsAs (b.validateNew owner appending old new : EngineM (FaultyStore faults) Unit)
      (b.validateNew owner appending old new) :=
  (readsAs_ofResult _).bind fun _ => ReadsAs.forM (readsAs_validateReference b owner appending) _

end BoundField

/-- **A value is checked and planned as in the memory store inside.** -/
theorem Collection.readsAs_plan (b : BoundField) (replacing : Bool) (id : String)
    (value : List Reference) :
    ReadsAs (plan b replacing id value : EngineM (FaultyStore faults) Plan)
      (plan b replacing id value) := by
  refine (readsAs_ofResult _).bind fun _ => (readsAs_ofResult _).bind fun _ => ?_
  split
  · split
    · exact (BoundField.readsAs_existingEdges b _).bind fun _ =>
        (readsAs_ofResult _).bind fun _ => readsAs_pure _
    · exact readsAs_pure _
  · refine (BoundField.readsAs_checkOwner _).bind fun _ =>
      (BoundField.readsAs_existingEdges b _).bind fun _ =>
      (BoundField.readsAs_validateNew b _ _ _ _).bind fun _ => (readsAs_ofResult _).bind fun _ =>
      (readsAs_ofResult _).bind fun _ => readsAs_pure _

/-- A value that passes all checks has its plan performed on the faulty store. -/
theorem Collection.set_of_plan {b : BoundField} {replacing : Bool} {id : String}
    {value : List Reference} {t : FaultyStore faults} {p : Plan}
    (h : (plan b replacing id value).answer t.store = .ok p) :
    set b replacing id value t = p.perform b (b.ownerPath id) t := by
  rw [set_eq_plan, bind_apply, (readsAs_plan b replacing id value).apply, h]

end Checks

end EdgeFields
