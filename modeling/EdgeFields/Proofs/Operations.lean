/-
  EdgeFields/Proofs/Operations.lean
  =================================
  **What writes consist of, in any store.**

  Nothing is assumed of the store here: a store may hold records under paths that the engine
  would never make. Even then the operations of a plan are removals of what the engine found
  at the field, creations, and updates of what it found (`Plan.Composed`), and whatever becomes
  of an operation, a record that it leaves is an old one or one with the content of an edge
  that it was to write (`Operation.stored_of_run`). So a record after a call of a client was
  there before or shows a reference that was written, as a new edge or over one that was found
  (`BoundField.Call.leaves_of_run`).

  When a single operation of the store succeeds and what it leaves then is said first, for any
  path and any content (`MemoryStore.update_eq_ok_iff`, `MemoryStore.delete_eq_ok_iff`,
  `MemoryStore.put_of_create`).
-/
import EdgeFields.Engine.Value
import EdgeFields.Proofs.Singleton

namespace EdgeFields

open EngineM

/-! ### Single operations that ran -/

namespace MemoryStore

variable {s t : MemoryStore} {c path : String} {ms : Members} {record : Record}

theorem find_eq_ok_iff {id : String} {r : StoredRecord} :
    s.find path = .ok (id, r) ↔
      (∃ c, Path.split? path = some (c, id)) ∧
        Dict.get? s.records (Path.trim path) = some r := by
  unfold find
  cases hsplit : Path.split? path with
  | none => simp
  | some names =>
    cases hget : Dict.get? s.records (Path.trim path) with
    | none => simp
    | some r' =>
      obtain ⟨c, id'⟩ := names
      simp

theorem checkRevision_eq_ok_iff {expected : Option String} {r : StoredRecord} :
    checkRevision path expected r = .ok () ↔ Meets expected r := by
  constructor
  · intro h
    unfold checkRevision at h
    cases expected with
    | none => exact .inl rfl
    | some e =>
      dsimp only at h
      split at h
      · rename_i he
        exact .inr (congrArg some he)
      · cases h
  · exact checkRevision_of_meets

theorem keep_eq_ok_iff {content : Json} {fields : Members} :
    keep content = .ok fields ↔
      ∃ ms, content = .obj ms ∧ fields = Record.withoutBookkeeping ms := by
  cases content <;> simp [keep, eq_comm]

theorem update_eq_ok_iff {expected : Option String} {content : Json} :
    s.update path expected content = .ok (record, t) ↔ ∃ c id ms r,
      Path.split? path = some (c, id) ∧ content = .obj ms ∧
      Dict.get? s.records (Path.trim path) = some r ∧ Meets expected r ∧
      record = .ofMembers id (toString (s.revisions + 1)) (Record.withoutBookkeeping ms) ∧
      t = s.put (Path.trim path) (Record.withoutBookkeeping ms) := by
  constructor
  · intro h
    unfold update at h
    split at h
    · cases h
    · obtain ⟨fields, hkeep, h⟩ := Result.bind_eq_ok.1 h
      obtain ⟨⟨id, r⟩, hfind, h⟩ := Result.bind_eq_ok.1 h
      obtain ⟨_, hmeets, h⟩ := Result.bind_eq_ok.1 h
      cases h
      obtain ⟨ms, rfl, rfl⟩ := keep_eq_ok_iff.1 hkeep
      obtain ⟨⟨c, hsplit⟩, hget⟩ := find_eq_ok_iff.1 hfind
      exact ⟨c, id, ms, r, hsplit, rfl, hget, checkRevision_eq_ok_iff.1 hmeets, rfl, rfl⟩
  · rintro ⟨c, id, ms, r, hsplit, rfl, hget, hmeets, rfl, rfl⟩
    unfold update
    rw [hsplit, find_eq_ok_iff.2 ⟨⟨c, hsplit⟩, hget⟩]
    simp only [keep, Option.isNone_some, bind, Except.bind, checkRevision_of_meets hmeets]
    rfl

theorem delete_eq_ok_iff {expected : Option String} :
    s.delete path expected = .ok (record, t) ↔ ∃ c id r, Path.split? path = some (c, id) ∧
      Dict.get? s.records (Path.trim path) = some r ∧ Meets expected r ∧
      record = StoredRecord.toRecord r id ∧ t = s.remove (Path.trim path) := by
  constructor
  · intro h
    unfold delete at h
    obtain ⟨⟨id, r⟩, hfind, h⟩ := Result.bind_eq_ok.1 h
    obtain ⟨_, hmeets, h⟩ := Result.bind_eq_ok.1 h
    cases h
    obtain ⟨⟨c, hsplit⟩, hget⟩ := find_eq_ok_iff.1 hfind
    exact ⟨c, id, r, hsplit, hget, checkRevision_eq_ok_iff.1 hmeets, rfl, rfl⟩
  · rintro ⟨c, id, r, hsplit, hget, hmeets, rfl, rfl⟩
    unfold delete
    rw [find_eq_ok_iff.2 ⟨⟨c, hsplit⟩, hget⟩]
    simp only [bind, Except.bind, checkRevision_of_meets hmeets]
    rfl

/-- What is left of a creation when its identifier is settled. -/
theorem put_of_unused {content : Json} {answer : Members → Record}
    (h : (do
      let fields ← keep content
      if Dict.contains s.records path then throw (.recordExists path)
      pure (answer fields, s.put path fields)) = Except.ok (record, t)) :
    ∃ ms, content = .obj ms ∧ Dict.get? s.records path = none ∧
      record = answer (Record.withoutBookkeeping ms) ∧
      t = s.put path (Record.withoutBookkeeping ms) := by
  obtain ⟨fields, hkeep, h⟩ := Result.bind_eq_ok.1 h
  obtain ⟨ms, rfl, rfl⟩ := keep_eq_ok_iff.1 hkeep
  by_cases hused : Dict.contains s.records path = true
  · simp only [hused, if_true] at h
    cases h
  · simp only [hused] at h
    cases h
    exact ⟨ms, rfl, by simpa [Dict.contains] using hused, rfl, rfl⟩

/-- A creation that succeeds puts its record where there was none, under a name that was given
    or assigned. -/
theorem put_of_create {id : Option String} {content : Json}
    (h : s.create c id content = .ok (record, t)) :
    ∃ name ms, Path.trim c ≠ "" ∧ content = .obj ms ∧
      (id = some name ∧ t = s.put (Path.join (Path.trim c) name) (Record.withoutBookkeeping ms) ∨
        id = none ∧ name = Ids.assigned s.serials ∧
          t = s.nextSerial.put (Path.join (Path.trim c) name) (Record.withoutBookkeeping ms)) ∧
      Dict.get? s.records (Path.join (Path.trim c) name) = none ∧
      record = .ofMembers name (toString (s.revisions + 1)) (Record.withoutBookkeeping ms) := by
  unfold create at h
  -- what the identifier is plays no part, and evaluating it takes long
  generalize Ids.assigned s.serials = assigned at h ⊢
  by_cases hempty : (Path.trim c).isEmpty = true
  · simp only [hempty, if_true] at h
    cases h
  · have hne : Path.trim c ≠ "" := by simpa [String.isEmpty_iff] using hempty
    simp only [hempty] at h
    cases id with
    | some id =>
      obtain ⟨ms, hms, hunused, hrecord, hput⟩ := put_of_unused h
      exact ⟨id, ms, hne, hms, .inl ⟨rfl, hput⟩, hunused, hrecord⟩
    | none =>
      obtain ⟨ms, hms, hunused, hrecord, hput⟩ := put_of_unused (s := s.nextSerial) h
      exact ⟨assigned, ms, hne, hms, .inr ⟨rfl, rfl, hput⟩, hunused, hrecord⟩

theorem create_eq_ok_cases (h : s.create c none (.obj ms) = .ok (record, t)) :
    Dict.get? s.records (Path.join (Path.trim c) (Ids.assigned s.serials)) = none ∧
      t = s.nextSerial.put (Path.join (Path.trim c) (Ids.assigned s.serials))
        (Record.withoutBookkeeping ms) := by
  obtain ⟨name, ms', _, hms, hname, hunused, _⟩ := put_of_create h
  cases hms
  rcases hname with ⟨hnone, _⟩ | ⟨_, rfl, hput⟩
  · cases hnone
  · exact ⟨hunused, hput⟩

theorem update_eq_ok_cases {expected : Option String}
    (h : s.update path expected (.obj ms) = .ok (record, t)) :
    (∃ id r, s.find path = .ok (id, r)) ∧
      t = s.put (Path.trim path) (Record.withoutBookkeeping ms) := by
  obtain ⟨c, id, ms', r, hsplit, hms, hget, _, _, hput⟩ := update_eq_ok_iff.1 h
  cases hms
  exact ⟨⟨id, r, find_eq_ok_iff.2 ⟨⟨c, hsplit⟩, hget⟩⟩, hput⟩

theorem delete_eq_ok_cases {expected : Option String}
    (h : s.delete path expected = .ok (record, t)) : t = s.remove (Path.trim path) := by
  obtain ⟨_, _, _, _, _, _, _, hremove⟩ := delete_eq_ok_iff.1 h
  exact hremove

theorem writing_cases {α : Type} {f : MemoryStore → Except StoreError (α × MemoryStore)}
    {x : Except StoreError α} (h : writing f s = (x, t)) :
    (∃ a, x = .ok a ∧ f s = .ok (a, t)) ∨ ∃ e, x = .error e ∧ t = s := by
  unfold writing at h
  split at h
  · rename_i a s' hf
    cases h
    exact .inl ⟨a, rfl, hf⟩
  · rename_i e hf
    cases h
    exact .inr ⟨e, rfl, rfl⟩

end MemoryStore
namespace Operation

variable {c path : String} {s t : MemoryStore} {o : Operation} {r : StoredRecord}

theorem run_create (c : String) (e : Edge) :
    (create e).run c = MemoryStore.writing fun s => s.create c none (.obj e.content) := rfl

theorem run_update (c id : String) (expected : Option String) (e : Edge) :
    (update id expected e).run c =
      MemoryStore.writing fun s => s.update (Path.join c id) expected (.obj e.content) := rfl

theorem run_delete (c id : String) (expected : Option String) :
    (delete id expected).run c =
      MemoryStore.writing fun s => s.delete (Path.join c id) expected := rfl

/-- **A record that an operation leaves is an old one or what the operation was to leave**,
    whether the operation succeeded or not and wherever it put the record. -/
theorem stored_of_run {x : Except StoreError Record} (h : o.run c s = (x, t))
    (hr : Dict.get? t.records path = some r) :
    Dict.get? s.records path = some r ∨ o.leaves r.revision = some r := by
  cases o with
  | create e =>
    rw [run_create] at h
    rcases MemoryStore.writing_cases h with ⟨record, _, hcreate⟩ | ⟨_, _, rfl⟩
    · obtain ⟨_, rfl⟩ := MemoryStore.create_eq_ok_cases hcreate
      rw [MemoryStore.get?_put, Edge.withoutBookkeeping_content] at hr
      split at hr
      · cases hr
        exact .inr rfl
      · exact .inl hr
    · exact .inl hr
  | update id expected e =>
    rw [run_update] at h
    rcases MemoryStore.writing_cases h with ⟨record, _, hupdate⟩ | ⟨_, _, rfl⟩
    · obtain ⟨_, rfl⟩ := MemoryStore.update_eq_ok_cases hupdate
      rw [MemoryStore.get?_put, Edge.withoutBookkeeping_content] at hr
      split at hr
      · cases hr
        exact .inr rfl
      · exact .inl hr
    · exact .inl hr
  | delete id expected =>
    rw [run_delete] at h
    rcases MemoryStore.writing_cases h with ⟨record, _, hdelete⟩ | ⟨_, _, rfl⟩
    · rw [MemoryStore.delete_eq_ok_cases hdelete, MemoryStore.get?_remove] at hr
      split at hr
      · cases hr
      · exact .inl hr
    · exact .inl hr

end Operation

/-! ### Batches that ran -/

section Preserved

variable {b : BoundField} {owner path : String} {s : MemoryStore} {os : List Operation}
  {p : Plan} {r : StoredRecord} {P : MemoryStore → Prop}

/-- **What every operation of a batch preserves the batch preserves**, whichever of them fail. -/
theorem Batch.preserved_of_runFrom {c : String} (h : ∀ o ∈ os, ∀ t, P t → P (o.run c t).2)
    (hs : P s) (index : Nat) : P (runFrom c index os s).2 := by
  induction os generalizing s index with
  | nil => exact hs
  | cons o os ih =>
    rw [List.forall_mem_cons] at h
    have hfirst := h.1 s hs
    rcases hrun : o.run c s with ⟨x, s'⟩
    rw [hrun] at hfirst
    have hrest := ih h.2 hfirst (index + 1)
    rcases hruns : runFrom c (index + 1) os s' with ⟨rest, t⟩
    rw [hruns] at hrest
    simp only [runFrom, bind, StateT.bind, ExceptT.run, hrun, hruns]
    exact hrest

theorem BoundField.preserved_of_execute
    (h : ∀ o ∈ os, ∀ t, P t → P (o.run b.edgeContainer t).2) (hs : P s) :
    P (b.execute owner os s).2 := by
  by_cases hne : os = []
  · subst hne
    exact hs
  · have hbatch := Batch.preserved_of_runFrom h hs 0
    rw [execute_apply hne, Batch.execute_eq]
    cases (Batch.runFrom b.edgeContainer 0 os s).1.result <;> exact hbatch

theorem Plan.preserved_of_perform
    (h : ∀ o ∈ p.operations, ∀ t, P t → P (o.run b.edgeContainer t).2) (hs : P s) :
    P (p.perform b owner s).2 := by
  have hremovals : P (b.execute owner p.removals s).2 :=
    BoundField.preserved_of_execute (fun o ho => h o (List.mem_append_left _ ho)) hs
  unfold perform
  rw [bind_apply]
  rcases hrun : b.execute owner p.removals s with ⟨x, t⟩
  rw [hrun] at hremovals
  cases x with
  | error e => exact hremovals
  | ok _ =>
    exact BoundField.preserved_of_execute (fun o ho => h o (List.mem_append_right _ ho)) hremovals

/-- The records of a store are old ones or what some operations were to leave. -/
def Batch.StoredBy (os : List Operation) (s t : MemoryStore) : Prop :=
  ∀ path r, Dict.get? t.records path = some r →
    Dict.get? s.records path = some r ∨ ∃ o ∈ os, o.leaves r.revision = some r

theorem Batch.StoredBy.refl (os : List Operation) (s : MemoryStore) : StoredBy os s s :=
  fun _ _ => Or.inl

theorem Batch.StoredBy.run {t : MemoryStore} {o : Operation} (ho : o ∈ os)
    (h : StoredBy os s t) (c : String) : StoredBy os s (o.run c t).2 := by
  intro path r hr
  rcases Operation.stored_of_run (Prod.eta _).symm hr with hold | hleaves
  · exact h path r hold
  · exact .inr ⟨o, ho, hleaves⟩

theorem BoundField.stored_of_execute
    (h : Dict.get? (b.execute owner os s).2.records path = some r) :
    Dict.get? s.records path = some r ∨ ∃ o ∈ os, o.leaves r.revision = some r :=
  preserved_of_execute (P := Batch.StoredBy os s) (fun _ ho _ ht => ht.run ho _) (.refl os s)
    path r h

theorem Plan.stored_of_perform (h : Dict.get? (p.perform b owner s).2.records path = some r) :
    Dict.get? s.records path = some r ∨ ∃ o ∈ p.operations, o.leaves r.revision = some r :=
  preserved_of_perform (P := Batch.StoredBy p.operations s) (fun _ ho _ ht => ht.run ho _)
    (.refl _ s) path r h

end Preserved

/-! ### Operations of plans -/

theorem BoundField.deleteOperation_cases {e : Edge} {o : Operation}
    (h : deleteOperation e = .ok o) : ∃ id, o = .delete id e.revision := by
  unfold deleteOperation at h
  split at h
  · cases h
  · cases h
    exact ⟨_, rfl⟩

/-- Every operation of a plan removes what was found at the field or writes a reference. -/
structure Plan.Composed (b : BoundField) (owner : String) (s : MemoryStore) (p : Plan) :
    Prop where
  removals : ∀ o ∈ p.removals, ∃ id expected, o = .delete id expected
  writes : ∀ o ∈ p.writes, ∃ es r, (b.existingEdges owner).answer s = .ok es ∧
    b.WriteFrom owner es r o

theorem removals_of_mapM {es : List Edge} {os : List Operation}
    (h : es.mapM BoundField.deleteOperation = .ok os) :
    ∀ o ∈ os, ∃ id expected, o = .delete id expected := by
  obtain ⟨g, rfl, hg⟩ := Result.map_of_mapM_eq_ok h
  intro o ho
  obtain ⟨e, he, rfl⟩ := List.mem_map.1 ho
  obtain ⟨id, hdelete⟩ := BoundField.deleteOperation_cases (hg e he)
  exact ⟨id, _, hdelete⟩

namespace Collection

variable {b : BoundField} {replacing : Bool} {id : String} {value written : List Reference}
  {s s' : MemoryStore} {p : Plan}

theorem exists_perform_of_set (h : set b replacing id value s = (.ok written, s')) :
    ∃ p, (plan b replacing id value).answer s = .ok p ∧
      p.perform b (b.ownerPath id) s = (.ok written, s') := by
  rw [set_eq_plan] at h
  obtain ⟨p, t, hplan, hperform⟩ := of_bind_eq_ok h
  obtain ⟨hanswer, rfl⟩ := (readOnly_plan b replacing id value).eq_ok_of_apply hplan
  exact ⟨p, hanswer, hperform⟩

/-- The writes of a plan are those of its references, updates first. -/
theorem exists_writes_of_answer_plan (h : (plan b replacing id value).answer s = .ok p) :
    ∃ g : Reference → Operation, p.writes = ordered (value.map g) ∧
      ∀ r ∈ value, ∃ es, (b.existingEdges (b.ownerPath id)).answer s = .ok es ∧
        b.WriteFrom (b.ownerPath id) es r (g r) := by
  by_cases hne : value = []
  · subst hne
    refine ⟨fun _ => .delete "" none, ?_, fun _ hr => (nomatch hr)⟩
    rcases answer_plan_nil h with ⟨_, rfl⟩ | ⟨_, _, _, _, hwrites⟩
    · rfl
    · exact hwrites
  · rw [answer_plan hne] at h
    simp only [Result.bind_eq_ok] at h
    obtain ⟨_, _, _, _, _, _, es, hfound, _, _, ws, hws, _, _, h⟩ := h
    cases h
    obtain ⟨g, rfl, hg⟩ := Result.map_of_mapM_eq_ok hws
    exact ⟨g, rfl, fun r hr => ⟨es, hfound, writeFrom_of_writeOf (hg r hr)⟩⟩

theorem composed_of_answer_plan (h : (plan b replacing id value).answer s = .ok p) :
    p.Composed b (b.ownerPath id) s := by
  constructor
  · by_cases hne : value = []
    · subst hne
      rcases answer_plan_nil h with ⟨_, rfl⟩ | ⟨_, es, _, hremovals, _⟩
      · exact fun _ ho => (nomatch ho)
      · exact removals_of_mapM hremovals
    · rw [answer_plan hne] at h
      simp only [Result.bind_eq_ok] at h
      obtain ⟨_, _, _, _, _, _, _, _, _, _, _, _, removals, hremovals, h⟩ := h
      cases h
      exact removals_of_mapM hremovals
  · obtain ⟨g, hwrites, hg⟩ := exists_writes_of_answer_plan h
    intro o ho
    rw [hwrites, mem_ordered] at ho
    obtain ⟨r, hr, rfl⟩ := List.mem_map.1 ho
    obtain ⟨es, hfound, hwrite⟩ := hg r hr
    exact ⟨es, r, hfound, hwrite⟩

end Collection

namespace Singleton

variable {b : BoundField} {replacing : Bool} {id : String} {value : Option Reference}
  {s : MemoryStore} {p : Plan}

theorem composed_of_answer_plan (h : (plan b replacing id value).answer s = .ok p) :
    p.Composed b (b.ownerPath id) s := by
  cases value with
  | none =>
    have hplan : (Collection.plan b replacing id []).answer s = .ok p := h
    exact Collection.composed_of_answer_plan hplan
  | some r =>
    obtain ⟨es, hfound, hplan⟩ := exists_planOf h
    obtain ⟨gone, o, _, hremovals, hwrites, hwrite⟩ := planOf_cases hplan
    refine ⟨removals_of_mapM hremovals, fun o' ho' => ?_⟩
    rw [hwrites, List.mem_singleton] at ho'
    rw [ho']
    exact ⟨es, r, hfound, hwrite⟩

end Singleton

/-! ### Calls -/

/-- What a client can have done to the field of an owner. -/
inductive BoundField.Call
  | set (replacing : Bool) (id : String) (value : Json)
  | clear (id : String)

def BoundField.Call.run {σ : Type} [Store σ] (b : BoundField) : Call → EngineM σ Json
  | .set replacing id value => b.setValue replacing id value
  | .clear id => b.clearValue id

/-- A record as writes through a field leave them: a reference was written, as a new edge or
    over one that was found at the field. -/
def BoundField.Leaves (b : BoundField) (s : MemoryStore) (stored : StoredRecord) : Prop :=
  ∃ owner es r o revision, (b.existingEdges owner).answer s = .ok es ∧
    b.WriteFrom owner es r o ∧ o.leaves revision = some stored

section Calls

variable {b : BoundField} {replacing : Bool} {id owner path : String} {s : MemoryStore}
  {p : Plan} {stored : StoredRecord}

theorem Plan.Composed.leaves_of_perform (hp : p.Composed b owner s)
    (h : Dict.get? (p.perform b owner s).2.records path = some stored) :
    Dict.get? s.records path = some stored ∨ b.Leaves s stored := by
  rcases stored_of_perform h with hold | ⟨o, ho, hleaves⟩
  · exact .inl hold
  · rcases List.mem_append.1 ho with hremoval | hwrite
    · obtain ⟨_, _, rfl⟩ := hp.removals o hremoval
      cases hleaves
    · obtain ⟨es, r, hfound, hfrom⟩ := hp.writes o hwrite
      exact .inr ⟨owner, es, r, o, _, hfound, hfrom, hleaves⟩

theorem Collection.leaves_of_set {value : List Reference}
    (h : Dict.get? (set b replacing id value s).2.records path = some stored) :
    Dict.get? s.records path = some stored ∨ b.Leaves s stored := by
  rw [set_eq_plan, (readOnly_plan b replacing id value).bind_apply] at h
  cases hplan : (plan b replacing id value).answer s with
  | error e =>
    rw [hplan] at h
    exact .inl h
  | ok p =>
    rw [hplan] at h
    exact (composed_of_answer_plan hplan).leaves_of_perform h

theorem Singleton.leaves_of_set {value : Option Reference}
    (h : Dict.get? (set b replacing id value s).2.records path = some stored) :
    Dict.get? s.records path = some stored ∨ b.Leaves s stored := by
  simp only [set_eq_plan, ← map_eq_pure_bind] at h
  rw [(readOnly_plan b replacing id value).bind_apply] at h
  cases hplan : (plan b replacing id value).answer s with
  | error e =>
    rw [hplan] at h
    exact .inl h
  | ok p =>
    rw [hplan] at h
    dsimp only at h
    rw [state_map] at h
    exact (composed_of_answer_plan hplan).leaves_of_perform h

theorem Collection.stored_of_clearOwner
    (h : Dict.get? (clearOwner b owner s).2.records path = some stored) :
    Dict.get? s.records path = some stored := by
  unfold clearOwner at h
  rw [(BoundField.readOnly_existingEdges b owner).bind_apply] at h
  cases hfound : (b.existingEdges owner).answer s with
  | error e =>
    rw [hfound] at h
    exact h
  | ok es =>
    rw [hfound] at h
    dsimp only at h
    cases hremovals : es.mapM BoundField.deleteOperation with
    | error e =>
      rw [hremovals] at h
      exact h
    | ok os =>
      rw [hremovals, ofResult_ok_bind] at h
      rcases BoundField.stored_of_execute h with hold | ⟨o, ho, hleaves⟩
      · exact hold
      · obtain ⟨_, _, rfl⟩ := removals_of_mapM hremovals o ho
        cases hleaves

theorem Singleton.clearOwner_eq_map (b : BoundField) (owner : String) :
    (clearOwner b owner : EngineM MemoryStore (Option Reference)) =
      List.getLast? <$> Collection.clearOwner b owner := by
  unfold clearOwner Collection.clearOwner
  simp only [map_eq_pure_bind, bind_assoc]

/-- **A record after a call was there before or is one that writes through the field leave**,
    whether the call succeeded or not. -/
theorem BoundField.Call.leaves_of_run (call : Call)
    (h : Dict.get? (call.run b s).2.records path = some stored) :
    Dict.get? s.records path = some stored ∨ b.Leaves s stored := by
  cases call with
  | set replacing id value =>
    unfold run setValue at h
    cases hcardinality : b.field.cardinality with
    | collection =>
      simp only [hcardinality] at h
      cases hvalue : Reference.listOfJson value with
      | error e =>
        rw [hvalue] at h
        exact .inl h
      | ok rs =>
        rw [hvalue, ofResult_ok_bind, state_map] at h
        exact Collection.leaves_of_set h
    | single =>
      simp only [hcardinality] at h
      cases hvalue : Reference.optionOfJson value with
      | error e =>
        rw [hvalue] at h
        exact .inl h
      | ok r =>
        rw [hvalue, ofResult_ok_bind, state_map] at h
        exact Singleton.leaves_of_set h
  | clear id =>
    left
    unfold run clearValue at h
    cases hcardinality : b.field.cardinality with
    | collection =>
      simp only [hcardinality, state_map] at h
      exact Collection.stored_of_clearOwner h
    | single =>
      simp only [hcardinality, state_map] at h
      unfold Singleton.clear at h
      rw [Singleton.clearOwner_eq_map, state_map] at h
      exact Collection.stored_of_clearOwner h

end Calls

end EdgeFields
